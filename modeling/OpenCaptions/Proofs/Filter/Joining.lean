import OpenCaptions.Proofs.Filter.Escaping
import OpenCaptions.Proofs.Filter.Linking

/-!
Splitting and joining. The parts of a text are the pieces that join to it, that are one part each, and of which none but
the last ends in a backslash that escapes. Whether the splitter stands behind such a backslash is what counting the
backslashes back from there says.
-/
namespace OpenCaptions.Filter

open Text Text.Utf8

def endingBackslashes (s : List Char) : Nat := (s.reverse.takeWhile (· == '\\')).length

variable {sep : Char} {a : Nesting} {p : Place} {s part : List Char} {parts : List (List Char)} {offset : Nat}

theorem endingBackslashes_concat (s : List Char) (c : Char) :
    endingBackslashes (s ++ [c]) = if c = '\\' then endingBackslashes s + 1 else 0 := by
  rw [endingBackslashes, List.reverse_append, List.reverse_singleton, List.singleton_append, List.takeWhile_cons]
  by_cases hc : c = '\\'
  · simp [hc, endingBackslashes]
  · simp [hc]

theorem even_endingBackslashes (s : List Char) :
    Even (endingBackslashes s) ↔ (({} : Place).after s).escaped = false := by
  induction s using List.reverseRecOn with
  | nil => simp [endingBackslashes]
  | append_singleton s c ih =>
    rw [endingBackslashes_concat, Place.after_append, Place.after_cons, Place.after_nil, Place.next]
    by_cases hc : c = '\\'
    · rw [if_pos hc, Nat.even_add_one, ih]
      simp [hc]
    · simp [hc]

private theorem passes_or_stops (sep : Char) (a : Nesting) (hp : p.escaped = a.escaped) (c : Char) :
    (∃ b, Passes sep a b [c] ∧ (p.next c).escaped = b.escaped) ∨ a = {} ∧ (c = sep ∨ c = ')') := by
  obtain ⟨escaped, quoted, depth⟩ := a
  have hnext : (p.next c).escaped = (c == '\\' && !escaped) := by rw [Place.next, hp]
  rw [hnext]
  cases escaped with
  | true => exact .inl ⟨_, .escapedChar, by simp⟩
  | false =>
    by_cases hb : c = '\\'
    · subst hb
      exact .inl ⟨_, .backslash, rfl⟩
    · have hbeq : (c == '\\' && !false) = false := by simp [hb]
      rw [hbeq]
      by_cases hq : c = '\''
      · subst hq
        cases quoted with
        | true => exact .inl ⟨_, .closeQuote, rfl⟩
        | false => exact .inl ⟨_, .openQuote, rfl⟩
      · cases quoted with
        | true => exact .inl ⟨_, .quotedChar hb hq, rfl⟩
        | false =>
          by_cases ho : c = '('
          · subst ho
            exact .inl ⟨_, .openParen, rfl⟩
          · cases depth with
            | zero =>
              by_cases hstop : c = sep ∨ c = ')'
              · exact .inr ⟨rfl, hstop⟩
              · rw [not_or] at hstop
                exact .inl ⟨_, .plainChar (by simp [hb, hq, ho, hstop.2]) hstop.1, rfl⟩
            | succ depth =>
              by_cases hc : c = ')'
              · subst hc
                exact .inl ⟨_, .closeParen, rfl⟩
              · exact .inl ⟨_, .innerChar (by simp [hb, hq, ho, hc]), rfl⟩

/-- What the splitter has read when it has found the first part. The part takes it to the top level, and there is
nothing behind the part, or an unescaped separator with the other parts. -/
theorem splitFrom_eq_ok_cons (hs : sep ∉ ['\\', '\'', '(', ')']) (hp : p.escaped = a.escaped)
    (h : splitFrom sep a offset s = .ok (part :: parts)) :
    Passes sep a ⟨(p.after part).escaped, false, 0⟩ part ∧
      (s = part ∧ parts = [] ∨ (p.after part).escaped = false ∧
        ∃ rest offset', s = part ++ sep :: rest ∧ splitFrom sep {} offset' rest = .ok parts) := by
  -- on the way the splitter stands in any nesting, of which `p` has only to know whether a backslash escapes
  induction s generalizing a p offset part with
  | nil =>
    obtain ⟨escaped, quoted, depth⟩ := a
    rw [splitFrom] at h
    split_ifs at h with hq hd
    cases h
    have ha : (⟨escaped, quoted, depth⟩ : Nesting) = ⟨(p.after []).escaped, false, 0⟩ := by
      simp_all
    exact ⟨ha ▸ .nil, .inl ⟨rfl, rfl⟩⟩
  | cons c s ih =>
    rcases passes_or_stops sep a hp c with ⟨b, hpass, hb⟩ | ⟨rfl, hstop⟩
    · have hread := hpass offset s
      rw [List.singleton_append, h] at hread
      obtain ⟨tail, htail, hcons⟩ := Failure.map_eq_ok.1 hread.symm
      obtain ⟨first, others, rfl⟩ := List.exists_cons_of_ne_nil (ne_nil_of_splitFrom htail)
      rw [foldr_extendFirst] at hcons
      obtain ⟨rfl, rfl⟩ := List.cons.inj hcons
      obtain ⟨hfirst, hrest⟩ := ih hb htail
      refine ⟨hpass.cons hfirst, ?_⟩
      rcases hrest with ⟨rfl, rfl⟩ | ⟨hescaped, rest, offset', rfl, hparts⟩
      · exact .inl ⟨rfl, rfl⟩
      · exact .inr ⟨hescaped, rest, offset', rfl, hparts⟩
    · rcases hstop with rfl | rfl
      · have hsplit := Closed.splitFrom_append .nil hs offset s
        rw [List.nil_append, h] at hsplit
        obtain ⟨tail, htail, hcons⟩ := Failure.map_eq_ok.1 hsplit.symm
        obtain ⟨rfl, rfl⟩ := List.cons.inj hcons
        have hescaped : (p.after []).escaped = false := hp
        rw [hescaped]
        exact ⟨.nil, .inr ⟨rfl, s, _, rfl, htail⟩⟩
      · simp [splitFrom_cons] at h

/-- A text is its own only part exactly if it takes the splitter back to the top level without a separator there. -/
theorem splitFrom_eq_singleton_iff (hs : sep ∉ ['\\', '\'', '(', ')']) :
    splitFrom sep {} offset part = .ok [part] ↔ Passes sep {} ⟨(({} : Place).after part).escaped, false, 0⟩ part :=
  ⟨fun h => (splitFrom_eq_ok_cons hs rfl h).1, fun h => h.splitFrom_self offset⟩

/-- One part is a piece, whatever stands behind it, if it does not end in a backslash that escapes. -/
theorem closed_of_splitTopLevel (hs : sep ∉ ['\\', '\'', '(', ')']) (hone : splitTopLevel sep part = .ok [part])
    (heven : Even (endingBackslashes part)) : Closed sep part := by
  have hpass := (splitFrom_eq_singleton_iff hs).1 hone
  rwa [(even_endingBackslashes part).1 heven] at hpass

/-- What the splitter finds: parts that join to the text, with a separator that is not escaped behind all but the
last. -/
theorem join_of_splitFrom (hs : sep ∉ ['\\', '\'', '(', ')']) (h : splitFrom sep {} offset s = .ok parts) :
    join [sep] parts = s ∧ (∀ part ∈ parts, splitTopLevel sep part = .ok [part]) ∧
      ∀ part ∈ parts.dropLast, Even (endingBackslashes part) := by
  induction parts generalizing s offset with
  | nil => exact absurd rfl (ne_nil_of_splitFrom h)
  | cons part parts ih =>
    obtain ⟨hpass, hrest⟩ := splitFrom_eq_ok_cons (p := {}) hs rfl h
    have hone : splitTopLevel sep part = .ok [part] := hpass.splitFrom_self 0
    rcases hrest with ⟨rfl, rfl⟩ | ⟨hescaped, rest, offset', rfl, hparts⟩
    · simp [hone]
    · obtain ⟨rfl, hones, heven⟩ := ih hparts
      have hne := ne_nil_of_splitFrom hparts
      rw [join_cons hne, List.dropLast_cons_of_ne_nil hne, List.forall_mem_cons, List.forall_mem_cons]
      exact ⟨by simp, ⟨hone, hones⟩, (even_endingBackslashes part).2 hescaped, heven⟩

/-- Only the last of the parts may end in a backslash that escapes, since no separator stands behind it. -/
theorem splitTopLevel_join_of_even (hs : sep ∉ ['\\', '\'', '(', ')']) (hne : parts ≠ [])
    (hones : ∀ part ∈ parts, splitTopLevel sep part = .ok [part])
    (heven : ∀ part ∈ parts.dropLast, Even (endingBackslashes part)) :
    splitTopLevel sep (join [sep] parts) = .ok parts := by
  obtain ⟨pieces, last, rfl⟩ := (List.eq_nil_or_concat' parts).resolve_left hne
  rw [List.dropLast_concat] at heven
  have hlast := (splitFrom_eq_singleton_iff hs).1 (hones last (by simp))
  have hclosed : ∀ w ∈ pieces, Closed sep w := fun w hw =>
    closed_of_splitTopLevel hs (hones w (List.mem_append_left _ hw)) (heven w hw)
  exact splitFrom_join hs hclosed hlast 0

section LookingBack

/-- The parts of a text as a scan finds them that keeps no track of backslashes, but counts those in front of each
place. `front` is what has been read. -/
def splitLookingBack (sep : Char) (front : List Char) (quoted : Bool) (depth : Nat) :
    List Char → Except SplitError (List (List Char))
  | [] =>
    if quoted then .error .unterminatedQuote
    else if depth ≠ 0 then .error .unbalancedOpen
    else .ok [[]]
  | c :: rest =>
    let onward (quoted : Bool) (depth : Nat) :=
      (splitLookingBack sep (front ++ [c]) quoted depth rest).map (extendFirst c)
    if isEscaped (bytes (front ++ c :: rest)) (size front) then onward quoted depth
    else if c = '\'' then onward (!quoted) depth
    else if quoted then onward quoted depth
    else if c = '(' then onward quoted (depth + 1)
    else if c = ')' then
      if depth = 0 then .error (.unbalancedClose (size front)) else onward quoted (depth - 1)
    else if c = sep ∧ depth = 0 then (splitLookingBack sep (front ++ [c]) quoted depth rest).map ([] :: ·)
    else onward quoted depth

/-- What the splitter keeps track of is what looking back says. -/
theorem splitLookingBack_eq (hs : sep ≠ '\\') (front : List Char) (quoted : Bool) (depth : Nat) (s : List Char) :
    splitLookingBack sep front quoted depth s =
      splitFrom sep ⟨(({} : Place).after front).escaped, quoted, depth⟩ (size front) s := by
  induction s generalizing front quoted depth with
  | nil => rfl
  | cons c s ih =>
    have hsize : size (front ++ [c]) = size front + c.utf8Size := by simp
    have hnext : (({} : Place).after (front ++ [c])).escaped = (c == '\\' && !(({} : Place).after front).escaped) := by
      rw [Place.after_append]
      rfl
    rw [splitLookingBack, splitFrom_cons, isEscaped_size]
    simp only [ih, hsize, hnext]
    cases (({} : Place).after front).escaped with
    | true => simp
    | false =>
      by_cases hb : c = '\\'
      · subst hb
        simp [Ne.symm hs]
      · have hbeq : (c == '\\') = false := by simpa using hb
        simp [hb, hbeq]

end LookingBack

/-- Splitting inverts joining. The parts of a text join to it, and each of them is one part. Pieces that are one part
each are the parts of what they join to if all but the last end in an even number of backslashes, and only then. A scan
that counts backslashes back from each place finds the same parts. -/
theorem splitting_inverts_joining (hsep : sep ∈ [';', ',', ':']) :
    (∀ s, splitLookingBack sep [] false 0 s = splitTopLevel sep s) ∧
      ∀ s parts, splitTopLevel sep s = .ok parts ↔
        parts ≠ [] ∧ join [sep] parts = s ∧ (∀ part ∈ parts, splitTopLevel sep part = .ok [part]) ∧
          ∀ part ∈ parts.dropLast, Even (endingBackslashes part) := by
  have hs : sep ∉ ['\\', '\'', '(', ')'] := by
    simp only [List.mem_cons, List.not_mem_nil, or_false] at hsep
    rcases hsep with rfl | rfl | rfl <;> decide
  refine ⟨splitLookingBack_eq (List.ne_of_not_mem_cons hs) [] false 0, fun s parts => ⟨fun h => ?_, ?_⟩⟩
  · exact ⟨ne_nil_of_splitFrom h, join_of_splitFrom hs h⟩
  · rintro ⟨hne, rfl, hones, heven⟩
    exact splitTopLevel_join_of_even hs hne hones heven

/-- Commas between quotes, between parentheses and behind a backslash separate nothing, and those behind an even number
of backslashes do. -/
theorem splitting_inverts_joining_tangled :
    let parts := ["text='a\\',(b'".toList, "max(1,2)\\,c".toList, "".toList, "d\\\\".toList, "e\\".toList]
    ',' ∈ [';', ',', ':'] ∧ splitTopLevel ',' (join [','] parts) = .ok parts := by
  intro parts
  have hsep : ',' ∈ [';', ',', ':'] := by decide
  have hones : ∀ part ∈ parts, splitTopLevel ',' part = .ok [part] := by decide +kernel
  have heven : ∀ part ∈ parts.dropLast, Even (endingBackslashes part) := by decide +kernel
  exact ⟨hsep, ((splitting_inverts_joining hsep).2 _ parts).2 ⟨by decide, rfl, hones, heven⟩⟩

end OpenCaptions.Filter
