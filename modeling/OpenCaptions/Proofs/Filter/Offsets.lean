import OpenCaptions.Proofs.Filter.Assembled
import OpenCaptions.Proofs.Filter.Repairing
import OpenCaptions.Proofs.Text.Offsets

/-!
Repairs made by offsets. Keys, values and the label are found as positions in the text, and an edit between two
positions is made only if they come in order and stand between characters. These repairs are the repairs of pieces for
every text, so as long as sanitizing gives a text no edit on the way was out of range.
-/
namespace OpenCaptions.Filter

open Text Text.Utf8

/-- The offset between two others where an unescaped mark begins, for text from `offset` on. -/
def offsetOf? (marks : List Char → Bool) (start limit offset : Nat) (escaped : Bool) : List Char → Option Nat
  | [] => none
  | c :: rest =>
    if start ≤ offset ∧ offset < limit ∧ marks (c :: rest) = true ∧ escaped = false then some offset
    else offsetOf? marks start limit (offset + c.utf8Size) (c == '\\' && !escaped) rest

namespace ByOffset

def startsWith (p : Char → Bool) (s : List Char) : Bool := s.head?.any p

def startsNext : List Char → Bool
  | ':' :: rest => startsOption rest
  | _ => false

def keyStart? (key s : List Char) : Option Nat := (findOption? key false false false s).map fun found => size found.1

def bodyEnd (s : List Char) : Nat := size (splitLabel s).1

def isQuoteAt (n : Nat) (s : List Char) : Bool := (cutAt? n s).any fun cut => startsQuoted cut.2

def nextQuote? (start : Nat) (s : List Char) : Option Nat :=
  offsetOf? (startsWith (· == '\'')) start (size s) 0 false s

def bareEnd (start : Nat) (s : List Char) : Nat :=
  (offsetOf? (startsWith fun c => c == ':' || c == ',') start (bodyEnd s) 0 false s).getD (bodyEnd s)

def nextOption (start : Nat) (s : List Char) : Nat :=
  (offsetOf? startsNext start (max (bodyEnd s) start) 0 false s).getD (max (bodyEnd s) start)

/-- The closing quote of a value, if it comes before the next option. -/
def closing? (inside : Nat) (s : List Char) : Option Nat :=
  (nextQuote? inside s).filter (· < nextOption inside s)

def valueEnd (start : Nat) (s : List Char) : Nat :=
  if isQuoteAt start s then
    match closing? (start + 1) s with
    | some quote => quote + 1
    | none => nextOption (start + 1) s
  else bareEnd start s

def replaceFontFile (s : List Char) : Option (Option (List Char)) :=
  match keyStart? fontFileKey s with
  | none => some none
  | some start =>
    (replaceRange? start (valueEnd (start + size fontFileKey + 1) s) standardFont s).map some

def closeValue (key s : List Char) : Option (Option (List Char)) :=
  match keyStart? key s with
  | none => some none
  | some start =>
    let inside := start + size key + 2
    if isQuoteAt (start + size key + 1) s then
      match closing? inside s with
      | some _ => some none
      | none => (replaceRange? (nextOption inside s) (nextOption inside s) ['\''] s).map some
    else some none

def closeQuote (s : List Char) : Option (Option (List Char)) :=
  if endsQuoted false false s then
    match closeValue textKey s with
    | some none => closeValue fontKey s
    | result => result
  else some none

/-- Where the value of the first option with a key starts, if it has no quotes. -/
def bareStart? (key s : List Char) : Option Nat :=
  ((keyStart? key s).map (· + size key + 1)).filter fun start => !isQuoteAt start s

def quoteAt (start : Nat) (s : List Char) : Option (List Char) :=
  (slice? start (bareEnd start s) s).bind fun value =>
    replaceRange? start (bareEnd start s) ('\'' :: escapeQuotes false value ++ ['\'']) s

def quoteBare (s : List Char) : Option (Option (List Char)) :=
  match ((bareStart? textKey s).or (bareStart? fontKey s)).map (quoteAt · s) with
  | none => some none
  | some quoted => quoted.map some

def sanitize? (segment : List Char) : Option (List Char) := do
  let s ← repeatRepair replaceFontFile mostRepairs segment
  let s ← repeatRepair closeQuote mostRepairs s
  repeatRepair quoteBare mostRepairs s

end ByOffset

variable {marks : List Char → Bool} {p : Char → Bool} {start limit offset : Nat} {escaped : Bool}
  {key s w front value inside rest label : List Char}

def endsEscaped (escaped : Bool) (s : List Char) : Bool := s.foldl (fun escaped c => c == '\\' && !escaped) escaped

theorem endsEscaped_concat {c : Char} (hc : c ≠ '\\') (escaped : Bool) (s : List Char) :
    endsEscaped escaped (s ++ [c]) = false := by
  simp [endsEscaped, List.foldl_append, hc]

theorem offsetOf?_of_le (h : limit ≤ start ∨ limit ≤ offset) : offsetOf? marks start limit offset escaped s = none := by
  induction s generalizing offset escaped with
  | nil => rfl
  | cons c s ih =>
    rw [offsetOf?, if_neg (by omega)]
    exact ih (by omega)

theorem offsetOf?_append (h : offset + size front ≤ start) :
    offsetOf? marks start limit offset escaped (front ++ rest) =
      offsetOf? marks start limit (offset + size front) (endsEscaped escaped front) rest := by
  induction front generalizing offset escaped with
  | nil => rfl
  | cons c front ih =>
    have hc := c.utf8Size_pos
    rw [size_cons] at h ⊢
    rw [List.cons_append, offsetOf?, if_neg (by omega), ih (by omega), Nat.add_assoc]
    rfl

/-- A mark of one character is found where the text is split at it. -/
theorem offsetOf?_startsWith (h : start ≤ offset) (rest : List Char) :
    offsetOf? (ByOffset.startsWith p) start (offset + size w) offset escaped (w ++ rest) =
      (splitUnescaped? p escaped w).map fun parts => offset + size parts.1 := by
  induction w generalizing offset escaped with
  | nil => exact offsetOf?_of_le (.inr le_rfl)
  | cons c w ih =>
    have hc := c.utf8Size_pos
    have hsize : offset + size (c :: w) = offset + c.utf8Size + size w := by rw [size_cons, Nat.add_assoc]
    rw [List.cons_append, offsetOf?, splitUnescaped?, hsize]
    have hmarks : ByOffset.startsWith p (c :: (w ++ rest)) = p c := by simp [ByOffset.startsWith]
    rw [hmarks]
    by_cases hfound : p c = true ∧ escaped = false
    · rw [if_pos ⟨h, by omega, hfound⟩]
      simp [hfound.1, hfound.2]
    · rw [if_neg fun hcond => hfound hcond.2.2, ih (by omega)]
      have hno : ¬ (p c && !escaped) = true := by simpa using hfound
      rw [if_neg hno, Option.map_map]
      refine congrArg (fun f => Option.map f _) (funext fun parts => ?_)
      simp [Nat.add_assoc]

private theorem startsOption_append_label (hl : IsLabel label) (s : List Char) :
    startsOption (s ++ label) = startsOption s := by
  rcases hl with rfl | ⟨name, rfl, -, -⟩
  · rw [List.append_nil]
  · exact startsOption_append_cons (by decide) (by decide) s _

/-- The next option is found where the text is split in front of it; without one the range ends there. -/
theorem offsetOf?_startsNext (h : start ≤ offset) (hl : IsLabel label) :
    (offsetOf? ByOffset.startsNext start (offset + size w) offset escaped (w ++ label)).getD (offset + size w) =
      offset + size (splitAtOption escaped w).1 := by
  induction w generalizing offset escaped with
  | nil =>
    have hnone : offsetOf? ByOffset.startsNext start (offset + size []) offset escaped ([] ++ label) = none :=
      offsetOf?_of_le (.inr le_rfl)
    rw [hnone]
    rfl
  | cons c w ih =>
    have hc := c.utf8Size_pos
    have hsize : offset + size (c :: w) = offset + c.utf8Size + size w := by rw [size_cons, Nat.add_assoc]
    have hmarks : ByOffset.startsNext (c :: (w ++ label)) = (c == ':' && startsOption w) := by
      rw [← startsOption_append_label hl w]
      by_cases hcolon : c = ':'
      · simp [hcolon, ByOffset.startsNext]
      · simp [hcolon, ByOffset.startsNext]
    rw [List.cons_append, offsetOf?, splitAtOption, hsize, hmarks]
    by_cases hfound : (c == ':' && startsOption w) = true ∧ escaped = false
    · rw [if_pos ⟨h, by omega, hfound⟩]
      have hyes : (c == ':' && !escaped && startsOption w) = true := by
        rw [Bool.and_right_comm, hfound.1, hfound.2]
        rfl
      rw [if_pos hyes]
      simp
    · have hno : ¬ (c == ':' && !escaped && startsOption w) = true := by
        rw [Bool.and_right_comm, Bool.and_eq_true, Bool.not_eq_true']
        exact hfound
      rw [if_neg fun hcond => hfound hcond.2.2, if_neg hno, ih (by omega)]
      simp [Nat.add_assoc]

/-- What is found in front of a place is found in the range that ends there. -/
theorem filter_offsetOf? {stop : Nat} (h : stop ≤ limit) :
    (offsetOf? marks start limit offset escaped s).filter (· < stop) = offsetOf? marks start stop offset escaped s := by
  induction s generalizing offset escaped with
  | nil => rfl
  | cons c s ih =>
    rw [offsetOf?, offsetOf?]
    by_cases hstop : start ≤ offset ∧ offset < stop ∧ marks (c :: s) = true ∧ escaped = false
    · have hlimit : start ≤ offset ∧ offset < limit ∧ marks (c :: s) = true ∧ escaped = false :=
        ⟨hstop.1, by omega, hstop.2.2⟩
      rw [if_pos hlimit, if_pos hstop]
      simp [hstop.2.1]
    · rw [if_neg hstop]
      by_cases hlimit : start ≤ offset ∧ offset < limit ∧ marks (c :: s) = true ∧ escaped = false
      · have hbehind : stop ≤ offset := by
          by_contra hin
          exact hstop ⟨hlimit.1, by omega, hlimit.2.2⟩
        rw [if_pos hlimit, offsetOf?_of_le (.inr (by omega))]
        simp [hbehind]
      · rw [if_neg hlimit, ih]

theorem exists_of_splitUnescaped? {d : Char} {before after : List Char}
    (h : splitUnescaped? (· == d) escaped s = some (before, after)) : ∃ rest, after = d :: rest := by
  induction s generalizing escaped before with
  | nil => cases h
  | cons c s ih =>
    rw [splitUnescaped?] at h
    split at h
    · rename_i hc
      cases h
      obtain rfl : c = d := by simpa using (Bool.and_eq_true_iff.1 hc).1
      exact ⟨s, rfl⟩
    · obtain ⟨parts, hsplit, heq⟩ := Option.map_eq_some_iff.1 h
      cases heq
      exact ih hsplit

/-- A value at a known place: the text in front of it ends in a mark, and the label is behind it. -/
structure Holds (s front value : List Char) : Prop where
  eq : s = front ++ (value ++ (splitLabel s).2)
  plain : endsEscaped false front = false

namespace Holds

theorem bodyEnd_eq (h : Holds s front value) : ByOffset.bodyEnd s = size front + size value := by
  have hsplit := (splitLabel_spec s).1
  have heq := h.eq
  rw [← List.append_assoc] at heq
  rw [ByOffset.bodyEnd, ← size_append]
  exact congrArg size (List.append_cancel_right (hsplit.trans heq))

theorem isQuoteAt_eq (h : Holds s front value) : ByOffset.isQuoteAt (size front) s = startsQuoted value := by
  have heq := h.eq
  generalize hlabel : (splitLabel s).2 = label at heq
  have hl : IsLabel label := hlabel ▸ (splitLabel_spec s).2
  rw [heq, ByOffset.isQuoteAt, cutAt?_size, Option.any_some, startsQuoted_append hl.startsQuoted]

theorem bareEnd_eq (h : Holds s front value) :
    ByOffset.bareEnd (size front) s = size front + size (splitBare value).1 := by
  have heq := h.eq
  have hend := h.bodyEnd_eq
  generalize (splitLabel s).2 = label at heq
  rw [ByOffset.bareEnd, hend, heq, offsetOf?_append (by omega), Nat.zero_add, h.plain, offsetOf?_startsWith le_rfl, splitBare]
  cases splitUnescaped? (fun c => c == ':' || c == ',') false value <;> rfl

theorem behind_quote (h : Holds s front ('\'' :: inside)) : Holds s (front ++ ['\'']) inside where
  eq := by simpa using h.eq
  plain := endsEscaped_concat (by decide) false front

theorem nextOption_eq (h : Holds s front value) :
    ByOffset.nextOption (size front) s = size front + size (splitAtOption false value).1 := by
  have heq := h.eq
  have hend : max (ByOffset.bodyEnd s) (size front) = size front + size value := by
    rw [h.bodyEnd_eq]
    omega
  generalize hlabel : (splitLabel s).2 = label at heq
  have hl : IsLabel label := hlabel ▸ (splitLabel_spec s).2
  rw [ByOffset.nextOption, hend, heq, offsetOf?_append (by omega), Nat.zero_add, h.plain]
  exact offsetOf?_startsNext le_rfl hl

theorem closing?_eq (h : Holds s front value) :
    ByOffset.closing? (size front) s =
      (splitUnescaped? (· == '\'') false (splitAtOption false value).1).map fun parts => size front + size parts.1 := by
  have heq := h.eq
  have hvalue := splitAtOption_append false value
  have hnext := h.nextOption_eq
  generalize (splitLabel s).2 = label at heq
  generalize splitAtOption false value = parts at hvalue hnext ⊢
  obtain ⟨first, more⟩ := parts
  have hstop : ByOffset.nextOption (size front) s ≤ size s := by
    rw [hnext, heq, ← hvalue]
    simp only [size_append]
    omega
  rw [ByOffset.closing?, ByOffset.nextQuote?, filter_offsetOf? hstop, hnext, heq, ← hvalue,
    offsetOf?_append (by omega), Nat.zero_add, h.plain, List.append_assoc]
  exact offsetOf?_startsWith le_rfl (more ++ label)

theorem valueEnd_eq (h : Holds s front value) :
    ∃ old, old ++ behindValue value = value ∧ ByOffset.valueEnd (size front) s = size (front ++ old) := by
  rw [ByOffset.valueEnd, h.isQuoteAt_eq]
  by_cases hq : startsQuoted value = true
  · obtain ⟨inside, rfl⟩ : ∃ inside, value = '\'' :: inside := by
      rw [startsQuoted, beq_iff_eq] at hq
      obtain ⟨inside, hinside⟩ := List.head?_eq_some_iff.1 hq
      exact ⟨inside, hinside⟩
    have hsize : size front + 1 = size (front ++ ['\'']) := by
      rw [size_append]
      rfl
    rw [if_pos hq, hsize, h.behind_quote.closing?_eq, h.behind_quote.nextOption_eq, behindValue]
    have hinside := splitAtOption_append false inside
    generalize splitAtOption false inside = parts at hinside
    obtain ⟨first, more⟩ := parts
    dsimp only at hinside ⊢
    cases hsplit : splitUnescaped? (· == '\'') false first with
    | some cut =>
      obtain ⟨before, after⟩ := cut
      have happend := append_of_splitUnescaped? hsplit
      obtain ⟨after, rfl⟩ := exists_of_splitUnescaped? hsplit
      refine ⟨'\'' :: before ++ ['\''], by simp [← hinside, ← happend], ?_⟩
      have hquote : ('\'' : Char).utf8Size = 1 := rfl
      simp only [Option.map_some, size_append, size_cons, size_nil, hquote]
      omega
    | none =>
      refine ⟨'\'' :: first, by simp [hinside], ?_⟩
      simp [size_append, Nat.add_assoc]
  · rw [if_neg hq, h.bareEnd_eq]
    have hbehind : behindValue value = (splitBare value).2 := by
      unfold behindValue
      split
      · exact absurd rfl hq
      · rfl
    exact ⟨(splitBare value).1, by rw [hbehind, splitBare_append], by rw [size_append]⟩

/-- A quote can be put in where the next option begins. -/
theorem replaceRange?_nextOption (h : Holds s front value) :
    replaceRange? (ByOffset.nextOption (size front) s) (ByOffset.nextOption (size front) s) ['\''] s =
      some (front ++ ((splitAtOption false value).1 ++ '\'' :: ((splitAtOption false value).2 ++ (splitLabel s).2))) := by
  have heq := h.eq
  have hvalue := splitAtOption_append false value
  rw [h.nextOption_eq, ← size_append, replaceRange?_eq_some_iff]
  refine ⟨front ++ (splitAtOption false value).1, [], (splitAtOption false value).2 ++ (splitLabel s).2, ?_, rfl, ?_, ?_⟩
  · rw [List.nil_append, List.append_assoc, ← List.append_assoc _ _ (splitLabel s).2, hvalue]
    exact heq
  · rw [List.append_nil]
  · simp

end Holds

namespace ByOffset

theorem size_key (before key : List Char) : size (before ++ (key ++ ['='])) = size before + size key + 1 := by
  rw [size_append, size_append, Nat.add_assoc]
  rfl

theorem keyStart?_of_none (h : find? key s = some none) : keyStart? key s = none := by
  have hsearch : findOption? key false false false s = findFrom? key {} s := rfl
  rw [keyStart?, hsearch, find?_eq_some_none_iff.1 h]
  rfl

theorem holds_of_find? {found : Found} (hk : key ∈ repairedKeys) (h : find? key s = some (some found)) :
    keyStart? key s = some (size found.before) ∧ Holds s (found.before ++ (key ++ ['='])) found.value := by
  obtain ⟨before, value, label⟩ := found
  obtain ⟨hlabel, hfound⟩ := (find?_eq_some_some_iff hk).1 h
  have hsearch : findOption? key false false false s = findFrom? key {} s := rfl
  have hs := ((findFrom?_eq_some_iff hk).1 hfound).1
  refine ⟨?_, ?_, ?_⟩
  · rw [keyStart?, hsearch, hfound]
    rfl
  · rw [← hlabel]
    simpa using hs
  · rw [← List.append_assoc]
    exact endsEscaped_concat (by decide) false _

private theorem bodyEnd_lt_of_bracket {before more : List Char} (hk : key ∈ repairedKeys)
    (h : (splitLabel s).1 ++ '[' :: more = before ++ (key ++ ['='])) : bodyEnd s < size before := by
  have hbracket : '[' ∉ key ++ ['='] := by
    have hkey : '[' ∉ key := not_mem_key hk (by decide)
    simp [hkey]
  rcases List.append_eq_append_iff.1 h with ⟨between, hbefore, hbetween⟩ | ⟨between, -, hbetween⟩
  · cases between with
    | nil =>
      rw [List.nil_append] at hbetween
      exact absurd (hbetween ▸ List.mem_cons_self) hbracket
    | cons c between =>
      have hpos := size_pos (List.cons_ne_nil c between)
      rw [hbefore, size_append, bodyEnd]
      omega
  · exact absurd (hbetween ▸ List.mem_append_right between List.mem_cons_self) hbracket

/-- An option inside the label begins behind the place where the label does, and no quote opens its value. -/
theorem exists_of_find?_eq_none (hk : key ∈ repairedKeys) (h : find? key s = none) :
    ∃ start, keyStart? key s = some start ∧ bodyEnd s < start ∧ isQuoteAt (start + size key + 1) s = false := by
  obtain ⟨before, name, behind, hfound, -, hfront, hquote⟩ := inside_label_of_find? hk h
  have hsearch : findOption? key false false false s = findFrom? key {} s := rfl
  have hs : s = (before ++ (key ++ ['='])) ++ behind := by simpa using ((findFrom?_eq_some_iff hk).1 hfound).1
  refine ⟨size before, by rw [keyStart?, hsearch, hfound]; rfl, bodyEnd_lt_of_bracket hk hfront.symm, ?_⟩
  rw [isQuoteAt, ← size_key, hs, cutAt?_size, Option.any_some, hquote]

theorem replaceFontFile_eq (s : List Char) : replaceFontFile s = Filter.replaceFontFile s := by
  have hk : fontFileKey ∈ repairedKeys := by decide
  rw [replaceFontFile, Filter.replaceFontFile]
  cases hfind : find? fontFileKey s with
  | none =>
    obtain ⟨start, hstart, hend, hquote⟩ := exists_of_find?_eq_none hk hfind
    have hbare : bareEnd (start + size fontFileKey + 1) s = bodyEnd s := by
      rw [bareEnd, offsetOf?_of_le (.inl (by omega))]
      rfl
    simp only [hstart, valueEnd, hquote, Bool.false_eq_true, if_false, hbare, replaceRange?_of_lt hend]
    rfl
  | some found =>
    cases found with
    | none =>
      rw [keyStart?_of_none hfind]
      rfl
    | some found =>
      obtain ⟨before, value, label⟩ := found
      obtain ⟨hstart, hholds⟩ := holds_of_find? hk hfind
      obtain ⟨hs, hlabel⟩ := eq_of_find? hk hfind
      obtain ⟨old, hold, hstop⟩ := hholds.valueEnd_eq
      rw [size_key] at hstop
      have hreplace : replaceRange? (size before) (valueEnd (size before + size fontFileKey + 1) s) standardFont s =
          some (before ++ (standardFont ++ (behindValue value ++ label))) := by
        rw [replaceRange?_eq_some_iff]
        refine ⟨before, fontFileKey ++ '=' :: old, behindValue value ++ label, ?_, rfl, ?_, rfl⟩
        · rw [hs]
          dsimp only at hold ⊢
          generalize behindValue value = rest at hold
          subst hold
          simp
        · rw [hstop]
          simp
      simp only [hstart, hreplace]
      simp

private theorem closeValue_of_quoted {before label : List Char} (hk : key ∈ repairedKeys)
    (hfind : find? key s = some (some ⟨before, '\'' :: inside, label⟩)) :
    closeValue key s = some (closeValue? key s) := by
  obtain ⟨hstart, hholds⟩ := holds_of_find? hk hfind
  have hlabel := (eq_of_find? hk hfind).2
  have hquote := hholds.isQuoteAt_eq
  rw [size_key] at hquote
  have hinside := hholds.behind_quote
  have hsize : size before + size key + 2 = size ((before ++ (key ++ ['='])) ++ ['\'']) := by
    rw [size_append _ ['\''], size_key]
    rfl
  have hstarts : startsQuoted ('\'' :: inside) = true := rfl
  have hinsert := hinside.replaceRange?_nextOption
  rw [hinside.nextOption_eq, ← hlabel] at hinsert
  rw [closeValue, closeValue?, hfind]
  simp only [hstart, hquote, hstarts, if_true, hsize, hinside.closing?_eq, hinside.nextOption_eq, hinsert]
  cases splitUnescaped? (· == '\'') false (splitAtOption false inside).1 with
  | some cut => rfl
  | none => simp

private theorem closeValue_of_bare {found : Found} (hk : key ∈ repairedKeys) (hfind : find? key s = some (some found))
    (hbare : startsQuoted found.value = false) : closeValue key s = some (closeValue? key s) := by
  obtain ⟨hstart, hholds⟩ := holds_of_find? hk hfind
  have hquote := hholds.isQuoteAt_eq
  rw [size_key, hbare] at hquote
  rw [closeValue, closeValue?, hfind]
  simp only [hstart, hquote, Bool.false_eq_true, if_false]
  split
  · rename_i heq
    cases heq
    cases hbare
  · rfl

theorem closeValue_eq (hk : key ∈ repairedKeys) (s : List Char) : closeValue key s = some (closeValue? key s) := by
  cases hfind : find? key s with
  | none =>
    obtain ⟨start, hstart, -, hquote⟩ := exists_of_find?_eq_none hk hfind
    simp only [closeValue, closeValue?, hfind, hstart, hquote, Bool.false_eq_true, if_false]
  | some found =>
    cases found with
    | none => simp only [closeValue, closeValue?, hfind, keyStart?_of_none hfind]
    | some found =>
      cases hstarts : startsQuoted found.value with
      | false => exact closeValue_of_bare hk hfind hstarts
      | true =>
        obtain ⟨before, value, label⟩ := found
        obtain ⟨inside, rfl⟩ := List.head?_eq_some_iff.1 (beq_iff_eq.1 hstarts)
        exact closeValue_of_quoted hk hfind

theorem quoteAt_eq (hk : key ∈ repairedKeys) {found : Found} (h : find? key s = some (some found)) :
    quoteAt (size found.before + size key + 1) s = some (quoteValue key found) := by
  obtain ⟨hs, hlabel⟩ := eq_of_find? hk h
  have hbare := (holds_of_find? hk h).2.bareEnd_eq
  obtain ⟨before, value, label⟩ := found
  have hvalue := splitBare_append value
  have hwhole : s = (before ++ (key ++ ['='])) ++ ((splitBare value).1 ++ ((splitBare value).2 ++ label)) := by
    rw [← List.append_assoc (splitBare value).1, hvalue, hs]
    simp
  rw [← size_append] at hbare
  rw [quoteAt, ← size_key, hbare]
  have hslice := slice?_size (before ++ (key ++ ['='])) (splitBare value).1 ((splitBare value).2 ++ label)
  rw [← hwhole] at hslice
  rw [hslice, Option.bind_some, replaceRange?_eq_some_iff]
  exact ⟨_, _, _, hwhole, rfl, rfl, by simp [quoteValue]⟩

/-- The value of a key that gets quotes is at the offset that is found for it. -/
theorem map_bareStart? (hk : key ∈ repairedKeys) (s : List Char) :
    (bareStart? key s).map (quoteAt · s) =
      match findBare? key s with
      | none => some none
      | some found => found.map fun found => some (quoteValue key found) := by
  rw [bareStart?, findBare?]
  cases hfind : find? key s with
  | none =>
    obtain ⟨start, hstart, hend, hquote⟩ := exists_of_find?_eq_none hk hfind
    have hbare : bareEnd (start + size key + 1) s = bodyEnd s := by
      rw [bareEnd, offsetOf?_of_le (.inl (by omega))]
      rfl
    have hslice : slice? (start + size key + 1) (bodyEnd s) s = none := slice?_of_lt (by omega) s
    simp [hstart, hquote, quoteAt, hbare, hslice]
  | some found =>
    cases found with
    | none =>
      rw [keyStart?_of_none hfind]
      rfl
    | some found =>
      obtain ⟨hstart, hholds⟩ := holds_of_find? hk hfind
      have hquote := hholds.isQuoteAt_eq
      rw [size_key] at hquote
      by_cases hstarts : found.value.head? = some '\''
      · simp [hstart, hquote, startsQuoted, hstarts]
      · simp [hstart, hquote, startsQuoted, hstarts, quoteAt_eq hk hfind]

theorem quoteBare_eq (s : List Char) : quoteBare s = Filter.quoteBare s := by
  rw [quoteBare, Option.map_or, map_bareStart? (by decide), map_bareStart? (by decide), Filter.quoteBare]
  cases findBare? textKey s with
  | none => rfl
  | some text =>
    cases text with
    | some found => rfl
    | none =>
      cases findBare? fontKey s with
      | none => rfl
      | some font => cases font <;> rfl

theorem closeQuote_eq (s : List Char) : closeQuote s = Filter.closeQuote s := by
  rw [closeQuote, Filter.closeQuote, closeValue_eq (by decide), closeValue_eq (by decide)]
  cases closeValue? textKey s <;> rfl

/-- Sanitizing by offsets is sanitizing by pieces, and gives no text where that gives none. -/
theorem sanitize?_eq (s : List Char) : sanitize? s = Filter.sanitize? s := by
  rw [sanitize?, Filter.sanitize?, funext replaceFontFile_eq, funext closeQuote_eq, funext quoteBare_eq]

end ByOffset

/-- No option stands in the label: what is between the last bracket and a closing one at the end holds no `=`. -/
def EndsPlainly (s : List Char) : Prop :=
  ∀ front name, s = front ++ '[' :: (name ++ [']']) → '[' ∉ name → '=' ∉ name

theorem EndsPlainly.plain_label (h : EndsPlainly s) : '=' ∉ (splitLabel s).2 := by
  obtain ⟨hsplit, hl⟩ := splitLabel_spec s
  rcases hl with hnil | ⟨name, hname, hopen, -⟩
  · rw [hnil]
    exact List.not_mem_nil
  · rw [hname] at hsplit ⊢
    have hplain := h (splitLabel s).1 name (by simpa using hsplit.symm) hopen
    simpa using hplain

theorem endsPlainly_of_getLast?_ne (h : s.getLast? ≠ some ']') : EndsPlainly s := by
  rintro front name rfl -
  rw [← List.cons_append, ← List.append_assoc, List.getLast?_concat] at h
  exact absurd rfl h

/-- A label without `=` behind any text ends it plainly. -/
theorem endsPlainly_append_label (before : List Char) {name : List Char} (h : '=' ∉ name) :
    EndsPlainly (before ++ '[' :: (name ++ [']'])) := by
  intro front last heq hopen
  rw [← List.cons_append, ← List.cons_append, ← List.append_assoc, ← List.append_assoc] at heq
  -- the last bracket is the one in front of the label or one inside it
  have hsuffix : last <:+ name := by
    rcases List.append_eq_append_iff.1 (List.append_cancel_right heq) with ⟨cs, -, hcs⟩ | ⟨cs, -, hcs⟩
    · cases cs with
      | nil =>
        cases hcs
        exact List.suffix_rfl
      | cons c cs =>
        rw [List.cons_append, List.cons.injEq] at hcs
        exact ⟨cs ++ ['['], by simp [hcs.2]⟩
    · cases cs with
      | nil =>
        cases hcs
        exact List.suffix_rfl
      | cons c cs =>
        rw [List.cons_append, List.cons.injEq] at hcs
        exact absurd (by simp [hcs.2]) hopen
  exact fun hm => h (hsuffix.mem hm)

end OpenCaptions.Filter

namespace OpenCaptions.GraphRequest

open OpenCaptions.Filter

variable {request : GraphRequest} {isFile : String → Bool} {source : Option (Nat × Nat)} {built : AssembledGraph}

private theorem getLast?_of_mem_nodes (h : request.assemble isFile source = .ok built) :
    ∀ node ∈ built.graph.nodes, node.body.toList.getLast? ≠ some ']' := by
  intro node hm
  obtain ⟨ops, hops, hbody⟩ := exists_filters_of_mem_nodes h node hm
  rw [hbody]
  exact Operation.getLast?_joined fun op hop => ((isQuoted_of_mem_filters ops hops).2 op hop).tame

end OpenCaptions.GraphRequest

namespace OpenCaptions.Filter

open Text

private theorem endsPlainly_labelledText (input body : String) {output : String} (h : '=' ∉ output.toList) :
    EndsPlainly (labelledText input body output).toList := by
  have htext : (labelledText input body output).toList =
      '[' :: (input.toList ++ ']' :: body.toList) ++ '[' :: (output.toList ++ [']']) := by
    simp [labelledText]
  rw [htext]
  exact endsPlainly_append_label _ h

/-- Text that ends plainly is repaired by offsets without one that is out of range, out of order or inside a
character, in any of the repairs: such an edit would give no text. The bodies of an assembled graph end plainly, alone
and between labels without `=`. And what looks for offsets can cut the text on both sides of each mark it finds. -/
theorem repairing_stays_in_range :
    (∀ s, EndsPlainly s → ∃ r, ByOffset.sanitize? s = some r ∧ Filter.sanitize? s = some r) ∧
    (∀ (request : GraphRequest) (isFile : String → Bool) (source : Option (Nat × Nat)) (built : AssembledGraph),
      request.assemble isFile source = .ok built → ∀ node ∈ built.graph.nodes,
        EndsPlainly node.body.toList ∧ ∀ input output : String, '=' ∉ output.toList →
          EndsPlainly (labelledText input node.body output).toList) ∧
    ∀ (s : List Char) (n : Nat) (mark : UInt8), (bytes s)[n]? = some mark → mark.toNat < 128 →
      ∃ front c back, s = front ++ c :: back ∧ cutAt? n s = some (front, c :: back) ∧
        cutAt? (n + 1) s = some (front ++ [c], back) := by
  refine ⟨?_, ?_, fun s n mark => cutAt?_of_getElem?_bytes⟩
  · intro s h
    obtain ⟨r, hr, -⟩ := exists_sanitize?_of_label h.plain_label
    exact ⟨r, (ByOffset.sanitize?_eq s).trans hr, hr⟩
  · intro request isFile source built h node hm
    exact ⟨endsPlainly_of_getLast?_ne (GraphRequest.getLast?_of_mem_nodes h node hm),
      fun input output => endsPlainly_labelledText input node.body⟩

theorem repairing_stays_in_range_stray :
    EndsPlainly "[0:v]drawtext=text=é':fontfile='ü[v0]".toList ∧
      ∃ r, ByOffset.sanitize? "[0:v]drawtext=text=é':fontfile='ü[v0]".toList = some r :=
  have h : EndsPlainly "[0:v]drawtext=text=é':fontfile='ü[v0]".toList :=
    endsPlainly_append_label "[0:v]drawtext=text=é':fontfile='ü".toList (by decide : '=' ∉ "v0".toList)
  ⟨h, (repairing_stays_in_range.1 _ h).imp fun _ hr => hr.1⟩

/-- An option inside the label has its value behind the place where the label begins. -/
example : ByOffset.sanitize? "null[:text=a]".toList = none := by decide +kernel

end OpenCaptions.Filter
