import OpenCaptions.Filter.Split
import OpenCaptions.Filter.Escape
import OpenCaptions.Proofs.Text.Cutting

/-!
Texts that the splitter reads as one piece. Such a text starts and ends at the top level and holds no
separator there, whatever stands behind it, so splitting a join of such texts gives the texts back.
-/
namespace OpenCaptions.Filter

/-- What the splitter does with one character. -/
theorem splitFrom_cons (sep c : Char) (nesting : Nesting) (offset : Nat) (rest : List Char) :
    splitFrom sep nesting offset (c :: rest) =
      let onward (nesting : Nesting) :=
        (splitFrom sep nesting (offset + c.utf8Size) rest).map (extendFirst c)
      if nesting.escaped then onward { nesting with escaped := false }
      else if c = '\\' then onward { nesting with escaped := true }
      else if c = '\'' then onward { nesting with quoted := !nesting.quoted }
      else if nesting.quoted then onward nesting
      else if c = '(' then onward { nesting with depth := nesting.depth + 1 }
      else if c = ')' then
        if nesting.depth = 0 then .error (.unbalancedClose offset)
        else onward { nesting with depth := nesting.depth - 1 }
      else if c = sep ∧ nesting.depth = 0 then
        (splitFrom sep nesting (offset + c.utf8Size) rest).map ([] :: ·)
      else onward nesting := rfl

/-- Reading `w` takes the splitter from one nesting to another and finds no separator on the way. -/
def Passes (sep : Char) (a b : Nesting) (w : List Char) : Prop :=
  ∀ offset rest, splitFrom sep a offset (w ++ rest) =
    (splitFrom sep b (offset + Text.Utf8.size w) rest).map (w.foldr extendFirst ·)

/-- One piece for the splitter: the text begins and ends at the top level and is not split there. -/
abbrev Closed (sep : Char) (w : List Char) : Prop := Passes sep {} {} w

namespace Passes

variable {sep : Char} {a b c : Nesting} {u v w : List Char}

theorem nil : Passes sep a a [] := by
  intro offset rest
  simp only [List.nil_append, Text.Utf8.size_nil, Nat.add_zero, List.foldr_nil]
  cases splitFrom sep a offset rest <;> rfl

theorem append (hu : Passes sep a b u) (hv : Passes sep b c v) : Passes sep a c (u ++ v) := by
  intro offset rest
  rw [List.append_assoc, hu, hv, Text.Utf8.size_append, Nat.add_assoc]
  cases splitFrom sep c (offset + (Text.Utf8.size u + Text.Utf8.size v)) rest with
  | error e => rfl
  | ok parts => simp [Except.map]

theorem cons {x : Char} (hx : Passes sep a b [x]) (hw : Passes sep b c w) : Passes sep a c (x :: w) :=
  hx.append hw

theorem backslash {quoted : Bool} {depth : Nat} :
    Passes sep ⟨false, quoted, depth⟩ ⟨true, quoted, depth⟩ ['\\'] := by
  intro offset rest
  simp [splitFrom_cons]

theorem escapedChar {x : Char} {quoted : Bool} {depth : Nat} :
    Passes sep ⟨true, quoted, depth⟩ ⟨false, quoted, depth⟩ [x] := by
  intro offset rest
  simp [splitFrom_cons]

theorem quotedChar {x : Char} {depth : Nat} (hb : x ≠ '\\') (hq : x ≠ '\'') :
    Passes sep ⟨false, true, depth⟩ ⟨false, true, depth⟩ [x] := by
  intro offset rest
  simp [splitFrom_cons, hb, hq]

theorem openQuote {depth : Nat} : Passes sep ⟨false, false, depth⟩ ⟨false, true, depth⟩ ['\''] := by
  intro offset rest
  simp [splitFrom_cons]

theorem closeQuote {depth : Nat} : Passes sep ⟨false, true, depth⟩ ⟨false, false, depth⟩ ['\''] := by
  intro offset rest
  simp [splitFrom_cons]

theorem openParen {depth : Nat} :
    Passes sep ⟨false, false, depth⟩ ⟨false, false, depth + 1⟩ ['('] := by
  intro offset rest
  simp [splitFrom_cons]

theorem closeParen {depth : Nat} :
    Passes sep ⟨false, false, depth + 1⟩ ⟨false, false, depth⟩ [')'] := by
  intro offset rest
  simp [splitFrom_cons]

theorem plainChar {x : Char} {depth : Nat} (hx : x ∉ ['\\', '\'', '(', ')']) (hs : x ≠ sep) :
    Passes sep ⟨false, false, depth⟩ ⟨false, false, depth⟩ [x] := by
  intro offset rest
  simp only [List.mem_cons, List.not_mem_nil, or_false, not_or] at hx
  obtain ⟨hb, hq, ho, hc⟩ := hx
  simp [splitFrom_cons, hb, hq, ho, hc, hs]

theorem innerChar {x : Char} {depth : Nat} (hx : x ∉ ['\\', '\'', '(', ')']) :
    Passes sep ⟨false, false, depth + 1⟩ ⟨false, false, depth + 1⟩ [x] := by
  intro offset rest
  simp only [List.mem_cons, List.not_mem_nil, or_false, not_or] at hx
  obtain ⟨hb, hq, ho, hc⟩ := hx
  simp [splitFrom_cons, hb, hq, ho, hc]

theorem of_forall (h : ∀ x ∈ w, Passes sep a a [x]) : Passes sep a a w := by
  induction w with
  | nil => exact nil
  | cons x w ih =>
    rw [List.forall_mem_cons] at h
    exact cons h.1 (ih h.2)

theorem plain {depth : Nat} (h : ∀ x ∈ w, x ∉ ['\\', '\'', '(', ')', sep]) :
    Passes sep ⟨false, false, depth⟩ ⟨false, false, depth⟩ w := by
  refine of_forall fun x hx => ?_
  have hx := h x hx
  simp only [List.mem_cons, List.not_mem_nil, or_false, not_or] at hx
  obtain ⟨hb, hq, ho, hc, hs⟩ := hx
  exact plainChar (by simp [hb, hq, ho, hc]) hs

end Passes

theorem foldr_extendFirst (w : List Char) (part : List Char) (parts : List (List Char)) :
    w.foldr extendFirst (part :: parts) = (w ++ part) :: parts := by
  induction w with
  | nil => rfl
  | cons x w ih => rw [List.foldr_cons, ih]; rfl

/-- A text that ends at the top level without a separator there is its own only part, also if it ends in a backslash
that escapes. -/
theorem Passes.splitFrom_self {sep : Char} {escaped : Bool} {w : List Char} (h : Passes sep {} ⟨escaped, false, 0⟩ w)
    (offset : Nat) : splitFrom sep {} offset w = .ok [w] := by
  have hw := h offset []
  rw [List.append_nil] at hw
  rw [hw]
  simp [splitFrom, Except.map, foldr_extendFirst]

/-- Behind a piece and a separator the splitter starts anew. -/
theorem Closed.splitFrom_append {sep : Char} {w : List Char} (h : Closed sep w)
    (hs : sep ∉ ['\\', '\'', '(', ')']) (offset : Nat) (rest : List Char) :
    splitFrom sep {} offset (w ++ sep :: rest) =
      (splitFrom sep {} (offset + Text.Utf8.size w + sep.utf8Size) rest).map (w :: ·) := by
  simp only [List.mem_cons, List.not_mem_nil, or_false, not_or] at hs
  obtain ⟨hb, hq, ho, hc⟩ := hs
  rw [h]
  simp only [splitFrom_cons, Bool.false_eq_true, if_false, hb, hq, ho, hc, and_self, if_true]
  cases splitFrom sep {} (offset + Text.Utf8.size w + sep.utf8Size) rest with
  | error e => rfl
  | ok parts => simp [Except.map, foldr_extendFirst]

/-- Pieces with a separator behind each of them, and a text at the end that is its own only part. -/
theorem splitFrom_join {sep : Char} {pieces : List (List Char)} {last : List Char} {escaped : Bool}
    (hs : sep ∉ ['\\', '\'', '(', ')']) (h : ∀ w ∈ pieces, Closed sep w)
    (hlast : Passes sep {} ⟨escaped, false, 0⟩ last) (offset : Nat) :
    splitFrom sep {} offset (Text.join [sep] (pieces ++ [last])) = .ok (pieces ++ [last]) := by
  induction pieces generalizing offset with
  | nil => exact hlast.splitFrom_self offset
  | cons piece pieces ih =>
    rw [List.forall_mem_cons] at h
    rw [List.cons_append, Text.join_cons (by simp), List.append_assoc, List.singleton_append, h.1.splitFrom_append hs,
      ih h.2]
    rfl

/-- Splitting undoes joining. -/
theorem splitTopLevel_join {sep : Char} {parts : List (List Char)} (hs : sep ∉ ['\\', '\'', '(', ')'])
    (hne : parts ≠ []) (h : ∀ w ∈ parts, Closed sep w) : splitTopLevel sep (Text.join [sep] parts) = .ok parts := by
  obtain ⟨pieces, last, rfl⟩ := (List.eq_nil_or_concat' parts).resolve_left hne
  have hlast : Closed sep last := h last (by simp)
  exact splitFrom_join hs (fun w hw => h w (List.mem_append_left _ hw)) hlast 0

/-- A join at another separator is one piece again. -/
theorem Closed.join {sep other : Char} {parts : List (List Char)}
    (ho : other ∉ ['\\', '\'', '(', ')', sep]) (h : ∀ w ∈ parts, Closed sep w) :
    Closed sep (Text.join [other] parts) := by
  induction parts with
  | nil => exact .nil
  | cons part parts ih =>
    rw [List.forall_mem_cons] at h
    cases parts with
    | nil => exact h.1
    | cons next parts =>
      have hsep : Closed sep [other] := .plain (by simpa using ho)
      exact (h.1.append hsep).append (ih h.2)

/-- Whether each unescaped character is outside the class, and none is escaped at the end. -/
def guards (p : Char → Bool) (escaped : Bool) : List Char → Bool
  | [] => !escaped
  | c :: rest => (escaped || !p c) && guards p (c == '\\' && !escaped) rest

theorem guards_cons {p : Char → Bool} {escaped : Bool} {c : Char} {s : List Char} :
    guards p escaped (c :: s) = true ↔ (p c && !escaped) = false ∧ guards p (c == '\\' && !escaped) s = true := by
  rw [guards, Bool.and_eq_true]
  cases escaped <;> simp

/-- Text without unescaped quotes may stand between quotes. -/
def isSealed (s : List Char) : Bool := guards (· == '\'') false s

theorem guards_of_forall {p : Char → Bool} {s : List Char} (h : ∀ c ∈ s, p c = false ∧ c ≠ '\\') :
    guards p false s = true := by
  induction s with
  | nil => rfl
  | cons c s ih =>
    rw [List.forall_mem_cons] at h
    have hb : (c == '\\') = false := by simpa using h.1.2
    simp [guards, h.1.1, hb, ih h.2]

/-- The escapes of a text guard every special character but the backslash. -/
theorem guards_escape {p : Char → Bool} (hp : ∀ c, p c = true → isSpecial c = true ∧ c ≠ '\\')
    (s : List Char) : guards p false (Filter.escape s) = true := by
  have hb : p '\\' = false := by
    cases h : p '\\' with
    | false => rfl
    | true => exact absurd rfl (hp _ h).2
  induction s with
  | nil => rfl
  | cons c s ih =>
    unfold Filter.escape
    split
    · simp [guards, hb, ih]
    · rename_i hc
      have hpc : p c = false := by
        cases h : p c with
        | false => rfl
        | true => exact absurd (hp c h).1 hc
      have hbc : (c == '\\') = false := by
        rw [beq_eq_false_iff_ne]
        rintro rfl
        exact hc rfl
      simp [guards, hpc, hbc, ih]

theorem isSealed_escape (s : List Char) : isSealed (Filter.escape s) = true :=
  guards_escape (fun c hc => by simp_all [isSpecial]) s

theorem Passes.insideQuotes {sep c : Char} {escaped : Bool} {depth : Nat} (h : (c == '\'' && !escaped) = false) :
    Passes sep ⟨escaped, true, depth⟩ ⟨c == '\\' && !escaped, true, depth⟩ [c] := by
  intro offset rest
  cases escaped with
  | true => simp [splitFrom_cons]
  | false =>
    by_cases hb : c = '\\'
    · simp [splitFrom_cons, hb]
    · have hb' : (c == '\\') = false := by simpa using hb
      have hq : c ≠ '\'' := by simpa using h
      simp [splitFrom_cons, hb, hb', hq]

theorem Passes.of_isSealed {sep : Char} {depth : Nat} {s : List Char} {escaped : Bool}
    (h : guards (· == '\'') escaped s = true) :
    Passes sep ⟨escaped, true, depth⟩ ⟨false, true, depth⟩ s := by
  induction s generalizing escaped with
  | nil =>
    have he : escaped = false := by simpa [guards] using h
    exact he ▸ .nil
  | cons c s ih =>
    obtain ⟨hc, hs⟩ := guards_cons.1 h
    exact (Passes.insideQuotes hc).cons (ih hs)

/-- Sealed text between quotes is one piece for every separator. -/
theorem Closed.quoted {sep : Char} {s : List Char} (h : isSealed s = true) :
    Closed sep ('\'' :: s ++ ['\'']) :=
  (Passes.openQuote.cons (.of_isSealed h)).append .closeQuote

end OpenCaptions.Filter
