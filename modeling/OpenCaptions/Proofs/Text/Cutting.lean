import Mathlib
import OpenCaptions.Text.Split
import OpenCaptions.Text.Utf8

/-!
Laws of cutting and joining text: a cut gives back what stood around the separator, and a join is never
shorter than its parts.
-/
namespace OpenCaptions.Text

/-- A run of a class that cannot go on is what is taken and what is dropped. -/
theorem takeWhile_of_head? {p : Char → Bool} {run rest : List Char} (hrun : ∀ c ∈ run, p c = true)
    (hmax : ∀ c ∈ rest.head?, p c = false) :
    (run ++ rest).takeWhile p = run ∧ (run ++ rest).dropWhile p = rest := by
  rw [List.takeWhile_append_of_pos hrun, List.dropWhile_append_of_pos hrun]
  cases rest with
  | nil => simp
  | cons c rest => simp [hmax c rfl]

theorem splitOnce?_append {sep : Char} {before : List Char} (h : sep ∉ before) (after : List Char) :
    splitOnce? sep (before ++ sep :: after) = some (before, after) := by
  induction before with
  | nil => simp [splitOnce?]
  | cons c before ih =>
    rw [List.mem_cons, not_or] at h
    have hc : c ≠ sep := Ne.symm h.1
    simp [splitOnce?, hc, ih h.2]

theorem splitOnce?_eq_none {sep : Char} {s : List Char} (h : sep ∉ s) : splitOnce? sep s = none := by
  induction s with
  | nil => rfl
  | cons c s ih =>
    rw [List.mem_cons, not_or] at h
    have hc : c ≠ sep := Ne.symm h.1
    simp [splitOnce?, hc, ih h.2]

theorem splitLast?_eq_none {p : Char → Bool} {s : List Char} (h : ∀ c ∈ s, p c = false) :
    splitLast? p s = none := by
  induction s with
  | nil => rfl
  | cons c s ih =>
    rw [List.forall_mem_cons] at h
    simp [splitLast?, ih h.2, h.1]

theorem forall_of_splitLast?_eq_none {p : Char → Bool} {s : List Char} (h : splitLast? p s = none) :
    ∀ c ∈ s, p c = false := by
  induction s with
  | nil => simp
  | cons c s ih =>
    rw [splitLast?] at h
    cases hs : splitLast? p s with
    | some parts => simp [hs] at h
    | none =>
      rw [List.forall_mem_cons]
      exact ⟨by simpa [hs] using h, ih hs⟩

/-- A cut at the last character of a class does not look at what is before it. -/
theorem splitLast?_append {p : Char → Bool} {c : Char} (hc : p c = true) (before : List Char)
    {after : List Char} (h : ∀ d ∈ after, p d = false) :
    splitLast? p (before ++ c :: after) = some (before, after) := by
  induction before with
  | nil => simp [splitLast?, splitLast?_eq_none h, hc]
  | cons d before ih => simp [splitLast?, ih]

theorem dropPrefix?_append (front s : List Char) : dropPrefix? front (front ++ s) = some s := by
  induction front with
  | nil => cases s <;> rfl
  | cons c front ih =>
    rw [dropPrefix?] at ih ⊢
    simp [List.isPrefixOf?]

theorem eq_append_of_dropPrefix? {front s rest : List Char} (h : dropPrefix? front s = some rest) :
    s = front ++ rest := by
  rw [dropPrefix?] at h
  induction front generalizing s with
  | nil => simpa [List.isPrefixOf?] using h
  | cons c front ih =>
    cases s with
    | nil => simp [List.isPrefixOf?] at h
    | cons d s =>
      simp only [List.isPrefixOf?, beq_iff_eq] at h
      split at h
      · rename_i hcd
        rw [ih h, hcd, List.cons_append]
      · cases h

/-- What a cut at the last character of a class gives, if it gives anything. -/
theorem splitLast?_eq_some_iff {p : Char → Bool} {s before after : List Char} :
    splitLast? p s = some (before, after) ↔
      ∃ c, p c = true ∧ s = before ++ c :: after ∧ ∀ d ∈ after, p d = false := by
  constructor
  · intro h
    induction s generalizing before with
    | nil => cases h
    | cons d s ih =>
      rw [splitLast?] at h
      cases hs : splitLast? p s with
      | some parts =>
        obtain ⟨front, rest⟩ := parts
        rw [hs] at h
        cases h
        obtain ⟨c, hc, rfl, hafter⟩ := ih hs
        exact ⟨c, hc, rfl, hafter⟩
      | none =>
        rw [hs] at h
        cases hd : p d with
        | false => simp [hd] at h
        | true =>
          simp only [hd, if_true, Option.some.injEq, Prod.mk.injEq] at h
          obtain ⟨rfl, rfl⟩ := h
          exact ⟨d, hd, rfl, forall_of_splitLast?_eq_none hs⟩
  · rintro ⟨c, hc, rfl, hafter⟩
    exact splitLast?_append hc before hafter

theorem dropPrefix?_eq_some_iff {front s rest : List Char} : dropPrefix? front s = some rest ↔ s = front ++ rest :=
  ⟨eq_append_of_dropPrefix?, fun h => h ▸ dropPrefix?_append front rest⟩

/-- A cut at a text is a cut at its first occurrence. -/
theorem splitAtText?_eq_some_iff {needle s before after : List Char} (hne : needle ≠ []) :
    splitAtText? needle s = some (before, after) ↔
      s = before ++ (needle ++ after) ∧ ∀ i < before.length, ¬ needle <+: s.drop i := by
  induction s generalizing before with
  | nil =>
    constructor
    · intro h
      cases h
    · rintro ⟨h, -⟩
      simp [hne] at h
  | cons c s ih =>
    rw [splitAtText?]
    cases hd : dropPrefix? needle (c :: s) with
    | some rest =>
      have hs := eq_append_of_dropPrefix? hd
      constructor
      · intro h
        cases h
        exact ⟨hs, by simp⟩
      · rintro ⟨h, hfirst⟩
        cases before with
        | nil =>
          rw [hs, List.nil_append, List.append_cancel_left_eq] at h
          rw [h]
        | cons d before => exact absurd ⟨rest, hs.symm⟩ (hfirst 0 (by simp))
    | none =>
      have hno : ¬ needle <+: c :: s := by
        rintro ⟨rest, hs⟩
        rw [dropPrefix?_eq_some_iff.2 hs.symm] at hd
        cases hd
      rw [Option.map_eq_some_iff]
      constructor
      · rintro ⟨⟨front, rest⟩, hsplit, h⟩
        cases h
        obtain ⟨rfl, hfirst⟩ := ih.1 hsplit
        refine ⟨rfl, fun i hi => ?_⟩
        cases i with
        | zero => exact hno
        | succ i => exact hfirst i (Nat.lt_of_succ_lt_succ hi)
      · rintro ⟨h, hfirst⟩
        cases before with
        | nil => exact absurd ⟨after, h.symm⟩ hno
        | cons d before =>
          obtain ⟨rfl, rfl⟩ := List.cons.inj h
          exact ⟨(before, after), ih.2 ⟨rfl, fun i hi => hfirst (i + 1) (Nat.succ_lt_succ hi)⟩, rfl⟩

/-- Nothing that lacks the first character of a text can hide an occurrence of it. -/
theorem splitAtText?_append {c : Char} {before : List Char} (h : c ∉ before) (needle after : List Char) :
    splitAtText? (c :: needle) (before ++ (c :: needle ++ after)) = some (before, after) := by
  rw [splitAtText?_eq_some_iff (by simp)]
  refine ⟨rfl, fun i hi => ?_⟩
  rw [List.drop_append_of_le_length (Nat.le_of_lt hi), List.drop_eq_getElem_cons hi, List.cons_append,
    List.cons_prefix_cons]
  rintro ⟨rfl, -⟩
  exact h (List.getElem_mem hi)

@[simp] theorem join_singleton (sep part : List Char) : join sep [part] = part := rfl

theorem join_cons_cons (sep part next : List Char) (parts : List (List Char)) :
    join sep (part :: next :: parts) = part ++ sep ++ join sep (next :: parts) := rfl

theorem join_cons {sep part : List Char} {parts : List (List Char)} (h : parts ≠ []) :
    join sep (part :: parts) = part ++ sep ++ join sep parts := by
  cases parts with
  | nil => exact absurd rfl h
  | cons next parts => rfl

theorem join_eq_intercalate (sep : List Char) (parts : List (List Char)) : join sep parts = sep.intercalate parts := by
  induction parts with
  | nil => rfl
  | cons part parts ih =>
    cases parts with
    | nil => simp
    | cons next parts => rw [join_cons_cons, List.intercalate_cons_cons, ih]

theorem toList_intercalate (sep : String) (parts : List String) :
    (sep.intercalate parts).toList = join sep.toList (parts.map String.toList) := by
  rw [String.toList_intercalate, join_eq_intercalate]

theorem join_append_cons (sep : Char) (pre : List (List Char)) (part : List Char)
    (post : List (List Char)) :
    join [sep] (pre ++ part :: post) =
      pre.flatMap (· ++ [sep]) ++ (part ++ post.flatMap (sep :: ·)) := by
  induction pre with
  | nil =>
    induction post generalizing part with
    | nil => simp
    | cons next post ih =>
      have ih := ih next
      rw [List.nil_append] at ih ⊢
      rw [join_cons_cons, ih]
      simp
  | cons first pre ih =>
    rw [List.cons_append, join_cons (by simp), ih]
    simp

theorem join_ne_nil {sep part : List Char} {parts : List (List Char)} (h : part ≠ []) :
    join sep (part :: parts) ≠ [] := by
  cases parts with
  | nil => exact h
  | cons next parts => simp [join_cons_cons, h]

theorem getLast?_join {sep : List Char} {parts : List (List Char)} (h : ∀ part ∈ parts, part ≠ []) :
    (join sep parts).getLast? = parts.getLast?.bind List.getLast? := by
  induction parts with
  | nil => rfl
  | cons part parts ih =>
    cases parts with
    | nil => rfl
    | cons next parts =>
      rw [List.forall_mem_cons] at h
      have hj : join sep (next :: parts) ≠ [] := join_ne_nil (h.2 next List.mem_cons_self)
      rw [join_cons_cons, List.getLast?_append, List.getLast?_cons_cons, ← ih h.2,
        List.getLast?_eq_some_getLast hj, Option.some_or]

namespace Utf8

@[simp] theorem size_nil : size [] = 0 := rfl

@[simp] theorem size_cons (c : Char) (s : List Char) : size (c :: s) = c.utf8Size + size s := by
  simp [size]

@[simp] theorem size_append (a b : List Char) : size (a ++ b) = size a + size b := by
  simp [size]

theorem size_eq_length {s : List Char} (h : ∀ c ∈ s, c.utf8Size = 1) : size s = s.length := by
  induction s with
  | nil => rfl
  | cons c s ih =>
    rw [List.forall_mem_cons] at h
    rw [size_cons, h.1, ih h.2, List.length_cons, Nat.add_comm]

theorem utf8Size_digit {c : Char} (h : c.isDigit = true) : c.utf8Size = 1 := by
  simp only [Char.isDigit, ge_iff_le, Bool.and_eq_true, decide_eq_true_eq] at h
  have hle : c.val ≤ 0x7f := UInt32.le_trans h.2 (by decide)
  simp [Char.utf8Size, hle]

end Utf8

end OpenCaptions.Text
