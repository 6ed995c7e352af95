import OpenCaptions.Proofs.Text.Cutting
import OpenCaptions.Text.Blank

/-!
Lines and trimming. A text that was joined from lines is cut into the same lines again, if none of them holds a line
feed or ends in a carriage return.
-/
namespace OpenCaptions.Text

section Trim

variable {p : Char → Bool} {s : List Char} {c : Char}

theorem dropWhileEnd_eq (p : Char → Bool) (s : List Char) : dropWhileEnd p s = s.rdropWhile p := rfl

theorem mem_of_mem_dropWhileEnd (h : c ∈ dropWhileEnd p s) : c ∈ s := (s.rdropWhile_prefix p).subset h

theorem dropWhileEnd_eq_self (h : ∀ c, s.getLast? = some c → p c = false) : dropWhileEnd p s = s := by
  rw [dropWhileEnd_eq, List.rdropWhile_eq_self_iff]
  intro hs
  simpa using h _ (List.getLast?_eq_some_getLast hs)

theorem of_getLast?_dropWhileEnd (h : (dropWhileEnd p s).getLast? = some c) : p c = false := by
  have hne : s.rdropWhile p ≠ [] := by
    intro hnil
    rw [dropWhileEnd_eq, hnil] at h
    cases h
  have hlast := List.rdropWhile_last_not p s hne
  rw [dropWhileEnd_eq, List.getLast?_eq_some_getLast hne, Option.some.injEq] at h
  simpa [h] using hlast

theorem mem_of_mem_trim (h : c ∈ trim s) : c ∈ s :=
  (s.dropWhile_sublist isBlank).subset (mem_of_mem_dropWhileEnd h)

/-- Trimming takes away the blanks around a text without any. -/
theorem trim_around (front back : List Char) (hf : ∀ c ∈ front, isBlank c = true)
    (hs : ∀ c ∈ s, isBlank c = false) (hb : ∀ c ∈ back, isBlank c = true) : trim (front ++ s ++ back) = s := by
  have hdrop {blanks : List Char} (h : ∀ c ∈ blanks, isBlank c = true) (rest : List Char) :
      (blanks ++ rest).dropWhile isBlank = rest.dropWhile isBlank := List.dropWhile_append_of_pos h
  cases s with
  | nil =>
    have hall : (front ++ [] ++ back).dropWhile isBlank = [] := by
      rw [List.append_nil, hdrop hf, ← List.append_nil back, hdrop hb]
      rfl
    rw [trim, hall]
    rfl
  | cons c s =>
    have hc : isBlank c = false := hs c List.mem_cons_self
    have hfront : (front ++ c :: s ++ back).dropWhile isBlank = c :: s ++ back := by
      rw [List.append_assoc, hdrop hf, List.cons_append, List.dropWhile_cons_of_neg (by simp [hc])]
    have hback : (c :: s ++ back).reverse.dropWhile isBlank = (c :: s).reverse.dropWhile isBlank := by
      rw [List.reverse_append, hdrop (by simpa using hb)]
    rw [trim, hfront, dropWhileEnd, hback, ← dropWhileEnd, dropWhileEnd_eq_self]
    exact fun d hd => hs d (List.mem_of_getLast? hd)

theorem trim_eq_nil_iff : trim s = [] ↔ isBlankText s = true := by
  rw [trim, dropWhileEnd_eq, List.rdropWhile_eq_nil_iff, isBlankText, List.all_eq_true]
  constructor
  · intro h c hc
    rw [← List.takeWhile_append_dropWhile (p := isBlank) (l := s), List.mem_append] at hc
    rcases hc with hc | hc
    · exact List.mem_takeWhile_imp hc
    · exact h c hc
  · intro h c hc
    exact h c ((s.dropWhile_sublist isBlank).subset hc)

theorem isBlank_of_isDigit (h : c.isDigit = true) : isBlank c = false := by
  simp only [Char.isDigit, ge_iff_le, Bool.and_eq_true, decide_eq_true_eq, UInt32.le_iff_toNat_le] at h
  change 48 ≤ c.toNat ∧ c.toNat ≤ 57 at h
  simp only [isBlank, Bool.or_eq_false_iff, Bool.and_eq_false_iff, decide_eq_false_iff_not, beq_eq_false_iff_ne]
  omega

theorem trim_eq_self (hs : ∀ c ∈ s, isBlank c = false) : trim s = s := by
  simpa using trim_around [] [] (by simp) hs (by simp)

end Trim

/-- Text between two line ends: no line feed, and no carriage return in front of the end. -/
structure IsLine (line : List Char) : Prop where
  noFeed : '\n' ∉ line
  noReturn : line.getLast? ≠ some '\r'

theorem isLine_nil : IsLine [] := ⟨by simp, by simp⟩

theorem isLine_trim {s : List Char} (h : '\n' ∉ s) : IsLine (trim s) where
  noFeed := fun hm => h (mem_of_mem_trim hm)
  noReturn := fun hr => by cases of_getLast?_dropWhileEnd hr

/-- At a line feed a line ends, and a carriage return in front of it belongs to the end. -/
theorem lines_go_feed (line rest : List Char) :
    lines.go line ('\n' :: rest) = (if line.head? = some '\r' then line.tail else line).reverse :: lines.go [] rest := by
  cases line with
  | nil => rfl
  | cons c line =>
    by_cases hc : c = '\r'
    · subst hc
      rfl
    · simp [lines.go, hc]

theorem lines_go_char {c : Char} (hc : c ≠ '\n') (line rest : List Char) :
    lines.go line (c :: rest) = lines.go (c :: line) rest := by
  simp [lines.go, hc]

theorem lines_go_append {front : List Char} (h : '\n' ∉ front) (line rest : List Char) :
    lines.go line (front ++ rest) = lines.go (front.reverse ++ line) rest := by
  induction front generalizing line with
  | nil => rfl
  | cons c front ih =>
    rw [List.mem_cons, not_or] at h
    rw [List.cons_append, lines_go_char (Ne.symm h.1), ih h.2]
    simp

theorem lines_append_feed {line : List Char} (h : IsLine line) (rest : List Char) :
    lines (line ++ '\n' :: rest) = line :: lines rest := by
  have hreturn : line.reverse.head? ≠ some '\r' := by
    rw [List.head?_reverse]
    exact h.noReturn
  rw [lines, lines_go_append h.noFeed, List.append_nil, lines_go_feed, if_neg hreturn, List.reverse_reverse, lines]

theorem lines_feed (rest : List Char) : lines ('\n' :: rest) = [] :: lines rest :=
  lines_append_feed isLine_nil rest

private theorem lines_eq_singleton {line : List Char} (h : '\n' ∉ line) (hne : line ≠ []) : lines line = [line] := by
  rw [← List.append_nil line, lines, lines_go_append h, List.append_nil, lines.go]
  simp [hne]

theorem lines_join_append {parts : List (List Char)} (hne : parts ≠ []) (h : ∀ part ∈ parts, IsLine part)
    (rest : List Char) : lines (join ['\n'] parts ++ '\n' :: rest) = parts ++ lines rest := by
  induction parts with
  | nil => exact absurd rfl hne
  | cons part parts ih =>
    rw [List.forall_mem_cons] at h
    cases parts with
    | nil => exact lines_append_feed h.1 rest
    | cons next parts =>
      rw [join_cons_cons, List.append_assoc, List.append_assoc, List.singleton_append, lines_append_feed h.1,
        ih (by simp) h.2]
      rfl

/-- Lines that are joined are cut apart again, where the last one can be told from none. -/
theorem lines_join {parts : List (List Char)} (h : ∀ part ∈ parts, IsLine part) (hlast : parts.getLast? ≠ some []) :
    lines (join ['\n'] parts) = parts := by
  induction parts with
  | nil => rfl
  | cons part parts ih =>
    rw [List.forall_mem_cons] at h
    cases parts with
    | nil => exact lines_eq_singleton h.1.noFeed (by simpa using hlast)
    | cons next parts =>
      rw [join_cons_cons, List.append_assoc, List.singleton_append, lines_append_feed h.1,
        ih h.2 (by rwa [List.getLast?_cons_cons] at hlast)]

private theorem noFeed_of_mem_go {line s : List Char} (hline : '\n' ∉ line) {part : List Char}
    (h : part ∈ lines.go line s) :
    '\n' ∉ part := by
  induction s generalizing line with
  | nil =>
    rw [lines.go] at h
    split at h
    · cases h
    · obtain rfl := List.mem_singleton.1 h
      simpa using hline
  | cons c s ih =>
    by_cases hc : c = '\n'
    · rw [hc, lines_go_feed, List.mem_cons] at h
      rcases h with rfl | h
      · rw [List.mem_reverse]
        split
        · exact fun hm => hline (List.mem_of_mem_tail hm)
        · exact hline
      · exact ih (by simp) h
    · rw [lines_go_char hc] at h
      exact ih (by simpa using ⟨Ne.symm hc, hline⟩) h

theorem noFeed_of_mem_lines {s line : List Char} (h : line ∈ lines s) : '\n' ∉ line :=
  noFeed_of_mem_go (by simp) h

end OpenCaptions.Text
