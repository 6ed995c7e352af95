import OpenCaptions.Proofs.Subtitle.Times

/-!
Blocks of subtitles. Blank lines separate them, and a block that is written is read as it was.
-/
namespace OpenCaptions

structure Subtitle.IsTextLine (line : List Char) : Prop extends Text.IsLine line where
  notBlank : Text.isBlankText line = false

/-- A block whose numbers are in range and whose text can be told from what is around it. -/
structure SubtitleBlock.IsWritable (block : SubtitleBlock) : Prop where
  index : block.index < word32
  start : block.startMs < word64
  finish : block.finishMs < word64
  lines : ∀ line ∈ block.lines, Subtitle.IsTextLine line

namespace Subtitle

open Failure

section Groups

variable {lines group : List (List Char)} {line : List Char}

theorem groups_append_of_blank {blanks : List (List Char)} (h : ∀ blank ∈ blanks, Text.isBlankText blank = true)
    (lines : List (List Char)) : groups (blanks ++ lines) = groups lines := by
  induction blanks with
  | nil => rfl
  | cons blank blanks ih =>
    rw [List.forall_mem_cons] at h
    rw [List.cons_append, ← ih h.2, groups.eq_def]
    simp [h.1]

/-- A blank line ends a group. -/
theorem groups_append_blank (hne : group ≠ []) (h : ∀ line ∈ group, Text.isBlankText line = false) {blank : List Char}
    (hb : Text.isBlankText blank = true) (rest : List (List Char)) :
    groups (group ++ blank :: rest) = group :: groups rest := by
  induction group with
  | nil => exact absurd rfl hne
  | cons line group ih =>
    rw [List.forall_mem_cons] at h
    cases group with
    | nil => simp [groups, h.1, hb]
    | cons next group =>
      have ih := ih (by simp) h.2
      rw [List.cons_append] at ih
      rw [List.cons_append, List.cons_append, groups, ih]
      simp [h.1, h.2 next List.mem_cons_self]

/-- Grouping leaves out the blank lines and nothing else. -/
theorem flatten_groups (lines : List (List Char)) :
    (groups lines).flatten = lines.filter fun line => !Text.isBlankText line := by
  fun_induction groups lines with
  | case1 => rfl
  | case2 line lines h ih => rw [ih, List.filter_cons_of_neg (by simp [h])]
  | case3 line h =>
    rw [List.filter_cons_of_pos (by simp [h])]
    rfl
  | case4 line h next lines hnext ih =>
    rw [List.filter_cons_of_pos (by simp [h]), ← ih]
    rfl
  | case5 line h next lines hnext hnone ih =>
    rw [List.filter_cons_of_pos (by simp [h]), ← ih, hnone]
    rfl
  | case6 line h next lines hnext group rest hsome ih =>
    rw [List.filter_cons_of_pos (by simp [h]), ← ih, hsome]
    rfl

/-- The lines of a group are lines that are not blank. -/
theorem mem_of_mem_groups (hgroup : group ∈ groups lines) (hline : line ∈ group) :
    line ∈ lines ∧ Text.isBlankText line = false := by
  have hm : line ∈ (groups lines).flatten := List.mem_flatten.2 ⟨group, hgroup, hline⟩
  simpa [flatten_groups] using hm

end Groups

theorem readBlock_eq_ok_iff {group : List (List Char)} {block : SubtitleBlock} :
    readBlock group = .ok block ↔ ∃ indexLine timeLine, group = indexLine :: timeLine :: block.lines ∧
      Number.readNat word32 (Text.trim indexLine) = .ok block.index ∧
      readTimes timeLine = .ok (block.startMs, block.finishMs) := by
  obtain ⟨index, start, finish, lines⟩ := block
  cases group with
  | nil => simp [readBlock]
  | cons indexLine group =>
    cases group with
    | nil => simp [readBlock]
    | cons timeLine group =>
      simp only [readBlock, bind_eq_ok, mapError_eq_ok, pure_eq_ok, SubtitleBlock.mk.injEq, List.cons.injEq]
      constructor
      · rintro ⟨_, hindex, ⟨_, _⟩, htimes, rfl, rfl, rfl, rfl⟩
        exact ⟨indexLine, timeLine, ⟨rfl, rfl, rfl⟩, hindex, htimes⟩
      · rintro ⟨_, _, ⟨rfl, rfl, rfl⟩, hindex, htimes⟩
        exact ⟨index, hindex, (start, finish), htimes, rfl, rfl, rfl, rfl⟩

theorem isBlank_of_mem_toDigits {n : Nat} {c : Char} (h : c ∈ Nat.toDigits 10 n) : Text.isBlank c = false :=
  Text.isBlank_of_isDigit (Number.isDigit_of_mem_toDigits h)

def blockLines (block : SubtitleBlock) : List (List Char) :=
  Nat.toDigits 10 block.index :: timesText block.startMs block.finishMs :: block.lines

theorem readBlock_blockLines {block : SubtitleBlock} (h : block.IsWritable) :
    readBlock (blockLines block) = .ok block := by
  refine readBlock_eq_ok_iff.2 ⟨_, _, rfl, ?_, readTimes_timesText h.start h.finish⟩
  rw [Text.trim_eq_self fun c => isBlank_of_mem_toDigits]
  exact Number.readNat_toDigits h.index

private theorem isTextLine_of_mem {line : List Char} {c : Char} (hm : c ∈ line) (hc : Text.isBlank c = false)
    (h : ∀ d ∈ line, d ≠ '\n' ∧ d ≠ '\r') : IsTextLine line where
  noFeed := fun hn => (h _ hn).1 rfl
  noReturn := fun hr => (h _ (List.mem_of_getLast? hr)).2 rfl
  notBlank := by
    rw [Text.isBlankText, List.all_eq_false]
    exact ⟨c, hm, by simp [hc]⟩

theorem isTextLine_of_mem_blockLines {block : SubtitleBlock} (h : block.IsWritable) {line : List Char}
    (hm : line ∈ blockLines block) : IsTextLine line := by
  have hvisible {c : Char} (hc : Text.isBlank c = false) : c ≠ '\n' ∧ c ≠ '\r' := by
    constructor
    · rintro rfl
      cases hc
    · rintro rfl
      cases hc
  rw [blockLines, List.mem_cons, List.mem_cons] at hm
  rcases hm with rfl | rfl | hm
  · have hhead := List.head_mem (Nat.toDigits_ne_nil (n := block.index) (b := 10))
    exact isTextLine_of_mem hhead (isBlank_of_mem_toDigits hhead) fun d hd => hvisible (isBlank_of_mem_toDigits hd)
  · refine isTextLine_of_mem (c := '-') (by simp [timesText]) rfl fun d hd => ?_
    rw [timesText, List.mem_append, List.mem_append] at hd
    rcases hd with (hd | hd) | hd
    · exact hvisible (isBlank_of_mem_timeText hd)
    · have harrow : ∀ d ∈ " --> ".toList, d ≠ '\n' ∧ d ≠ '\r' := by simp
      exact harrow d hd
    · exact hvisible (isBlank_of_mem_timeText hd)
  · exact h.lines line hm

def bareLines (source : List Char) : List (List Char) := (Text.lines source).map (Text.dropWhileEnd (· == '\r'))

private theorem bareLines_eq_append {text rest : List Char} {parts : List (List Char)}
    (h : ∀ part ∈ parts, Text.IsLine part)
    (hlines : Text.lines text = parts ++ Text.lines rest) : bareLines text = parts ++ bareLines rest := by
  have hparts : parts.map (Text.dropWhileEnd (· == '\r')) = parts.map id := by
    refine List.map_congr_left fun part hm => Text.dropWhileEnd_eq_self fun c hc => ?_
    rw [beq_eq_false_iff_ne]
    rintro rfl
    exact (h part hm).noReturn hc
  rw [bareLines, hlines, List.map_append, hparts, List.map_id, bareLines]

/-- A text that begins with a block has the lines of the block and then one or two empty ones. -/
theorem lines_blockText {block : SubtitleBlock} (h : block.IsWritable) (rest : List Char) :
    ∃ blanks, Text.lines (blockText block ++ rest) = blockLines block ++ [] :: blanks ++ Text.lines rest ∧
      ∀ blank ∈ blanks, blank = [] := by
  have htext : blockText block ++ rest =
      Text.join ['\n'] [Nat.toDigits 10 block.index, timesText block.startMs block.finishMs] ++ '\n' ::
        (Text.join ['\n'] block.lines ++ '\n' :: '\n' :: rest) := by
    simp [blockText, timesText, Text.join]
  have hline {line : List Char} (hm : line ∈ blockLines block) : Text.IsLine line :=
    (isTextLine_of_mem_blockLines h hm).toIsLine
  have hfront : ∀ line ∈ [Nat.toDigits 10 block.index, timesText block.startMs block.finishMs], Text.IsLine line :=
    fun line hm => hline (List.mem_append_left block.lines hm)
  rw [htext, Text.lines_join_append (by simp) hfront, blockLines]
  by_cases hnil : block.lines = []
  · refine ⟨[[]], ?_, by simp⟩
    rw [hnil, Text.join, List.nil_append, Text.lines_feed, Text.lines_feed]
    simp
  · refine ⟨[], ?_, by simp⟩
    rw [Text.lines_join_append hnil fun line hm => (h.lines line hm).toIsLine, Text.lines_feed]
    simp

/-- The first group of a text that begins with a block. -/
theorem groups_blockText {block : SubtitleBlock} (h : block.IsWritable) (rest : List Char) :
    groups (bareLines (blockText block ++ rest)) = blockLines block :: groups (bareLines rest) := by
  obtain ⟨blanks, hlines, hblanks⟩ := lines_blockText h rest
  have hline {line : List Char} (hm : line ∈ blockLines block) := isTextLine_of_mem_blockLines h hm
  have hparts : ∀ part ∈ blockLines block ++ [] :: blanks, Text.IsLine part := by
    intro part hm
    rw [List.mem_append, List.mem_cons] at hm
    rcases hm with hm | hm
    · exact (hline hm).toIsLine
    · obtain rfl : part = [] := hm.elim id (hblanks part)
      exact Text.isLine_nil
  rw [bareLines_eq_append hparts hlines, List.append_assoc, List.cons_append,
    groups_append_blank (by simp [blockLines]) (fun line hm => (hline hm).notBlank) rfl,
    groups_append_of_blank fun blank hm => by rw [hblanks blank hm]; rfl]

end Subtitle
end OpenCaptions
