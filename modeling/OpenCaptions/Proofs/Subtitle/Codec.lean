import OpenCaptions.Proofs.Number.Clamping
import OpenCaptions.Proofs.Subtitle.Blocks

/-!
Subtitles as text and as captions. Blocks that can be written are read back as they were, and so are all blocks that
were read. As captions they lose their numbers and those of them whose time range is empty.
-/
namespace OpenCaptions.Subtitle

open Failure

variable {blocks : List SubtitleBlock} {source : List Char}

private theorem groups_format (h : ∀ block ∈ blocks, block.IsWritable) :
    groups (bareLines (format blocks)) = blocks.map blockLines := by
  induction blocks with
  | nil => rfl
  | cons block blocks ih =>
    rw [List.forall_mem_cons] at h
    rw [format, List.flatMap_cons, groups_blockText h.1, ← format, ih h.2, List.map_cons]

private theorem dropWhile_format (blocks : List SubtitleBlock) :
    (format blocks).dropWhile (· == '\uFEFF') = format blocks := by
  cases blocks with
  | nil => rfl
  | cons block blocks =>
    obtain ⟨d, digits, hdigits⟩ := List.exists_cons_of_ne_nil (Nat.toDigits_ne_nil (n := block.index) (b := 10))
    have hd : d.isDigit = true :=
      Number.isDigit_of_mem_toDigits (n := block.index) (by rw [hdigits]; exact List.mem_cons_self)
    have hne : d ≠ '\uFEFF' := by
      rintro rfl
      cases hd
    rw [format, List.flatMap_cons, blockText, hdigits]
    simp [hne]

theorem parse_format (h : ∀ block ∈ blocks, block.IsWritable) : parse (format blocks) = .ok blocks := by
  have hgroups : parse (format blocks) = (blocks.map blockLines).mapM readBlock := by
    rw [← groups_format h, parse, dropWhile_format]
    rfl
  rw [hgroups, mapM_eq_ok, List.forall₂_map_left_iff, List.forall₂_same]
  exact fun block hm => readBlock_blockLines (h block hm)

/-- Everything that is read can be written. -/
theorem isWritable_of_parse (h : parse source = .ok blocks) : ∀ block ∈ blocks, block.IsWritable := by
  intro block hm
  obtain ⟨group, hgroup, hread⟩ := exists_of_mem_mapM h hm
  obtain ⟨indexLine, timeLine, rfl, hindex, htimes⟩ := readBlock_eq_ok_iff.1 hread
  obtain ⟨_, _, -, hstart, hfinish⟩ := readTimes_eq_ok_iff.1 htimes
  refine ⟨Number.readNat_lt (by decide) hindex, readTime_lt hstart, readTime_lt hfinish, fun line hline => ?_⟩
  obtain ⟨hmem, hblank⟩ := mem_of_mem_groups hgroup
    (List.mem_cons_of_mem indexLine (List.mem_cons_of_mem timeLine hline))
  obtain ⟨raw, hraw, rfl⟩ := List.mem_map.1 hmem
  refine ⟨⟨fun hfeed => ?_, fun hreturn => ?_⟩, hblank⟩
  · exact Text.noFeed_of_mem_lines hraw (Text.mem_of_mem_dropWhileEnd hfeed)
  · cases Text.of_getLast?_dropWhileEnd hreturn

/-- Blocks are read back as they were written exactly if they can be written. -/
theorem parse_format_iff : parse (format blocks) = .ok blocks ↔ ∀ block ∈ blocks, block.IsWritable :=
  ⟨isWritable_of_parse, parse_format⟩

section Captions

variable {α : Type} [Scalar α]

def captionBlock (index : Nat) (c : Caption α) : SubtitleBlock :=
  ⟨index, milliseconds c.start, milliseconds c.finish, Text.lines c.text.toList⟩

private theorem numbered_eq_mapIdx (index : Nat) (captions : List (Caption α)) :
    numbered index captions = captions.mapIdx fun i c => captionBlock (index + i) c := by
  induction captions generalizing index with
  | nil => rfl
  | cons c captions ih =>
    rw [numbered, ih, List.mapIdx_cons]
    simp only [captionBlock, Nat.add_zero, Nat.add_assoc, Nat.add_comm 1]

theorem ofCaptions_eq_mapIdx (captions : List (Caption α)) :
    ofCaptions captions = captions.mapIdx fun i c => captionBlock (i + 1) c := by
  rw [ofCaptions, numbered_eq_mapIdx]
  simp only [Nat.add_comm 1]

theorem lines_text {block : SubtitleBlock} (h : block.IsWritable) :
    Text.lines (Text.join ['\n'] block.lines) = block.lines := by
  refine Text.lines_join (fun line hm => (h.lines line hm).toIsLine) fun hlast => ?_
  cases (h.lines [] (List.mem_of_getLast? hlast)).notBlank

theorem milliseconds_thousandths {ms : Nat} (h : ms < word64) :
    milliseconds (Scalar.ofNat ms / Scalar.ofNat 1000 : Rat) = ms := by
  have hmul : (ms : Rat) / (1000 : Nat) * (1000 : Nat) = ms := div_mul_cancel₀ _ (by norm_num)
  have hpos : (0 : Rat) ≤ (ms : Rat) / (1000 : Nat) := div_nonneg (Nat.cast_nonneg ms) (Nat.cast_nonneg 1000)
  rw [milliseconds, positivePart_rat, ofNat_rat, ofNat_rat, max_eq_right hpos, hmul,
    nearestNat_natCast]
  omega

theorem numbered_toCaptions (h : ∀ block ∈ blocks, block.IsWritable) (presetId : String) (index : Nat) :
    numbered index (toCaptions presetId blocks : List (Caption Rat)) =
      (blocks.filter fun block => block.startMs < block.finishMs).mapIdx fun i block =>
        { block with index := index + i } := by
  induction blocks generalizing index with
  | nil => rfl
  | cons block blocks ih =>
    rw [List.forall_mem_cons] at h
    by_cases hempty : block.finishMs ≤ block.startMs
    · have hnone : (toCaption? presetId block : Option (Caption Rat)) = none := if_pos hempty
      rw [toCaptions, List.filterMap_cons_none hnone, ← toCaptions, ih h.2,
        List.filter_cons_of_neg (by simpa using hempty)]
    · have hsome : (toCaption? presetId block : Option (Caption Rat)) = _ := if_neg hempty
      rw [toCaptions, List.filterMap_cons_some hsome, ← toCaptions, numbered, ih h.2,
        List.filter_cons_of_pos (by simpa using hempty), List.mapIdx_cons]
      simp only [milliseconds_thousandths h.1.start, milliseconds_thousandths h.1.finish, String.toList_ofList,
        lines_text h.1, Nat.add_zero, Nat.add_assoc, Nat.add_comm 1]

def renumbered (blocks : List SubtitleBlock) : List SubtitleBlock :=
  blocks.mapIdx fun i block => { block with index := i + 1 }

/-- Captions of exact times lose only the numbers of blocks, and those whose time range is empty. -/
theorem ofCaptions_toCaptions (h : ∀ block ∈ blocks, block.IsWritable) (presetId : String) :
    ofCaptions (toCaptions presetId blocks : List (Caption Rat)) =
      renumbered (blocks.filter fun block => block.startMs < block.finishMs) := by
  rw [ofCaptions, numbered_toCaptions h, renumbered]
  simp only [Nat.add_comm 1]

private theorem isWritable_renumbered (h : ∀ block ∈ blocks, block.IsWritable) (hlen : blocks.length < word32) :
    ∀ block ∈ renumbered blocks, block.IsWritable := by
  intro block hm
  obtain ⟨i, hi, rfl⟩ := List.mem_mapIdx.1 hm
  have hblock := h blocks[i] (List.getElem_mem hi)
  exact ⟨Nat.lt_of_le_of_lt hi hlen, hblock.start, hblock.finish, hblock.lines⟩

end Captions

/-- All blocks that were read, and all others that can be written, are read back as they were written. If there are
fewer of them than numbers, going through captions of exact times gives those with a time range, renumbered, and these
can be written again. -/
theorem writing_keeps_blocks :
    (∀ source blocks, parse source = .ok blocks →
      (∀ block ∈ blocks, block.IsWritable) ∧ parse (format blocks) = .ok blocks) ∧
    (∀ blocks : List SubtitleBlock, (∀ block ∈ blocks, block.IsWritable) → parse (format blocks) = .ok blocks) ∧
    ∀ (presetId : String) (blocks : List SubtitleBlock), (∀ block ∈ blocks, block.IsWritable) →
      blocks.length < word32 →
        ofCaptions (toCaptions presetId blocks : List (Caption Rat)) =
          renumbered (blocks.filter fun block => block.startMs < block.finishMs) ∧
        ∀ block ∈ ofCaptions (toCaptions presetId blocks : List (Caption Rat)), block.IsWritable := by
  refine ⟨fun source blocks h => ⟨isWritable_of_parse h, parse_format (isWritable_of_parse h)⟩,
    fun blocks => parse_format, fun presetId blocks h hlen => ?_⟩
  have hfilter : ∀ block ∈ blocks.filter fun block => block.startMs < block.finishMs, block.IsWritable :=
    fun block hm => h block (List.mem_of_mem_filter hm)
  have hfewer := List.length_filter_le (fun block : SubtitleBlock => decide (block.startMs < block.finishMs)) blocks
  rw [ofCaptions_toCaptions h]
  exact ⟨rfl, isWritable_renumbered hfilter (Nat.lt_of_le_of_lt hfewer hlen)⟩

/-- Two blocks, the second of them without text and with its end before its start. -/
def transcript : List Char :=
  "\uFEFF7\r\n00:00:01,5 --> 00:00:02.250 \r\nHi\r\nthere\r\n\r\n \n9\n120:00:03,000 --> 00:00:03,000\n".toList

theorem writing_keeps_transcript :
    ∃ blocks, parse transcript = .ok blocks ∧ parse (format blocks) = .ok blocks ∧ blocks.length < word32 ∧
      ofCaptions (toCaptions "bold" blocks : List (Caption Rat)) =
        renumbered (blocks.filter fun block => block.startMs < block.finishMs) := by
  have h : parse transcript = .ok [⟨7, 1500, 2250, ["Hi".toList, "there".toList]⟩, ⟨9, 432003000, 3000, []⟩] := rfl
  obtain ⟨hwritable, hback⟩ := writing_keeps_blocks.1 _ _ h
  have hlen : 2 < word32 := by decide
  exact ⟨_, h, hback, hlen, (writing_keeps_blocks.2.2 "bold" _ hwritable hlen).1⟩

end OpenCaptions.Subtitle
