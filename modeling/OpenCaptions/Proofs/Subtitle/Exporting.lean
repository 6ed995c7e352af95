import OpenCaptions.Proofs.Subtitle.Codec

/-!
Exported captions. What is written for them is read back as they are, unless some line of a text is blank, and so ends
its block, or ends in a carriage return, which is not kept.
-/
namespace OpenCaptions.Subtitle

theorem milliseconds_lt (seconds : Float) : milliseconds seconds < word64 := by
  have hle := Number.nearestNat_le (Scalar.positivePart seconds * Scalar.ofNat 1000) (word64 - 1)
  have hpos : 0 < word64 := by decide
  exact Nat.lt_of_le_of_lt hle (Nat.sub_lt hpos Nat.one_pos)

/-- The block of a caption is writable exactly if its lines are; no time is out of range. -/
theorem isWritable_captionBlock_iff {index : Nat} (hindex : index < word32) (c : Caption Float) :
    (captionBlock index c).IsWritable ↔
      ∀ line ∈ Text.lines c.text.toList, Text.isBlankText line = false ∧ line.getLast? ≠ some '\r' := by
  constructor
  · intro h line hm
    have hline := h.lines line hm
    exact ⟨hline.notBlank, hline.noReturn⟩
  · intro h
    refine ⟨hindex, milliseconds_lt c.start, milliseconds_lt c.finish, fun line hm => ?_⟩
    obtain ⟨hblank, hreturn⟩ := h line hm
    exact ⟨⟨Text.noFeed_of_mem_lines hm, hreturn⟩, hblank⟩

/-- An export is read back, caption by caption, exactly if no line of its captions is blank or ends in a carriage
return. -/
theorem exporting_rereads_iff {captions : List (Caption Float)} (hlen : captions.length < word32) :
    parse (format (ofCaptions captions)) =
        .ok (captions.mapIdx fun i c =>
          ⟨i + 1, milliseconds c.start, milliseconds c.finish, Text.lines c.text.toList⟩) ↔
      ∀ c ∈ captions, ∀ line ∈ Text.lines c.text.toList,
        Text.isBlankText line = false ∧ line.getLast? ≠ some '\r' := by
  change parse (format (ofCaptions captions)) = .ok (captions.mapIdx fun i c => captionBlock (i + 1) c) ↔ _
  rw [← ofCaptions_eq_mapIdx, parse_format_iff, ofCaptions_eq_mapIdx]
  have hindex {i : Nat} (hi : i < captions.length) : i + 1 < word32 := Nat.lt_of_le_of_lt hi hlen
  constructor
  · intro h c hm
    obtain ⟨i, hi, rfl⟩ := List.mem_iff_getElem.1 hm
    exact (isWritable_captionBlock_iff (hindex hi) _).1 (h _ (List.mem_mapIdx.2 ⟨i, hi, rfl⟩))
  · intro h block hm
    obtain ⟨i, hi, rfl⟩ := List.mem_mapIdx.1 hm
    exact (isWritable_captionBlock_iff (hindex hi) _).2 (h _ (List.getElem_mem hi))

def captioned (text : String) : Caption Float where
  start := Scalar.ofNat 0
  finish := Scalar.ofNat 1
  text := text
  presetId := "p1"

theorem exporting_rereads_greeting :
    [captioned "Hello\nthere"].length < word32 ∧
      (parse (format (ofCaptions [captioned "Hello\nthere"])) =
          .ok ([captioned "Hello\nthere"].mapIdx fun i c =>
            ⟨i + 1, milliseconds c.start, milliseconds c.finish, Text.lines c.text.toList⟩) ↔
        ∀ c ∈ [captioned "Hello\nthere"], ∀ line ∈ Text.lines c.text.toList,
          Text.isBlankText line = false ∧ line.getLast? ≠ some '\r') :=
  ⟨by decide, exporting_rereads_iff (by decide)⟩

/-- An empty line in a valid caption leaves a block behind that has no times. -/
theorem parse_parted :
    (captioned "a\n\nb").validate.isOk = true ∧
      parse (format (ofCaptions [captioned "a\n\nb"])) = .error (.noTimeLine ['b']) := by
  decide +kernel

/-- With its own times what stands behind an empty line becomes an entry. -/
example : parse (format (ofCaptions [captioned "a\n\n9\n00:00:05,000 --> 00:00:06,000\nb"])) =
    .ok [⟨1, 0, 1000, [['a']]⟩, ⟨9, 5000, 6000, [['b']]⟩] := by
  decide +kernel

end OpenCaptions.Subtitle
