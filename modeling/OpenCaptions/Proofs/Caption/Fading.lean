import OpenCaptions.Caption.Timing
import OpenCaptions.Proofs.Number.Arithmetic

/-!
The fade of captions in floats. Its length and the times at which it ends and begins are finite, for all times
that a caption can have.
-/
namespace OpenCaptions

open Number Binary64

section Choice

variable {a b : Float}

theorem isNaN_of_isFinite (h : a.isFinite = true) : a.isNaN = false := by
  change a.toModel.unpack.isFinite = true at h
  change a.toModel.unpack.isNaN = false
  cases hu : a.toModel.unpack with
  | notANumber =>
    rw [hu] at h
    cases h
  | infinity s => rfl
  | zero s => rfl
  | finite s m e hm => rfl

/-- The smaller of two finite numbers is one of them, and above none. -/
theorem lesser_spec (ha : a.isFinite = true) (hb : b.isFinite = true) :
    (lesser a b).isFinite = true ∧ valueOf (lesser a b) ≤ valueOf a ∧ valueOf (lesser a b) ≤ valueOf b := by
  have hlt := lt_iff_valueOf ha hb
  unfold lesser
  rw [isNaN_of_isFinite ha, isNaN_of_isFinite hb, if_neg Bool.false_ne_true, if_neg Bool.false_ne_true]
  split
  · rename_i h
    exact ⟨ha, le_rfl, (hlt.1 h).le⟩
  · rename_i h
    rw [hlt, not_lt] at h
    exact ⟨hb, h, le_rfl⟩

theorem zero_spec : (Scalar.ofNat 0 : Float).isFinite = true ∧ valueOf (Scalar.ofNat 0) = 0 := by
  have hzero : ofFloat (Scalar.ofNat 0) = .finite false 0 leastExponent := by decide
  exact ⟨isFinite_iff.2 ⟨_, _, _, hzero⟩, by simp [valueOf, hzero, Binary64.value]⟩

theorem positivePart_spec (ha : a.isFinite = true) :
    (Scalar.positivePart a).isFinite = true ∧ valueOf (Scalar.positivePart a) = max 0 (valueOf a) := by
  have hlt := lt_iff_valueOf zero_spec.1 ha
  have hscalar : Scalar.lt (Scalar.ofNat 0) a = true ↔ 0 < valueOf a := by
    rw [← zero_spec.2, ← hlt]
    exact decide_eq_true_iff
  unfold Scalar.positivePart
  split
  · rename_i h
    exact ⟨ha, (max_eq_right (hscalar.1 h).le).symm⟩
  · rename_i h
    rw [hscalar, not_lt] at h
    exact ⟨zero_spec.1, by rw [zero_spec.2, max_eq_left h]⟩

end Choice

theorem Caption.validate_eq_ok {c : Caption Float} (h : c.validate = .ok ()) :
    c.start.isFinite = true ∧ c.finish.isFinite = true ∧ 0 ≤ valueOf c.start ∧
      valueOf c.start < valueOf c.finish := by
  unfold validate at h
  split at h
  · cases h
  · rename_i hf
    split at h
    · cases h
    · rename_i ho
      have hfinite : c.start.isFinite = true ∧ c.finish.isFinite = true := by
        simpa [Scalar.isFinite] using hf
      have horder : ¬ c.start < Scalar.ofNat 0 ∧ ¬ c.finish ≤ c.start := by
        simpa [Scalar.lt, Scalar.le] using ho
      rw [lt_iff_valueOf hfinite.1 zero_spec.1, zero_spec.2, not_lt,
        le_iff_valueOf hfinite.2 hfinite.1, not_le] at horder
      exact ⟨hfinite.1, hfinite.2, horder.1, horder.2⟩

namespace Timing

variable {start finish configured : Float}

private theorem exists_room (hs : start.isFinite = true) (hf : finish.isFinite = true) (h0 : 0 ≤ valueOf start)
    (hlt : valueOf start < valueOf finish) :
    ∃ bound : Nat, InRange bound greatestExponent ∧
      (finish - start).isFinite = true ∧ 0 ≤ valueOf (finish - start) ∧
      valueOf (finish - start) / 4 ≤ bound * 2 ^ greatestExponent ∧
      valueOf start + bound * 2 ^ greatestExponent ≤ greatest := by
  have hU : (0 : ℚ) < 2 ^ greatestExponent := by positivity
  have hle := valueOf_le_greatest hf
  have hdiff := roundsTo_sub hf hs
  have hpos : 0 ≤ valueOf finish - valueOf start := by linarith
  by_cases hlate : 2 ^ 52 * 2 ^ greatestExponent ≤ valueOf start
  · -- Floats this large are so far apart that their differences are exact.
    obtain ⟨left, hr, hleft⟩ := exists_left hs hlate
    have hroom : |valueOf finish - valueOf start| ≤ left * 2 ^ greatestExponent := by
      rw [abs_of_nonneg hpos, hleft]
      linarith
    obtain ⟨hfinite, hbound, hsign⟩ := hdiff _ _ hr hroom
    have hd := hsign hpos
    rw [abs_of_nonneg hd] at hbound
    exact ⟨left, hr, hfinite, hd, by linarith, by rw [hleft]; linarith⟩
  · rw [not_le] at hlate
    have hroom : |valueOf finish - valueOf start| ≤ greatest := by
      rw [abs_of_nonneg hpos]
      linarith
    obtain ⟨hfinite, hbound, hsign⟩ := hdiff _ _ inRange_greatest hroom
    have hd := hsign hpos
    rw [abs_of_nonneg hd] at hbound
    refine ⟨2 ^ 51, ⟨by decide, by decide, le_rfl⟩, hfinite, hd, ?_, ?_⟩
    · push_cast at hbound ⊢
      linarith
    · unfold greatest
      push_cast
      linarith

/-- The fade is finite, and so is the time at which it ends. -/
theorem fadeDuration_spec (hs : start.isFinite = true) (hf : finish.isFinite = true) (h0 : 0 ≤ valueOf start)
    (hlt : valueOf start < valueOf finish) (hc : configured.isFinite = true) :
    (fadeDuration start finish configured).isFinite = true ∧
      0 ≤ valueOf (fadeDuration start finish configured) ∧
      valueOf start + valueOf (fadeDuration start finish configured) ≤ greatest := by
  obtain ⟨bound, hr, hd, hd0, hquarter, hroom⟩ := exists_room hs hf h0 hlt
  have hle : |valueOf (finish - start) / 4| ≤ bound * 2 ^ greatestExponent := by
    rwa [abs_of_nonneg (by linarith)]
  obtain ⟨hq, hbound, -⟩ := roundsTo_quarter hd _ _ hr hle
  obtain ⟨hl, -, hlq⟩ := lesser_spec hc hq
  obtain ⟨hp, hvalue⟩ := positivePart_spec hl
  have hU : (0 : ℚ) ≤ bound * 2 ^ greatestExponent := by positivity
  refine ⟨hp, ?_, ?_⟩
  · change 0 ≤ valueOf (Scalar.positivePart (lesser configured ((finish - start) / Scalar.ofNat 4)))
    rw [hvalue]
    exact le_max_left _ _
  · change _ + valueOf (Scalar.positivePart (lesser configured ((finish - start) / Scalar.ofNat 4))) ≤ _
    rw [hvalue]
    have := max_le hU (hlq.trans (le_of_abs_le hbound))
    linarith

theorem isFinite_trapezoid (hs : start.isFinite = true) (hf : finish.isFinite = true) (h0 : 0 ≤ valueOf start)
    (hlt : valueOf start < valueOf finish) (hc : configured.isFinite = true) :
    (start + fadeDuration start finish configured).isFinite = true ∧
      (finish - fadeDuration start finish configured).isFinite = true := by
  obtain ⟨hfade, hfade0, hsum⟩ := fadeDuration_spec hs hf h0 hlt hc
  have hle := valueOf_le_greatest hf
  constructor
  · refine (roundsTo_add hs hfade).isFinite ?_
    rwa [abs_of_nonneg (by linarith)]
  · refine (roundsTo_sub hf hfade).isFinite ?_
    rw [abs_le]
    constructor <;> linarith

end Timing

end OpenCaptions
