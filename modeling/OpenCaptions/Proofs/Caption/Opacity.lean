import OpenCaptions.Proofs.Caption.Fading
import OpenCaptions.Proofs.Expr.Literals

/-!
The opacity of a caption as a formula. All of its literals are finite, and it is neither long nor deep, so it is
read back whatever the times of the caption are.
-/
namespace OpenCaptions

open Number Text

theorem Caption.timing_eq_ok {α : Type} [Scalar α] {c : Caption α} {animation : Animation} {base : Expr α}
    {configured : α} {timing : Timing α} (h : c.timing animation base configured = .ok timing) :
    c.validate = .ok () ∧
      timing.opacity = Timing.trapezoid c.start c.finish (Timing.fadeDuration c.start c.finish configured) := by
  unfold Caption.timing at h
  cases hv : c.validate with
  | error e =>
    rw [hv] at h
    cases h
  | ok u =>
    rw [hv] at h
    cases h
    exact ⟨rfl, rfl⟩

namespace Timing

section Literals

variable {α : Type} [Scalar α] {start finish fade : α}

theorem forall_trapezoid {p : α → Prop} (hzero : p (Scalar.ofNat 0)) (hone : p (Scalar.ofNat 1))
    (hstart : p start) (hfinish : p finish) (hfade : p fade) (hrise : p (start + fade))
    (hfall : p (finish - fade)) : (trapezoid start finish fade).Forall p := by
  unfold trapezoid
  split
  · exact ⟨⟨trivial, hstart⟩, hzero, ⟨trivial, hfinish⟩, hone, hzero⟩
  · exact ⟨⟨trivial, hstart⟩, hzero, ⟨trivial, hrise⟩, ⟨hone, ⟨trivial, hstart⟩, hfade⟩, ⟨trivial, hfall⟩, hone,
      ⟨trivial, hfinish⟩, ⟨hone, ⟨hfinish, trivial⟩, hfade⟩, hzero⟩

theorem deepness_trapezoid (start finish fade : α) :
    (trapezoid start finish fade).deepness ≤ deepestFormula := by
  have hlimit : deepestFormula = 64 := rfl
  unfold trapezoid
  split
  all_goals
    simp only [Expr.choose, Expr.less, Expr.smaller, Expr.sub, Expr.div, Expr.nat, Expr.time, Expr.deepness]
    omega

end Literals

variable {start finish fade : Float}

theorem weight_trapezoid (hstart : start.isFinite = true) (hfinish : finish.isFinite = true)
    (hfade : fade.isFinite = true) (hrise : (start + fade).isFinite = true)
    (hfall : (finish - fade).isFinite = true) :
    (trapezoid start finish fade).weight ≤ longestFormula := by
  have hzero : Utf8.size (Written.text (Scalar.ofNat 0 : Float)) = 1 := by decide +kernel
  have hone : Utf8.size (Written.text (Scalar.ofNat 1 : Float)) = 1 := by decide +kernel
  have h1 := Literal.size_text_le hstart
  have h2 := Literal.size_text_le hfinish
  have h3 := Literal.size_text_le hfade
  have h4 := Literal.size_text_le hrise
  have h5 := Literal.size_text_le hfall
  have hlimit : longestFormula = 4096 := rfl
  unfold trapezoid
  split
  all_goals
    simp only [Expr.choose, Expr.less, Expr.smaller, Expr.sub, Expr.div, Expr.nat, Expr.time, Expr.weight, hzero,
      hone]
    omega

end Timing

/-- The opacity of a caption is a formula that can be read, for any times of the caption and any fade. -/
theorem Caption.exists_parse_opacity {c : Caption Float} {animation : Animation} {base : Expr Float}
    {configured : Float} {timing : Timing Float} (h : c.timing animation base configured = .ok timing)
    (hc : configured.isFinite = true) : ∃ e, Expr.parse (α := Float) timing.opacity.chars = .ok e := by
  obtain ⟨hvalid, hopacity⟩ := Caption.timing_eq_ok h
  obtain ⟨hs, hf, h0, hlt⟩ := Caption.validate_eq_ok hvalid
  obtain ⟨hfade, -, -⟩ := Timing.fadeDuration_spec hs hf h0 hlt hc
  obtain ⟨hrise, hfall⟩ := Timing.isFinite_trapezoid hs hf h0 hlt hc
  have hone : (Scalar.ofNat 1 : Float).isFinite = true := by decide
  rw [hopacity]
  exact ⟨_, Expr.parse_chars_eq_ok (Timing.forall_trapezoid zero_spec.1 hone hs hf hfade hrise hfall)
    (Timing.weight_trapezoid hs hf hfade hrise hfall) (Timing.deepness_trapezoid _ _ _)⟩

end OpenCaptions
