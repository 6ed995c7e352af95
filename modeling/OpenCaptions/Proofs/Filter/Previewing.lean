import OpenCaptions.Proofs.Caption.Delaying
import OpenCaptions.Proofs.Filter.Drawn

/-!
Previews. A caption on a clock of its own is drawn by the filters that draw it in the whole video, but for
positions and opacities that have there, after the start of the caption, the values that they have here.
-/
namespace OpenCaptions

def timedOptions : List String := ["y", "alpha"]

/-- One option of a filter and of the filter that is put off. A timed one goes along, any other is the same. -/
inductive OptionDelayed (delay : Rat) : String × OptionValue Rat → String × OptionValue Rat → Prop
  | timed {key : String} {e e' : Expr Rat} (hk : key ∈ timedOptions) (h : e.IsDelayed delay e') :
    OptionDelayed delay (key, .formula e) (key, .formula e')
  | untimed {key : String} (hk : key ∉ timedOptions) (value : OptionValue Rat) :
    OptionDelayed delay (key, value) (key, value)

/-- A filter and the filter that is put off: the same name, and the same options in the same order. -/
structure Operation.IsDelayed (delay : Rat) (op op' : Operation Rat) : Prop where
  name : op.name = op'.name
  options : List.Forall₂ (OptionDelayed delay) op.options op'.options

namespace Drawtext

variable {delay : Rat} {c c' : Caption Rat} {style : Style Rat} {color : String} {x y y' opacity opacity' : Expr Rat}

theorem optionDelayed_font (delay : Rat) (font : FontChoice) :
    OptionDelayed delay (fontOption font) (fontOption font) := by
  cases font <;> exact .untimed (by decide) _

theorem forall₂_boxOptions (delay : Rat) (box : Option (BoxStyle Rat)) :
    List.Forall₂ (OptionDelayed delay) (boxOptions box) (boxOptions box) := by
  cases box with
  | none => exact .nil
  | some box => exact .cons (.untimed (by decide) _) (.cons (.untimed (by decide) _) (.cons (.untimed (by decide) _) .nil))

theorem isDelayed_pass (htext : c.text = c'.text) (hy : y.IsDelayed delay y')
    (ho : opacity.IsDelayed delay opacity') {box : List (String × OptionValue Rat)}
    (hbox : List.Forall₂ (OptionDelayed delay) box box) :
    (pass c style color x y box opacity).IsDelayed delay (pass c' style color x y' box opacity') where
  name := rfl
  options := by
    have hplace : List.Forall₂ (OptionDelayed delay)
        [textOption c.text, fontOption style.font, ("fontsize", .number style.size), ("fontcolor", .word color),
          ("x", .formula x), ("y", .formula y)]
        [textOption c'.text, fontOption style.font, ("fontsize", .number style.size), ("fontcolor", .word color),
          ("x", .formula x), ("y", .formula y')] := by
      rw [htext]
      exact .cons (.untimed (by decide) _) (.cons (optionDelayed_font delay _) (.cons (.untimed (by decide) _)
        (.cons (.untimed (by decide) _) (.cons (.untimed (by decide) _) (.cons (.timed (by decide) hy) .nil)))))
    exact List.rel_append (List.rel_append hplace hbox) (.cons (.timed (by decide) ho) .nil)

private theorem isDelayed_offset (h : y.IsDelayed delay y') (distance : Rat) :
    (offset y distance).IsDelayed delay (offset y' distance) := by
  unfold offset
  split
  · exact h.binary .sub (.number _)
  · exact h.binary .add (.number _)

private theorem forall₂_outlinePasses (htext : c.text = c'.text) (hy : y.IsDelayed delay y')
    (ho : opacity.IsDelayed delay opacity') :
    List.Forall₂ (Operation.IsDelayed delay) (outlinePasses c style y opacity)
      (outlinePasses c' style y' opacity') := by
  unfold outlinePasses
  cases style.outline with
  | none => exact .nil
  | some outline =>
    rw [List.forall₂_map_left_iff, List.forall₂_map_right_iff, List.forall₂_same]
    rintro ⟨dx, dy⟩ -
    exact isDelayed_pass htext (isDelayed_offset hy dy) ho .nil

end Drawtext

/-- The filters of a caption go along when the caption is put off. -/
theorem Caption.draw_delayed {c : Caption Rat} {delay : Rat} {style : Style Rat} {fade : Rat} (hc : c.validate = .ok ())
    (hc' : (c.delayed delay).validate = .ok ()) (hy : style.y.mentions .time = false) (hf : 0 ≤ fade) :
    (c.draw style fade).degraded = none ∧ ((c.delayed delay).draw style fade).degraded = none ∧
      List.Forall₂ (Operation.IsDelayed delay) (c.draw style fade).operations
        ((c.delayed delay).draw style fade).operations := by
  have hn : Scalar.lt fade (Scalar.ofNat 0) = false := decide_eq_false (not_lt.2 (Nat.cast_zero.trans_le hf))
  obtain ⟨timing, timing', ht, ht', hopacity, hheight⟩ := Caption.timing_delayed style.animation fade hc hc' hy
  rw [Drawtext.draw_of_timing rfl hn ht, Drawtext.draw_of_timing rfl hn ht']
  refine ⟨rfl, rfl, List.rel_append (Drawtext.forall₂_outlinePasses rfl hheight hopacity) ?_⟩
  exact .cons (Drawtext.isDelayed_pass rfl hheight hopacity (Drawtext.forall₂_boxOptions delay _)) .nil

/-- A preview has the filters of the whole video: the same options with the same values, but for vertical positions
and opacities, which have at each time the values that those of the whole video have as long after the start of the
caption. -/
theorem Caption.preview_draws_alike {c : Caption Rat} {style : Style Rat} {fade : Rat} (hc : c.validate = .ok ())
    (hy : style.y.mentions .time = false) (hf : 0 ≤ fade) :
    ((c.rebased c.start).draw style fade).degraded = none ∧ (c.draw style fade).degraded = none ∧
      List.Forall₂ (Operation.IsDelayed c.start) ((c.rebased c.start).draw style fade).operations
        (c.draw style fade).operations := by
  have hlater : ((c.rebased c.start).delayed c.start).validate = .ok () := by rwa [c.delayed_rebased]
  have h := Caption.draw_delayed (c.validate_rebased hc) hlater hy hf
  rwa [c.delayed_rebased] at h

def Style.sliding : Style Rat where
  font := .standard defaultFont
  size := defaultSize
  color := defaultColor
  x := Style.defaultX
  y := .div (.sub (.var .frameHeight) (.var .textHeight)) (.nat 2)
  animation := .slideFromTop
  background := some ⟨"black", 1 / 2⟩
  outline := some ⟨"black", 2⟩
  notes := []

def Caption.glimpse : Caption Rat := ⟨2, 3, "a", "p", none, false⟩

theorem Caption.preview_draws_alike_sliding :
    Caption.glimpse.validate = .ok () ∧ Style.sliding.y.mentions .time = false ∧ (0 : Rat) ≤ 1 / 2 ∧
      ((Caption.glimpse.rebased Caption.glimpse.start).draw .sliding (1 / 2)).degraded = none ∧
      (Caption.glimpse.draw .sliding (1 / 2)).degraded = none ∧
      List.Forall₂ (Operation.IsDelayed 2)
        ((Caption.glimpse.rebased Caption.glimpse.start).draw .sliding (1 / 2)).operations
        (Caption.glimpse.draw .sliding (1 / 2)).operations := by
  have hc : Caption.glimpse.validate = .ok () := Caption.validate_rat_iff.2 (by norm_num [Caption.glimpse])
  have hf : (0 : Rat) ≤ 1 / 2 := by norm_num
  exact ⟨hc, rfl, hf, Caption.preview_draws_alike hc rfl hf⟩

end OpenCaptions
