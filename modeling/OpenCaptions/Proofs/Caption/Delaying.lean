import OpenCaptions.Caption.Timing
import OpenCaptions.Expr.Eval
import OpenCaptions.Proofs.Number.Clamping

/-!
Captions on another clock. In exact arithmetic the opacity and the movement of a caption depend only on how far
the time is from that of the caption, so both go along when the caption is put off.
-/
namespace OpenCaptions

def Env.later (env : Env Rat) (delay : Rat) : Env Rat := { env with time := env.time + delay }

namespace Expr

def mentions {α : Type} (name : Variable) : Expr α → Bool
  | .number _ => false
  | .var other => other = name
  | .negate operand => operand.mentions name
  | .binary _ left right => left.mentions name || right.mentions name
  | .apply2 _ a b => a.mentions name || b.mentions name
  | .apply3 _ a b c => a.mentions name || b.mentions name || c.mentions name

/-- The second formula has, after a delay, the values that the first one has without. -/
def IsDelayed (delay : Rat) (e e' : Expr Rat) : Prop := ∀ env, e.eval env = e'.eval (env.later delay)

namespace IsDelayed

variable {delay : Rat} {a b c a' b' c' : Expr Rat}

theorem number (value : Rat) : IsDelayed delay (.number value) (.number value) := fun _ => rfl

theorem negate (h : IsDelayed delay a a') : IsDelayed delay (.negate a) (.negate a') := by
  intro env
  rw [eval, eval, h]

theorem binary (operator : Operator) (ha : IsDelayed delay a a') (hb : IsDelayed delay b b') :
    IsDelayed delay (.binary operator a b) (.binary operator a' b') := by
  intro env
  rw [eval, eval, ha, hb]

theorem apply2 (function : BinaryFunction) (ha : IsDelayed delay a a') (hb : IsDelayed delay b b') :
    IsDelayed delay (.apply2 function a b) (.apply2 function a' b') := by
  intro env
  rw [eval, eval, ha, hb]

theorem apply3 (function : TernaryFunction) (ha : IsDelayed delay a a') (hb : IsDelayed delay b b')
    (hc : IsDelayed delay c c') : IsDelayed delay (.apply3 function a b c) (.apply3 function a' b' c') := by
  intro env
  rw [eval, eval, ha, hb, hc]

theorem of_untimed {e : Expr Rat} (h : e.mentions .time = false) : IsDelayed delay e e := by
  induction e with
  | number value => exact number value
  | var name =>
    cases name with
    | time => cases h
    | _ => exact fun _ => rfl
  | negate operand ih => exact (ih h).negate
  | binary operator left right ihl ihr =>
    obtain ⟨hl, hr⟩ := Bool.or_eq_false_iff.1 h
    exact (ihl hl).binary operator (ihr hr)
  | apply2 function a b iha ihb =>
    obtain ⟨ha, hb⟩ := Bool.or_eq_false_iff.1 h
    exact (iha ha).apply2 function (ihb hb)
  | apply3 function a b c iha ihb ihc =>
    obtain ⟨hab, hc⟩ := Bool.or_eq_false_iff.1 h
    obtain ⟨ha, hb⟩ := Bool.or_eq_false_iff.1 hab
    exact (iha ha).apply3 function (ihb hb) (ihc hc)

theorem before (limit : Rat) : IsDelayed delay (.less .time (.number limit)) (.less .time (.number (limit + delay))) := by
  intro env
  change truth (decide (env.time < limit)) = truth (decide (env.time + delay < limit + delay))
  rw [decide_eq_decide.2 (add_lt_add_iff_right delay)]

theorem since (start : Rat) : IsDelayed delay (.sub .time (.number start)) (.sub .time (.number (start + delay))) := by
  intro env
  change env.time - start = env.time + delay - (start + delay)
  ring

theorem till (finish : Rat) : IsDelayed delay (.sub (.number finish) .time) (.sub (.number (finish + delay)) .time) := by
  intro env
  change finish - env.time = finish + delay - (env.time + delay)
  ring

end IsDelayed

end Expr

namespace Timing

open OpenCaptions.Expr (IsDelayed)

variable {delay start finish fade : Rat} {base base' : Expr Rat}

theorem fadeDuration_delayed (delay start finish configured : Rat) :
    fadeDuration (start + delay) (finish + delay) configured = fadeDuration start finish configured := by
  have hduration : finish + delay - (start + delay) = finish - start := by ring
  rw [fadeDuration, fadeDuration, hduration]

theorem isDelayed_trapezoid (delay start finish fade : Rat) :
    IsDelayed delay (trapezoid start finish fade) (trapezoid (start + delay) (finish + delay) fade) := by
  have hzero : IsDelayed delay (.nat 0) (.nat 0) := .number _
  have hone : IsDelayed delay (.nat 1) (.nat 1) := .number _
  unfold trapezoid
  split
  · exact .apply3 _ (.before start) hzero (.apply3 _ (.before finish) hone hzero)
  · have hrise : start + delay + fade = start + fade + delay := by ring
    have hfall : finish + delay - fade = finish - fade + delay := by ring
    have hsince : IsDelayed delay (.sub .time (.number start)) (.sub .time (.number (start + delay))) := .since start
    have htill : IsDelayed delay (.sub (.number finish) .time) (.sub (.number (finish + delay)) .time) := .till finish
    have hin := hsince.binary .div (.number fade)
    have hout := htill.binary .div (.number fade)
    rw [hrise, hfall]
    exact .apply3 _ (.before start) hzero (.apply3 _ (.before (start + fade)) (.apply2 _ hone hin)
      (.apply3 _ (.before (finish - fade)) hone
        (.apply3 _ (.before finish) (.apply2 _ hone hout) hzero)))

theorem isDelayed_entryProgress (delay start fade : Rat) :
    IsDelayed delay (entryProgress start fade) (entryProgress (start + delay) fade) :=
  .apply2 _ (.number _) ((IsDelayed.since start).binary .div (.number fade))

theorem isDelayed_riseFromBelow (h : IsDelayed delay base base') :
    IsDelayed delay (riseFromBelow base start fade) (riseFromBelow base' (start + delay) fade) := by
  have hend : start + delay + fade = start + fade + delay := by ring
  have hmoving := (h.binary .add (.number slideDistance)).binary .sub
    ((IsDelayed.number slideDistance).binary .mul (isDelayed_entryProgress delay start fade))
  rw [riseFromBelow, riseFromBelow, hend]
  exact .apply3 _ (.before (start + fade)) hmoving h

theorem isDelayed_slideFromTop (h : IsDelayed delay base base') :
    IsDelayed delay (slideFromTop base start fade) (slideFromTop base' (start + delay) fade) := by
  have hend : start + delay + fade = start + fade + delay := by ring
  have hmoving := (IsDelayed.number slideDistance).binary .add
    ((isDelayed_entryProgress delay start fade).binary .mul (h.binary .sub (.number slideDistance)))
  rw [slideFromTop, slideFromTop, hend]
  exact .apply3 _ (.before (start + fade)) hmoving h

end Timing

namespace Caption

variable {c : Caption Rat}

theorem validate_rat_iff : c.validate = .ok () ↔ 0 ≤ c.start ∧ c.start < c.finish := by
  have hzero : ((0 : Nat) : Rat) = 0 := Nat.cast_zero
  change (if (decide (c.start < ((0 : Nat) : Rat)) || decide (c.finish ≤ c.start)) = true then _ else _) = _ ↔ _
  rw [hzero]
  split
  · rename_i h
    simp only [Bool.or_eq_true, decide_eq_true_eq] at h
    constructor
    · intro h'
      cases h'
    · rintro ⟨hstart, hfinish⟩
      exact absurd h (not_or.2 ⟨not_lt.2 hstart, not_le.2 hfinish⟩)
  · rename_i h
    simp only [Bool.or_eq_true, decide_eq_true_eq, not_or, not_lt, not_le] at h
    exact iff_of_true rfl h

def delayed (c : Caption Rat) (delay : Rat) : Caption Rat :=
  { c with start := c.start + delay, finish := c.finish + delay }

/-- A caption that is rebased to its start is the caption that is put off by its start to give the caption again. -/
theorem delayed_rebased (c : Caption Rat) : (c.rebased c.start).delayed c.start = c := by
  have hstart : (c.rebased c.start).start = 0 := by
    change Scalar.positivePart (c.start - c.start) = 0
    rw [positivePart_rat, sub_self, max_self]
  have hfinish : (c.rebased c.start).finish = c.finish - c.start := rfl
  rw [delayed, hstart, hfinish, zero_add, sub_add_cancel]
  rfl

theorem validate_rebased (h : c.validate = .ok ()) : (c.rebased c.start).validate = .ok () := by
  rw [validate_rat_iff] at h ⊢
  change 0 ≤ Scalar.positivePart (c.start - c.start) ∧ Scalar.positivePart (c.start - c.start) < c.finish - c.start
  rw [positivePart_rat, sub_self, max_self]
  exact ⟨le_rfl, sub_pos.2 h.2⟩

/-- What is animated about a caption goes along when the caption is put off. -/
theorem timing_delayed {delay : Rat} (animation : Animation) {base : Expr Rat} (configured : Rat)
    (h : c.validate = .ok ()) (h' : (c.delayed delay).validate = .ok ()) (hbase : base.mentions .time = false) :
    ∃ timing timing', c.timing animation base configured = .ok timing ∧
      (c.delayed delay).timing animation base configured = .ok timing' ∧
      Expr.IsDelayed delay timing.opacity timing'.opacity ∧
      Expr.IsDelayed delay (timing.position.getD base) (timing'.position.getD base) := by
  have hfade : Timing.fadeDuration (c.delayed delay).start (c.delayed delay).finish configured =
      Timing.fadeDuration c.start c.finish configured := Timing.fadeDuration_delayed _ _ _ _
  have hrest : Expr.IsDelayed delay base base := .of_untimed hbase
  unfold timing
  rw [h, h', hfade]
  refine ⟨_, _, rfl, rfl, Timing.isDelayed_trapezoid _ _ _ _, ?_⟩
  dsimp only
  split
  · exact hrest
  · cases animation with
    | fadeInBottom => exact Timing.isDelayed_riseFromBelow hrest
    | slideFromTop => exact Timing.isDelayed_slideFromTop hrest
    | appear => exact hrest
    | fadeIn => exact hrest

end Caption

end OpenCaptions
