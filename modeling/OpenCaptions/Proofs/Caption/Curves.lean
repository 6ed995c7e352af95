import OpenCaptions.Proofs.Caption.Delaying

/-!
Opacity and movement of a caption as curves. In exact arithmetic the opacity is a trapezoid over the time of the
caption, and a moving caption goes straight from where it enters to where it rests.
-/
namespace OpenCaptions

namespace Expr

variable {env : Env Rat} {a b yes no : Expr Rat}

@[simp] theorem eval_number (value : Rat) : (number value).eval env = value := rfl

@[simp] theorem eval_nat (n : Nat) : (nat n).eval env = (n : Rat) := rfl

@[simp] theorem eval_time : (time : Expr Rat).eval env = env.time := rfl

@[simp] theorem eval_add : (add a b).eval env = a.eval env + b.eval env := rfl

@[simp] theorem eval_sub : (sub a b).eval env = a.eval env - b.eval env := rfl

@[simp] theorem eval_mul : (mul a b).eval env = a.eval env * b.eval env := rfl

@[simp] theorem eval_div : (div a b).eval env = a.eval env / b.eval env := rfl

@[simp] theorem eval_smaller : (smaller a b).eval env = min (a.eval env) (b.eval env) := by
  change (if b.eval env < a.eval env then b.eval env else a.eval env) = _
  by_cases h : b.eval env < a.eval env
  · rw [if_pos h, min_eq_right h.le]
  · rw [if_neg h, min_eq_left (not_lt.1 h)]

@[simp] theorem eval_larger : (larger a b).eval env = max (a.eval env) (b.eval env) := by
  change (if a.eval env < b.eval env then b.eval env else a.eval env) = _
  by_cases h : a.eval env < b.eval env
  · rw [if_pos h, max_eq_right h.le]
  · rw [if_neg h, max_eq_left (not_lt.1 h)]

@[simp] theorem eval_choose_less : (choose (less a b) yes no).eval env =
    if a.eval env < b.eval env then yes.eval env else no.eval env := by
  change (if decide (truth (decide (a.eval env < b.eval env)) = ((0 : Nat) : Rat)) = true then _ else _) = _
  by_cases h : a.eval env < b.eval env
  · have htruth : (truth (decide (a.eval env < b.eval env)) : Rat) = ((1 : Nat) : Rat) := by rw [decide_eq_true h]; rfl
    rw [htruth, if_neg (by simp), if_pos h]
  · have htruth : (truth (decide (a.eval env < b.eval env)) : Rat) = ((0 : Nat) : Rat) := by rw [decide_eq_false h]; rfl
    rw [htruth, if_pos (by simp), if_neg h]

end Expr

namespace Timing

variable {start finish fade time : Rat}

theorem isSudden_rat : isSudden fade = decide (fade ≤ 0) := by
  change decide (fade ≤ ((0 : Nat) : Rat)) = _
  rw [Nat.cast_zero]

theorem fadeDuration_rat (start finish configured : Rat) :
    fadeDuration start finish configured = max 0 (min configured ((finish - start) / 4)) := by
  have hmin : Scalar.min configured ((finish - start) / ((4 : Nat) : Rat)) = min configured ((finish - start) / 4) := by
    change (if (finish - start) / ((4 : Nat) : Rat) < configured then _ else configured) = _
    rw [Nat.cast_ofNat]
    by_cases h : (finish - start) / 4 < configured
    · rw [if_pos h, min_eq_right h.le]
    · rw [if_neg h, min_eq_left (not_lt.1 h)]
  change Scalar.positivePart (Scalar.min configured ((finish - start) / ((4 : Nat) : Rat))) = _
  rw [hmin, positivePart_rat]

/-- A fade takes at most a quarter of a caption. -/
theorem fadeDuration_bounds (h : start < finish) (configured : Rat) :
    0 ≤ fadeDuration start finish configured ∧ fadeDuration start finish configured ≤ (finish - start) / 4 := by
  rw [fadeDuration_rat]
  constructor
  · exact le_max_left _ _
  · apply max_le
    · linarith
    · exact min_le_right _ _

/-- The opacity that rises for `fade` behind the start and falls for `fade` before the end. -/
def envelope (start finish fade time : Rat) : Rat :=
  max 0 (min 1 (min ((time - start) / fade) ((finish - time) / fade)))

theorem envelope_mem : 0 ≤ envelope start finish fade time ∧ envelope start finish fade time ≤ 1 := by
  constructor
  · exact le_max_left _ _
  · exact max_le zero_le_one (min_le_left _ _)

theorem envelope_of_le (hf : 0 < fade) (h : time ≤ start ∨ finish ≤ time) : envelope start finish fade time = 0 := by
  apply max_eq_left
  apply (min_le_right _ _).trans
  rcases h with h | h
  · apply (min_le_left _ _).trans
    exact div_nonpos_of_nonpos_of_nonneg (by linarith) hf.le
  · apply (min_le_right _ _).trans
    exact div_nonpos_of_nonpos_of_nonneg (by linarith) hf.le

theorem envelope_of_between (hf : 0 < fade) (h : start + fade ≤ time) (h' : time ≤ finish - fade) :
    envelope start finish fade time = 1 := by
  have hrise : 1 ≤ (time - start) / fade := (one_le_div hf).2 (by linarith)
  have hfall : 1 ≤ (finish - time) / fade := (one_le_div hf).2 (by linarith)
  rw [envelope, min_eq_left (le_min hrise hfall), max_eq_right zero_le_one]

/-- The formula of a gradual opacity. The two fades do not meet, so at most one of its slopes is below one. -/
theorem eval_trapezoid (hf : 0 < fade) (hroom : fade ≤ (finish - start) / 4) (env : Env Rat) :
    (trapezoid start finish fade).eval env = envelope start finish fade env.time := by
  have hgradual : ¬ isSudden fade = true := by rw [isSudden_rat]; simpa using hf
  rw [trapezoid, if_neg hgradual]
  simp only [Expr.eval_choose_less, Expr.eval_smaller, Expr.eval_div, Expr.eval_sub, Expr.eval_time, Expr.eval_number,
    Expr.eval_nat, Nat.cast_zero, Nat.cast_one]
  by_cases hstart : env.time < start
  · rw [if_pos hstart, envelope_of_le hf (.inl hstart.le)]
  rw [if_neg hstart]
  by_cases hrisen : env.time < start + fade
  · have hrise : 0 ≤ (env.time - start) / fade := div_nonneg (by linarith) hf.le
    have hfall : (env.time - start) / fade ≤ (finish - env.time) / fade :=
      div_le_div_of_nonneg_right (by linarith) hf.le
    rw [if_pos hrisen, envelope, min_eq_left hfall, max_eq_right (le_min zero_le_one hrise)]
  rw [if_neg hrisen]
  by_cases hfalling : env.time < finish - fade
  · rw [if_pos hfalling, envelope_of_between hf (not_lt.1 hrisen) hfalling.le]
  rw [if_neg hfalling]
  by_cases hfinish : env.time < finish
  · have hfall : 0 ≤ (finish - env.time) / fade := div_nonneg (by linarith) hf.le
    have hrise : (finish - env.time) / fade ≤ (env.time - start) / fade :=
      div_le_div_of_nonneg_right (by linarith) hf.le
    rw [if_pos hfinish, envelope, min_eq_right hrise, max_eq_right (le_min zero_le_one hfall)]
  · rw [if_neg hfinish, envelope_of_le hf (.inr (not_lt.1 hfinish))]

theorem eval_trapezoid_sudden (start finish : Rat) (env : Env Rat) :
    (trapezoid start finish 0).eval env = if start ≤ env.time ∧ env.time < finish then 1 else 0 := by
  have hsudden : isSudden (0 : Rat) = true := by rw [isSudden_rat]; simp
  rw [trapezoid, if_pos hsudden]
  simp only [Expr.eval_choose_less, Expr.eval_time, Expr.eval_number, Expr.eval_nat, Nat.cast_zero, Nat.cast_one]
  by_cases hstart : env.time < start
  · rw [if_pos hstart, if_neg (fun h => absurd h.1 (not_le.2 hstart))]
  · simp only [hstart, not_lt.1 hstart, if_false, true_and]

/-- Share of the way of a moving caption that is behind it at a time. -/
def progress (start fade time : Rat) : Rat := max 0 (min 1 ((time - start) / fade))

theorem progress_of_le (hf : 0 < fade) (h : time ≤ start) : progress start fade time = 0 := by
  apply max_eq_left
  apply (min_le_right _ _).trans
  exact div_nonpos_of_nonpos_of_nonneg (by linarith) hf.le

theorem progress_of_ge (hf : 0 < fade) (h : start + fade ≤ time) : progress start fade time = 1 := by
  have hrise : 1 ≤ (time - start) / fade := (one_le_div hf).2 (by linarith)
  rw [progress, min_eq_left hrise, max_eq_right zero_le_one]

theorem progress_of_lt (hf : 0 < fade) (h : time < start + fade) :
    progress start fade time = max 0 ((time - start) / fade) := by
  have hrise : (time - start) / fade ≤ 1 := (div_le_one hf).2 (by linarith)
  rw [progress, min_eq_right hrise]

@[fun_prop]
theorem continuous_progress (start fade : Rat) : Continuous (progress start fade) := by
  unfold progress
  fun_prop

theorem eval_entryProgress (env : Env Rat) :
    (entryProgress start fade).eval env = max 0 ((env.time - start) / fade) := by
  rw [entryProgress, Expr.eval_larger, Expr.eval_nat, Nat.cast_zero]
  rfl

theorem slideDistance_rat : (slideDistance : Rat) = 50 := Nat.cast_ofNat

theorem eval_riseFromBelow (hf : 0 < fade) (base : Expr Rat) (env : Env Rat) :
    (riseFromBelow base start fade).eval env = base.eval env + 50 * (1 - progress start fade env.time) := by
  simp only [riseFromBelow, Expr.eval_choose_less, Expr.eval_sub, Expr.eval_add, Expr.eval_mul, Expr.eval_time,
    Expr.eval_number, eval_entryProgress, slideDistance_rat]
  by_cases h : env.time < start + fade
  · rw [if_pos h, progress_of_lt hf h]
    ring
  · rw [if_neg h, progress_of_ge hf (not_lt.1 h)]
    ring

theorem eval_slideFromTop (hf : 0 < fade) (base : Expr Rat) (env : Env Rat) :
    (slideFromTop base start fade).eval env = 50 + progress start fade env.time * (base.eval env - 50) := by
  simp only [slideFromTop, Expr.eval_choose_less, Expr.eval_sub, Expr.eval_add, Expr.eval_mul, Expr.eval_time,
    Expr.eval_number, eval_entryProgress, slideDistance_rat]
  by_cases h : env.time < start + fade
  · rw [if_pos h, progress_of_lt hf h]
  · rw [if_neg h, progress_of_ge hf (not_lt.1 h)]
    ring

end Timing

def Env.atTime (env : Env Rat) (time : Rat) : Env Rat := { env with time }

namespace Caption

variable {c : Caption Rat}

/-- What is animated about a caption that can be drawn. Only two animations move, and only over a fade. -/
theorem timing_of_validate {α : Type} [Scalar α] {c : Caption α} (h : c.validate = .ok ()) (animation : Animation)
    (base : Expr α) (configured : α) : ∃ timing, c.timing animation base configured = .ok timing ∧
      timing.fade = Timing.fadeDuration c.start c.finish configured ∧
      timing.opacity = Timing.trapezoid c.start c.finish timing.fade ∧
      ∀ y, timing.position = some y ↔ Timing.isSudden timing.fade = false ∧
        (animation = .fadeInBottom ∧ y = Timing.riseFromBelow base c.start timing.fade ∨
          animation = .slideFromTop ∧ y = Timing.slideFromTop base c.start timing.fade) := by
  unfold timing
  rw [h]
  refine ⟨_, rfl, rfl, rfl, fun y => ?_⟩
  dsimp only
  cases Timing.isSudden (Timing.fadeDuration c.start c.finish configured) with
  | true => simp
  | false => cases animation <;> simp [eq_comm]

/-- The opacity of a caption is a trapezoid, or a step if there is no fade. -/
theorem opacity_is_trapezoid (hstart : 0 ≤ c.start) (hlt : c.start < c.finish) (animation : Animation)
    (base : Expr Rat) (configured : Rat) :
    ∃ timing, c.timing animation base configured = .ok timing ∧
      timing.fade = Timing.fadeDuration c.start c.finish configured ∧
      0 ≤ timing.fade ∧ timing.fade ≤ (c.finish - c.start) / 4 ∧
      ∀ env : Env Rat,
        (0 < timing.fade → timing.opacity.eval env =
          max 0 (min 1 (min ((env.time - c.start) / timing.fade) ((c.finish - env.time) / timing.fade)))) ∧
        (timing.fade = 0 → timing.opacity.eval env = if c.start ≤ env.time ∧ env.time < c.finish then 1 else 0) ∧
        0 ≤ timing.opacity.eval env ∧ timing.opacity.eval env ≤ 1 ∧
        (env.time < c.start ∨ c.finish ≤ env.time → timing.opacity.eval env = 0) ∧
        (env.time = (c.start + c.finish) / 2 → timing.opacity.eval env = 1) := by
  obtain ⟨timing, htiming, hfade, hopacity, -⟩ :=
    timing_of_validate (validate_rat_iff.2 ⟨hstart, hlt⟩) animation base configured
  obtain ⟨hnonneg, hroom⟩ := Timing.fadeDuration_bounds hlt configured
  rw [← hfade] at hnonneg hroom
  refine ⟨timing, htiming, hfade, hnonneg, hroom, fun env => ?_⟩
  rw [hopacity]
  rcases hnonneg.lt_or_eq with hpos | hzero
  · rw [Timing.eval_trapezoid hpos hroom]
    refine ⟨fun _ => rfl, fun h => absurd h hpos.ne', Timing.envelope_mem.1, Timing.envelope_mem.2, fun h => ?_,
      fun h => ?_⟩
    · exact Timing.envelope_of_le hpos (h.imp_left le_of_lt)
    · exact Timing.envelope_of_between hpos (by linarith) (by linarith)
  · rw [← hzero, Timing.eval_trapezoid_sudden]
    refine ⟨fun h => absurd h (lt_irrefl 0), fun _ => rfl, ?_, ?_, fun h => ?_, fun h => ?_⟩
    · split <;> norm_num
    · split <;> norm_num
    · rw [if_neg]
      rintro ⟨hle, hlt⟩
      exact h.elim (not_lt.2 hle) (not_le.2 hlt)
    · rw [if_pos]
      constructor <;> linarith

def brief : Caption Rat := ⟨2, 3, "a", "p", none, false⟩

theorem brief_fade : Timing.fadeDuration brief.start brief.finish (1 / 2) = 1 / 4 := by
  rw [Timing.fadeDuration_rat]
  norm_num [brief]

/-- In the middle of its first fade a caption is half opaque. -/
theorem opacity_is_trapezoid_brief : 0 ≤ brief.start ∧ brief.start < brief.finish ∧
    ∃ timing, brief.timing .fadeIn (.nat 0) (1 / 2) = .ok timing ∧ timing.fade = 1 / 4 ∧
      timing.opacity.eval ⟨1920, 1080, 0, 0, 17 / 8⟩ = 1 / 2 := by
  have hstart : 0 ≤ brief.start := by norm_num [brief]
  have hlt : brief.start < brief.finish := by norm_num [brief]
  obtain ⟨timing, htiming, hfade, -, -, hopacity⟩ := opacity_is_trapezoid hstart hlt .fadeIn (.nat 0) (1 / 2)
  rw [brief_fade] at hfade
  refine ⟨hstart, hlt, timing, htiming, hfade, ?_⟩
  rw [(hopacity _).1 (by rw [hfade]; norm_num), hfade]
  norm_num [brief]

/-- A moving caption is at each time as far on its way as the time is in the fade, so it enters at one end of the way
and is at rest from the end of the fade on. It makes no jump of its own: where it is depends continuously on the time and
on where it rests. Without a fade, or with another animation, nothing moves. -/
theorem entry_is_straight (hvalid : c.validate = .ok ()) (animation : Animation) (base : Expr Rat) (configured : Rat) :
    ∃ timing, c.timing animation base configured = .ok timing ∧
      timing.fade = Timing.fadeDuration c.start c.finish configured ∧ 0 ≤ timing.fade ∧
      (timing.position = none ↔ timing.fade = 0 ∨ animation = .appear ∨ animation = .fadeIn) ∧
      ∀ y, timing.position = some y →
        (∀ env : Env Rat,
          (animation = .fadeInBottom →
            y.eval env = base.eval env + 50 * (1 - max 0 (min 1 ((env.time - c.start) / timing.fade))) ∧
              (env.time ≤ c.start → y.eval env = base.eval env + 50)) ∧
          (animation = .slideFromTop →
            y.eval env = 50 + max 0 (min 1 ((env.time - c.start) / timing.fade)) * (base.eval env - 50) ∧
              (env.time ≤ c.start → y.eval env = 50)) ∧
          (c.start + timing.fade ≤ env.time → y.eval env = base.eval env)) ∧
        (∃ way : Rat × Rat → Rat, Continuous way ∧ ∀ env, y.eval env = way (env.time, base.eval env)) ∧
        ∀ (env : Env Rat) (time : Rat), ContinuousAt (fun t => base.eval (env.atTime t)) time →
          ContinuousAt (fun t => y.eval (env.atTime t)) time := by
  obtain ⟨timing, htiming, hfade, -, hposition⟩ := timing_of_validate hvalid animation base configured
  have hnonneg : 0 ≤ timing.fade := hfade ▸ (Timing.fadeDuration_bounds (validate_rat_iff.1 hvalid).2 configured).1
  have hgradual : Timing.isSudden timing.fade = false ↔ 0 < timing.fade := by rw [Timing.isSudden_rat]; simp
  refine ⟨timing, htiming, hfade, hnonneg, ?_, fun y hy => ?_⟩
  · rw [Option.eq_none_iff_forall_ne_some]
    simp only [Ne, hposition, hgradual]
    rcases hnonneg.lt_or_eq with hpos | hzero
    · cases animation <;> simp [hpos, hpos.ne']
    · simp [← hzero]
  · obtain ⟨hsudden, hmoves⟩ := (hposition y).1 hy
    have hpos := hgradual.1 hsudden
    have hbefore (env : Env Rat) (h : env.time ≤ c.start) : Timing.progress c.start timing.fade env.time = 0 :=
      Timing.progress_of_le hpos h
    have hbehind (env : Env Rat) (h : c.start + timing.fade ≤ env.time) :
        Timing.progress c.start timing.fade env.time = 1 := Timing.progress_of_ge hpos h
    -- A continuous function of the time and of the place of rest makes no jump of its own.
    suffices hway : _ ∧ ∃ way : Rat × Rat → Rat, Continuous way ∧ ∀ env, y.eval env = way (env.time, base.eval env) by
      obtain ⟨hplaces, way, hcontinuous, heval⟩ := hway
      refine ⟨hplaces, ⟨way, hcontinuous, heval⟩, fun env time hbase => ?_⟩
      simp only [heval]
      exact hcontinuous.continuousAt.comp (continuousAt_id.prodMk hbase)
    rcases hmoves with ⟨rfl, rfl⟩ | ⟨rfl, rfl⟩
    · have heval (env : Env Rat) : (Timing.riseFromBelow base c.start timing.fade).eval env =
          base.eval env + 50 * (1 - Timing.progress c.start timing.fade env.time) :=
        Timing.eval_riseFromBelow hpos base env
      refine ⟨fun env => ⟨fun _ => ⟨heval env, fun h => ?_⟩, nofun, fun h => ?_⟩,
        fun place => place.2 + 50 * (1 - Timing.progress c.start timing.fade place.1), by fun_prop, heval⟩
      · rw [heval, hbefore env h]
        ring
      · rw [heval, hbehind env h]
        ring
    · have heval (env : Env Rat) : (Timing.slideFromTop base c.start timing.fade).eval env =
          50 + Timing.progress c.start timing.fade env.time * (base.eval env - 50) :=
        Timing.eval_slideFromTop hpos base env
      refine ⟨fun env => ⟨nofun, fun _ => ⟨heval env, fun h => ?_⟩, fun h => ?_⟩,
        fun place => 50 + Timing.progress c.start timing.fade place.1 * (place.2 - 50), by fun_prop, heval⟩
      · rw [heval, hbefore env h]
        ring
      · rw [heval, hbehind env h]
        ring

/-- In the middle of its first fade a text that comes down is half way to where it rests. -/
theorem entry_is_straight_brief : brief.validate = .ok () ∧
    ∃ timing y, brief.timing .slideFromTop (.sub (.var .frameHeight) (.nat 100)) (1 / 2) = .ok timing ∧
      timing.position = some y ∧ y.eval ⟨1920, 1080, 0, 0, 17 / 8⟩ = 515 := by
  have hvalid : brief.validate = .ok () := validate_rat_iff.2 (by norm_num [brief])
  obtain ⟨timing, htiming, hfade, -, hnone, hmoves⟩ :=
    entry_is_straight hvalid .slideFromTop (.sub (.var .frameHeight) (.nat 100)) (1 / 2)
  rw [brief_fade] at hfade
  have hsome : timing.position ≠ none := by
    rw [Ne, hnone, hfade]
    simp
  obtain ⟨y, hy⟩ := Option.ne_none_iff_exists'.1 hsome
  refine ⟨hvalid, timing, y, htiming, hy, ?_⟩
  rw [(((hmoves y hy).1 _).2.1 rfl).1, hfade]
  change (50 : Rat) + max 0 (min 1 ((17 / 8 - 2) / (1 / 4))) * (1080 - ((100 : Nat) : Rat) - 50) = 515
  norm_num

end Caption

end OpenCaptions
