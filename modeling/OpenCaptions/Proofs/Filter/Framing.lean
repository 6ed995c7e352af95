import OpenCaptions.Filter.Aspect
import OpenCaptions.Proofs.Number.Clamping

/-!
The sides of a converted frame in exact arithmetic. The frame grows until it has its least sides, and each side is
then rounded to the least even number that covers it. Rounding moves the ratio of the sides by less than two of the
longer unit, and the conversion fails only for frames that are too large.
-/
namespace OpenCaptions.AspectRatio

variable {width height grow side ratio : ℚ} {w h n : ℕ}

theorem max_rat (a b : ℚ) : Scalar.max a b = max a b := by
  change (if a < b then b else a) = max a b
  by_cases h : a < b
  · rw [if_pos h, max_eq_right h.le]
  · rw [if_neg h, max_eq_left (not_lt.1 h)]

/-- The least factor that is at least one and brings both sides to their least sizes. -/
def IsGrowth (width height grow : ℚ) : Prop :=
  IsLeast {g | 1 ≤ g ∧ leastWidth ≤ width * g ∧ leastHeight ≤ height * g} grow

theorem isGrowth_growth (hw : 0 < width) (hh : 0 < height) : IsGrowth width height (growth width height) := by
  have hgrowth : growth width height = max (max (leastWidth / width) (leastHeight / height)) 1 := by
    rw [growth, max_rat, max_rat, ofNat_rat, ofNat_rat, ofNat_rat, Nat.cast_one]
  rw [hgrowth]
  constructor
  · refine ⟨le_max_right _ _, ?_, ?_⟩
    · rw [← div_le_iff₀' hw]
      exact (le_max_left _ _).trans (le_max_left _ _)
    · rw [← div_le_iff₀' hh]
      exact (le_max_right _ _).trans (le_max_left _ _)
  · rintro g ⟨hone, hwidth, hheight⟩
    apply max_le _ hone
    apply max_le
    · exact (div_le_iff₀' hw).2 hwidth
    · exact (div_le_iff₀' hh).2 hheight

/-- The least even number that is at least two and not below a side, up to a millionth. -/
def IsRounded (side : ℚ) (n : ℕ) : Prop :=
  IsLeast {n : ℕ | Even n ∧ 2 ≤ n ∧ side - 1 / 1000000 ≤ n} n

private theorem evenSide_rat (side : ℚ) : evenSide side = 2 * (⌈max (side - 1 / 1000000) 2 / 2⌉ : ℤ) := by
  have hdecimal : (Scalar.ofDecimal 1 6 : ℚ) = 1 / 1000000 := by
    change ((1 : ℕ) : ℚ) / ((10 ^ 6 : ℕ) : ℚ) = 1 / 1000000
    norm_num
  have hceil (a : ℚ) : Scalar.ceil a = ((⌈a⌉ : ℤ) : ℚ) := congrArg Int.cast (Rat.ceil_eq_neg_floor_neg a)
  rw [evenSide, max_rat, ofNat_rat, hdecimal, hceil, Nat.cast_ofNat]

theorem isRounded_evenSide (side : ℚ) : ∃ n : ℕ, evenSide side = n ∧ IsRounded side n := by
  have hone : 1 ≤ ⌈max (side - 1 / 1000000) 2 / 2⌉ := by
    rw [Int.one_le_ceil_iff]
    exact div_pos (lt_max_of_lt_right two_pos) two_pos
  obtain ⟨k, hk⟩ := Int.eq_ofNat_of_zero_le (zero_le_one.trans hone)
  have hcover : max (side - 1 / 1000000) 2 / 2 ≤ (k : ℚ) := by
    have hle := Int.le_ceil (max (side - 1 / 1000000) 2 / 2)
    rwa [hk, Int.cast_natCast] at hle
  refine ⟨2 * k, ?_, ⟨even_two_mul k, by omega, ?_⟩, ?_⟩
  · rw [evenSide_rat, hk]
    push_cast
    rfl
  · have hside := le_max_left (side - 1 / 1000000) 2
    push_cast
    linarith
  · rintro m ⟨⟨j, rfl⟩, htwo, hm⟩
    -- Half of any such number is not below the rounded half.
    have hhalf : max (side - 1 / 1000000) 2 / 2 ≤ (j : ℚ) := by
      have htwo : (2 : ℚ) ≤ ((j + j : ℕ) : ℚ) := by exact_mod_cast htwo
      have hmax := max_le hm htwo
      push_cast at hmax
      linarith
    have hj : ⌈max (side - 1 / 1000000) 2 / 2⌉ ≤ (j : ℤ) := Int.ceil_le.2 (by exact_mod_cast hhalf)
    omega

theorem IsRounded.lt (h : IsRounded side n) (hside : 1 / 1000000 < side) : (n : ℚ) < side - 1 / 1000000 + 2 := by
  obtain ⟨⟨heven, htwo, -⟩, hleast⟩ := h
  by_contra hfar
  have hless : side - 1 / 1000000 ≤ ((n - 2 : ℕ) : ℚ) := by
    rw [Nat.cast_sub htwo]
    push_cast
    linarith
  have hpos : 0 < n - 2 := by
    have hcast : (0 : ℚ) < ((n - 2 : ℕ) : ℚ) := by linarith
    exact_mod_cast hcast
  have heven' : Even (n - 2) := (Nat.even_sub htwo).2 ⟨fun _ => even_two, fun _ => heven⟩
  have hle := hleast ⟨heven', by obtain ⟨j, hj⟩ := heven'; omega, hless⟩
  omega

/-- Rounding keeps the least sizes, which are even themselves. -/
theorem IsRounded.le_of_even {least : ℕ} (h : IsRounded side n) (heven : Even least) (hside : least ≤ side) :
    least ≤ n := by
  obtain ⟨⟨hn, -, hle⟩, -⟩ := h
  obtain ⟨j, rfl⟩ := heven
  obtain ⟨k, rfl⟩ := hn
  have hlt : ((j + j : ℕ) : ℚ) < ((k + k + 1 : ℕ) : ℚ) := by
    push_cast at hle hside ⊢
    linarith
  have hlt' : j + j < k + k + 1 := by exact_mod_cast hlt
  omega

/-- A rounded side that had its least size before. -/
theorem IsRounded.spec {least : ℕ} (h : IsRounded side n) (heven : Even least) (hpos : 0 < least)
    (hside : least ≤ side) : Even n ∧ least ≤ n ∧ side - 1 / 1000000 ≤ n ∧ n < side + 2 := by
  have hone : (1 : ℚ) ≤ least := by exact_mod_cast hpos
  have hlt := h.lt (by linarith)
  exact ⟨h.1.1, h.le_of_even heven hside, h.1.2.2, by linarith⟩

/-- Rounding both sides moves their ratio by less than two of the longer unit. -/
theorem abs_sub_lt_of_isRounded (hw : IsRounded (ratio * height) w) (hh : IsRounded height h) (hratio : 0 < ratio)
    (hmost : ratio ≤ 100) (hwidth : 1 / 1000000 < ratio * height) (hheight : 1 / 1000000 < height) :
    |(w : ℚ) - ratio * h| < 2 * max 1 ratio + 1 / 10000 := by
  have hone := le_max_left 1 ratio
  have hmax := le_max_right 1 ratio
  have hslack : (ratio - 1) / 1000000 < 1 / 10000 := by linarith only [hmost]
  have hhigh := mul_lt_mul_of_pos_left (hh.lt hheight) hratio
  have hlow := mul_le_mul_of_nonneg_left hh.1.2.2 hratio.le
  have hwlow := hw.1.2.2
  have hwhigh := hw.lt hwidth
  rw [abs_lt]
  constructor <;> linarith

private theorem truncatedNat_natCast (n limit : ℕ) : Scalar.truncatedNat (n : ℚ) limit = min n limit := by
  have hfloor : (n : ℚ).floor = n := Rat.floor_intCast n
  change Nat.min (n : ℚ).floor.toNat limit = min n limit
  rw [hfloor, Int.toNat_natCast]

/-- The frame of two rounded sides, unless one of them is too large. -/
theorem frameOfWidth_eq (aspect : AspectRatio ℚ) (source : ℕ × ℕ)
    (hw : evenSide (width * growth width (width / aspect.ratio)) = w)
    (hh : evenSide (width / aspect.ratio * growth width (width / aspect.ratio)) = h) :
    aspect.frameOfWidth source width =
      if w ≤ largestSide ∧ h ≤ largestSide then .ok (w, h) else .error ⟨source, aspect, w, h⟩ := by
  have hfinite (a : ℚ) : Scalar.isFinite a = true := rfl
  have hlarge : Scalar.lt (Scalar.ofNat largestSide : ℚ) (Scalar.max (w : ℚ) h) =
      decide (¬ (w ≤ largestSide ∧ h ≤ largestSide)) := by
    rw [max_rat, ofNat_rat, ← Nat.cast_max]
    change decide ((largestSide : ℚ) < ((max w h : ℕ) : ℚ)) = _
    rw [decide_eq_decide, Nat.cast_lt, not_and_or, lt_max_iff, not_le, not_le]
  rw [frameOfWidth]
  simp only [hw, hh, hfinite, hlarge, truncatedNat_natCast]
  by_cases hfits : w ≤ largestSide ∧ h ≤ largestSide
  · rw [if_pos hfits, min_eq_left hfits.1, min_eq_left hfits.2]
    simp [hfits]
  · rw [if_neg hfits]
    simp [hfits]

theorem frameOfWidth_eq_ok_iff (aspect : AspectRatio ℚ) (source frame : ℕ × ℕ)
    (hw : evenSide (width * growth width (width / aspect.ratio)) = w)
    (hh : evenSide (width / aspect.ratio * growth width (width / aspect.ratio)) = h) :
    aspect.frameOfWidth source width = .ok frame ↔ w ≤ largestSide ∧ h ≤ largestSide ∧ frame = (w, h) := by
  rw [frameOfWidth_eq aspect source hw hh, ← and_assoc]
  split
  · rename_i hfits
    rw [Except.ok.injEq, eq_comm, and_iff_right hfits]
  · rename_i hlarge
    exact ⟨nofun, fun hfits => absurd hfits.1 hlarge⟩

theorem frameOfWidth_eq_error_iff (aspect : AspectRatio ℚ) (source : ℕ × ℕ) {e : FrameError ℚ}
    (hw : evenSide (width * growth width (width / aspect.ratio)) = w)
    (hh : evenSide (width / aspect.ratio * growth width (width / aspect.ratio)) = h) :
    aspect.frameOfWidth source width = .error e ↔
      (largestSide < w ∨ largestSide < h) ∧ e = ⟨source, aspect, w, h⟩ := by
  rw [frameOfWidth_eq aspect source hw hh, ← not_le, ← not_le, ← not_and_or]
  split
  · rename_i hfits
    exact ⟨nofun, fun hlarge => absurd hfits hlarge.1⟩
  · rename_i hlarge
    rw [Except.error.injEq, eq_comm, and_iff_right hlarge]

/-- The frame for a positive width and a ratio that may be asked for. Both sides are even and not below their least
sizes, each covers its grown size by less than two, and their ratio is off by less than two of the longer unit.
These are the sides of the frame, and there is none exactly if one of them is too large. -/
theorem frame_is_rounded (aspect : AspectRatio ℚ) (source : ℕ × ℕ) (hratio : isAllowed aspect.ratio = true)
    (hwidth : 0 < width) :
    ∃ (grow : ℚ) (w h : ℕ), IsGrowth width (width / aspect.ratio) grow ∧
      IsRounded (width * grow) w ∧ IsRounded (width / aspect.ratio * grow) h ∧
      (Even w ∧ leastWidth ≤ w ∧ width * grow - 1 / 1000000 ≤ w ∧ w < width * grow + 2) ∧
      (Even h ∧ leastHeight ≤ h ∧ width / aspect.ratio * grow - 1 / 1000000 ≤ h ∧
        h < width / aspect.ratio * grow + 2) ∧
      |(w : ℚ) - aspect.ratio * h| < 2 * max 1 aspect.ratio + 1 / 10000 ∧
      (∀ frame, aspect.frameOfWidth source width = .ok frame ↔
        w ≤ largestSide ∧ h ≤ largestSide ∧ frame = (w, h)) ∧
      ∀ e, aspect.frameOfWidth source width = .error e ↔
        (largestSide < w ∨ largestSide < h) ∧ e = ⟨source, aspect, w, h⟩ := by
  obtain ⟨hleast, hmost⟩ : 1 / 100 ≤ aspect.ratio ∧ aspect.ratio ≤ 100 := by
    rw [isAllowed, Bool.and_eq_true] at hratio
    exact ⟨of_decide_eq_true hratio.1, of_decide_eq_true hratio.2⟩
  have hpos : 0 < aspect.ratio := by linarith
  have hgrow := isGrowth_growth hwidth (div_pos hwidth hpos)
  obtain ⟨w, hw, hwr⟩ := isRounded_evenSide (width * growth width (width / aspect.ratio))
  obtain ⟨h, hh, hhr⟩ := isRounded_evenSide (width / aspect.ratio * growth width (width / aspect.ratio))
  have hok := fun frame => frameOfWidth_eq_ok_iff aspect source frame hw hh
  have herror := fun e => @frameOfWidth_eq_error_iff _ _ _ aspect source e hw hh
  generalize growth width (width / aspect.ratio) = grow at hgrow hwr hhr
  obtain ⟨-, hgw, hgh⟩ := hgrow.1
  have hwfar : 1 / 1000000 < width * grow := by
    have hcast : ((leastWidth : ℕ) : ℚ) = 320 := rfl
    linarith
  have hhfar : 1 / 1000000 < width / aspect.ratio * grow := by
    have hcast : ((leastHeight : ℕ) : ℚ) = 180 := rfl
    linarith
  have hsides : width * grow = aspect.ratio * (width / aspect.ratio * grow) := by
    rw [← mul_assoc, mul_div_cancel₀ _ hpos.ne']
  have hclose : |(w : ℚ) - aspect.ratio * h| < 2 * max 1 aspect.ratio + 1 / 10000 :=
    abs_sub_lt_of_isRounded (hsides ▸ hwr) hhr hpos hmost (hsides ▸ hwfar) hhfar
  exact ⟨grow, w, h, hgrow, hwr, hhr, hwr.spec (by decide) (by decide) hgw, hhr.spec (by decide) (by decide) hgh,
    hclose, hok, herror⟩

/-- A wide ratio makes a small frame grow to its least height, and a steep one asks for too large a frame. -/
theorem frame_is_rounded_grown :
    let wide : AspectRatio ℚ := ⟨239, 100⟩
    let steep : AspectRatio ℚ := ⟨1, 100⟩
    isAllowed wide.ratio = true ∧ isAllowed steep.ratio = true ∧
      wide.frameOfWidth (239, 100) 239 = .ok (432, 180) ∧ |(432 : ℚ) - wide.ratio * 180| < 2 * max 1 wide.ratio + 1 / 10000 ∧
      steep.frameOfWidth (1, 100) 1 = .error ⟨(1, 100), steep, 320, 32000⟩ ∧
      ∀ frame, steep.frameOfWidth (1, 100) 1 ≠ .ok frame := by
  intro wide steep
  have hwide : isAllowed wide.ratio = true := by decide +kernel
  have hsteep : isAllowed steep.ratio = true := by decide +kernel
  have hok : wide.frameOfWidth (239, 100) 239 = .ok (432, 180) := by decide +kernel
  have herror : steep.frameOfWidth (1, 100) 1 = .error ⟨(1, 100), steep, 320, 32000⟩ := by decide +kernel
  obtain ⟨_, w, h, -, -, -, -, -, hclose, hframe, -⟩ :=
    frame_is_rounded wide (239, 100) hwide (by norm_num : (0 : ℚ) < 239)
  obtain ⟨_, w', h', -, -, -, -, -, -, hframe', herror'⟩ :=
    frame_is_rounded steep (1, 100) hsteep (by norm_num : (0 : ℚ) < 1)
  obtain ⟨-, -, hsides⟩ := (hframe _).1 hok
  cases hsides
  refine ⟨hwide, hsteep, hok, hclose, herror, fun frame hok' => ?_⟩
  have hlarge := ((herror' _).1 herror).1
  have hfits := (hframe' frame).1 hok'
  omega

end OpenCaptions.AspectRatio
