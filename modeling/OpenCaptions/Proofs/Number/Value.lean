import OpenCaptions.Proofs.Number.Bits

/-!
The values of finite floats, and comparisons as comparisons of values.
-/
namespace OpenCaptions.Number

open Float.Model Float.Model.UnpackedFloat

/-- The value of a finite float, zero for any other. -/
def Binary64.value : Binary64 → ℚ
  | finite negative mantissa exponent =>
    if negative then -(mantissa * 2 ^ exponent) else mantissa * 2 ^ exponent
  | _ => 0

def valueOf (x : Float) : ℚ := (Binary64.ofFloat x).value

namespace Binary64

variable {m m' : Nat} {e e' : Int}

private theorem lt_of_exponent_lt (hc : IsCanonical m e) (hc' : IsCanonical m' e') (h : e < e') :
    (m : ℚ) * 2 ^ e < m' * 2 ^ e' := by
  have hleast := hc.least
  have hne : e' ≠ leastExponent := by omega
  have hm : (m : ℚ) < 2 ^ 53 := by exact_mod_cast hc.lt
  have hm' : (2 : ℚ) ^ 52 ≤ m' := by exact_mod_cast hc'.normal.resolve_right hne
  have hP : (0 : ℚ) < 2 ^ e := by positivity
  calc (m : ℚ) * 2 ^ e < 2 ^ 53 * 2 ^ e := by gcongr
    _ = 2 ^ 52 * 2 ^ (e + 1) := by
      rw [zpow_add₀ (by norm_num), zpow_one]
      ring
    _ ≤ 2 ^ 52 * 2 ^ e' := by
      have : (2 : ℚ) ^ (e + 1) ≤ 2 ^ e' := zpow_le_zpow_right₀ (by norm_num) h
      gcongr
    _ ≤ m' * 2 ^ e' := by gcongr

theorem compare_magnitude (hc : IsCanonical m e) (hc' : IsCanonical m' e') :
    (compare e e').then (compare m m') = compare ((m : ℚ) * 2 ^ e) (m' * 2 ^ e') := by
  rcases lt_trichotomy e e' with h | rfl | h
  · rw [compare_lt_iff_lt.2 h, compare_lt_iff_lt.2 (lt_of_exponent_lt hc hc' h)]
    rfl
  · have hP : (0 : ℚ) < 2 ^ e := by positivity
    rw [compare_eq_iff_eq.2 rfl, Ordering.eq_then]
    rcases lt_trichotomy m m' with hm | rfl | hm
    · have hm' : (m : ℚ) < m' := by exact_mod_cast hm
      rw [compare_lt_iff_lt.2 hm, eq_comm, compare_lt_iff_lt]
      gcongr
    · rw [compare_eq_iff_eq.2 rfl, compare_eq_iff_eq.2 rfl]
    · have hm' : (m' : ℚ) < m := by exact_mod_cast hm
      rw [compare_gt_iff_gt.2 hm, eq_comm, compare_gt_iff_gt]
      gcongr
  · rw [compare_gt_iff_gt.2 h, compare_gt_iff_gt.2 (lt_of_exponent_lt hc' hc h)]
    rfl

theorem compare_neg_neg (a b : ℚ) : compare (-a) (-b) = (compare a b).swap := by
  rcases lt_trichotomy a b with h | rfl | h
  · rw [compare_lt_iff_lt.2 h, compare_gt_iff_gt.2 (neg_lt_neg h)]
    rfl
  · rw [compare_eq_iff_eq.2 rfl, compare_eq_iff_eq.2 rfl]
    rfl
  · rw [compare_gt_iff_gt.2 h, compare_lt_iff_lt.2 (neg_lt_neg h)]
    rfl

/-- Zero, or a float in canonical form. -/
def IsProper : UnpackedFloat → Prop
  | .zero _ => True
  | .finite _ m e _ => IsCanonical m e
  | _ => False

theorem value_zero (s : Sign) : (ofUnpacked (.zero s)).value = 0 := by
  cases s <;> simp [ofUnpacked, value]

theorem value_negative (hm : 0 < m) : (ofUnpacked (.finite .negative m e hm)).value = -(m * 2 ^ e) := rfl

theorem value_positive (hm : 0 < m) : (ofUnpacked (.finite .positive m e hm)).value = m * 2 ^ e := rfl

/-- Comparing unpacked floats compares their values. -/
theorem compare_unpacked {u v : UnpackedFloat} (hu : IsProper u) (hv : IsProper v) :
    u.compare v = some (compare (ofUnpacked u).value (ofUnpacked v).value) := by
  have hpos {m : Nat} {e : Int} (hm : 0 < m) : (0 : ℚ) < m * 2 ^ e := by positivity
  cases u with
  | notANumber => cases hu
  | infinity s => cases hu
  | zero s =>
    rw [value_zero]
    cases v with
    | notANumber => cases hv
    | infinity s' => cases hv
    | zero s' =>
      rw [value_zero, compare_eq_iff_eq.2 rfl]
      rfl
    | finite s' m' e' hm' =>
      cases s' with
      | negative =>
        rw [value_negative, compare_gt_iff_gt.2 (neg_lt_zero.2 (hpos hm'))]
        rfl
      | positive =>
        rw [value_positive, compare_lt_iff_lt.2 (hpos hm')]
        rfl
  | finite s m e hm =>
    cases v with
    | notANumber => cases hv
    | infinity s' => cases hv
    | zero s' =>
      rw [value_zero]
      cases s with
      | negative =>
        rw [value_negative, compare_lt_iff_lt.2 (neg_lt_zero.2 (hpos hm))]
        rfl
      | positive =>
        rw [value_positive, compare_gt_iff_gt.2 (hpos hm)]
        rfl
    | finite s' m' e' hm' =>
      have hlt : (-(m * 2 ^ e) : ℚ) < m' * 2 ^ e' := (neg_lt_zero.2 (hpos hm)).trans (hpos hm')
      have hgt : (-(m' * 2 ^ e') : ℚ) < m * 2 ^ e := (neg_lt_zero.2 (hpos hm')).trans (hpos hm)
      cases s with
      | negative =>
        rw [value_negative]
        cases s' with
        | negative =>
          rw [value_negative, compare_neg_neg, ← compare_magnitude hu hv]
          rfl
        | positive =>
          rw [value_positive, compare_lt_iff_lt.2 hlt]
          rfl
      | positive =>
        rw [value_positive]
        cases s' with
        | negative =>
          rw [value_negative, compare_gt_iff_gt.2 hgt]
          rfl
        | positive =>
          rw [value_positive, ← compare_magnitude hu hv]
          rfl

end Binary64

open Binary64

variable {x y : Float}

theorem isProper_of_isFinite (h : x.isFinite = true) : IsProper x.toModel.unpack := by
  obtain ⟨negative, m, e, hx⟩ := isFinite_iff.1 h
  have hc := isCanonical_of_ofFloat hx
  rw [ofFloat_eq] at hx
  generalize x.toModel.unpack = u at hx
  cases u with
  | notANumber => cases hx
  | infinity s => cases hx
  | zero s => trivial
  | finite s m' e' hm =>
    simp only [ofUnpacked, Binary64.finite.injEq] at hx
    obtain ⟨-, rfl, rfl⟩ := hx
    exact hc

theorem compare_eq_compare_valueOf (hx : x.isFinite = true) (hy : y.isFinite = true) :
    x.toModel.unpack.compare y.toModel.unpack = some (compare (valueOf x) (valueOf y)) := by
  rw [compare_unpacked (isProper_of_isFinite hx) (isProper_of_isFinite hy), valueOf, valueOf, ofFloat_eq,
    ofFloat_eq]

/-- Finite floats are ordered like their values. -/
theorem lt_iff_valueOf (hx : x.isFinite = true) (hy : y.isFinite = true) :
    x < y ↔ valueOf x < valueOf y := by
  have hmodel : x < y ↔ (x.toModel.unpack.compare y.toModel.unpack == some .lt) = true :=
    decide_eq_true_iff
  rw [hmodel, compare_eq_compare_valueOf hx hy, ← compare_lt_iff_lt]
  cases compare (valueOf x) (valueOf y) <;> simp

theorem le_iff_valueOf (hx : x.isFinite = true) (hy : y.isFinite = true) :
    x ≤ y ↔ valueOf x ≤ valueOf y := by
  have hmodel : x ≤ y ↔ (x.toModel.unpack.compare y.toModel.unpack).any (·.isLE) = true :=
    decide_eq_true_iff
  rw [hmodel, compare_eq_compare_valueOf hx hy, ← compare_le_iff_le]
  cases compare (valueOf x) (valueOf y) <;> simp

end OpenCaptions.Number
