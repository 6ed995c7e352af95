import OpenCaptions.Number.Scalar
import OpenCaptions.Proofs.Number.Value

/-!
Bounds on sums, differences and quarters of floats. Rounding never exceeds a bound that is a float itself,
so a result whose exact value is within the range of floats is finite.
-/
namespace OpenCaptions.Number

open Float.Model Float.Model.UnpackedFloat

namespace Binary64

/-- The exact value that an extended mantissa stands for is `bound` at most. -/
def AtMost (bound : Nat) (em : ExtendedMantissa) : Prop :=
  em.mantissa < bound ∨ em.mantissa = bound ∧ em.roundBit = false ∧ em.stickyBit = false

private theorem AtMost.shiftRightOne {bound : Nat} {em : ExtendedMantissa} (h : AtMost (bound * 2) em) :
    AtMost bound em.shiftRightOne := by
  rcases h with h | ⟨h, hr, hs⟩
  · exact .inl (by change em.mantissa / 2 < bound; omega)
  · refine .inr ⟨by change em.mantissa / 2 = bound; omega, ?_, ?_⟩
    · change (em.mantissa % 2 != 0) = false
      rw [h]
      simp
    · change (em.roundBit || em.stickyBit) = false
      rw [hr, hs]
      rfl

theorem AtMost.shiftRight {n : Nat} {bound : Nat} {em : ExtendedMantissa} (h : AtMost (bound * 2 ^ n) em) :
    AtMost bound (em >>> n) := by
  induction n generalizing bound with
  | zero =>
    rw [Nat.pow_zero, Nat.mul_one] at h
    exact h
  | succ n ih =>
    rw [Nat.pow_succ, Nat.mul_comm (2 ^ n), ← Nat.mul_assoc] at h
    exact (ih h).shiftRightOne

theorem AtMost.roundedMantissa_le {bound : Nat} {em : ExtendedMantissa} (h : AtMost bound em) :
    em.roundedMantissa ≤ bound := by
  obtain ⟨m, r, s⟩ := em
  rcases h with h | ⟨rfl, rfl, rfl⟩
  · change m < bound at h
    cases r <;> cases s <;>
      simp only [ExtendedMantissa.roundedMantissa, ExtendedMantissa.accuracy, Accuracy.roundToNearestEven] <;>
      omega
  · exact Nat.le_refl _

theorem mantissa_le_roundedMantissa (em : ExtendedMantissa) : em.mantissa ≤ em.roundedMantissa := by
  obtain ⟨m, r, s⟩ := em
  cases r <;> cases s <;>
    simp only [ExtendedMantissa.roundedMantissa, ExtendedMantissa.accuracy, Accuracy.roundToNearestEven] <;>
    omega

theorem mantissa_shiftRight (em : ExtendedMantissa) (n : Nat) : (em >>> n).mantissa = em.mantissa / 2 ^ n := by
  induction n with
  | zero => simp [HShiftRight.hShiftRight, Nat.repeat]
  | succ n ih =>
    rw [Nat.pow_succ, ← Nat.div_div_eq_div_mul, ← ih]
    rfl

theorem mantissa_ofMantissaAndAccuracy (m : Nat) (accuracy : Accuracy) :
    (ExtendedMantissa.ofMantissaAndAccuracy m accuracy).mantissa = m := by
  rcases accuracy with _ | o
  · rfl
  · cases o <;> rfl

/-- The exponent that a mantissa with an exponent is rounded at. -/
theorem targetExponent_eq (m : Nat) (e : Int) :
    Format.binary64.targetExponent (totalExponent m e) = max ((m.log2 : Int) + e - 52) leastExponent := by
  change max ((m.log2 : Int) + 1 + e - (1 + 52 : Nat)) (3 - 2 ^ 10 - (1 + 52 : Nat)) = _
  unfold leastExponent
  omega

theorem le_exponent_of_le {a b : Nat} {e f : Int} (ha : 2 ^ 52 ≤ a) (hb : b < 2 ^ 53)
    (h : (a : ℚ) * 2 ^ e ≤ b * 2 ^ f) : e ≤ f := by
  have ha' : (2 : ℚ) ^ 52 ≤ a := by exact_mod_cast ha
  have hb' : (b : ℚ) < 2 ^ 53 := by exact_mod_cast hb
  have hlt : (2 : ℚ) ^ (e + 52) < 2 ^ (f + 53) := by
    calc (2 : ℚ) ^ (e + 52) = 2 ^ 52 * 2 ^ e := two_zpow_add e 52
      _ ≤ a * 2 ^ e := by gcongr
      _ ≤ b * 2 ^ f := h
      _ < 2 ^ 53 * 2 ^ f := by gcongr
      _ = 2 ^ (f + 53) := (two_zpow_add f 53).symm
  have := (zpow_lt_zpow_iff_right₀ (by norm_num)).1 hlt
  omega

/-- Values that floats have, among others those of canonical ones. -/
structure InRange (mantissa : Nat) (exponent : Int) : Prop where
  lt : mantissa < 2 ^ 53
  least : leastExponent ≤ exponent
  most : exponent ≤ greatestExponent

/-- A mantissa with an exponent and what was cut off is `bound * 2 ^ limit` at most. -/
def Below (m : Nat) (e : Int) (accuracy : Accuracy) (bound : Nat) (limit : Int) : Prop :=
  (m : ℚ) * 2 ^ e < bound * 2 ^ limit ∨ (m : ℚ) * 2 ^ e = bound * 2 ^ limit ∧ accuracy = .exact

section Round

variable {m bound : Nat} {e limit t : Int} {accuracy : Accuracy}

theorem Below.le (h : Below m e accuracy bound limit) : (m : ℚ) * 2 ^ e ≤ bound * 2 ^ limit := by
  rcases h with h | h
  · exact h.le
  · exact h.1.le

/-- Rounding takes place at an exponent that the bound can be written with. -/
theorem Below.target_le (h : Below m e accuracy bound limit) (hr : InRange bound limit)
    (hm : 0 < m ∨ e = leastExponent) : max ((m.log2 : Int) + e - 52) leastExponent ≤ limit := by
  have hleast := hr.least
  rcases Nat.eq_zero_or_pos m with rfl | hm'
  · have he := hm.resolve_left (Nat.lt_irrefl 0)
    rw [Nat.log2_zero]
    omega
  · have hlog : (2 : ℚ) ^ (m.log2 : Int) ≤ m := le_cast_log2 hm'
    have hb : (bound : ℚ) < 2 ^ 53 := by exact_mod_cast hr.lt
    have hlt : (2 : ℚ) ^ ((m.log2 : Int) + e) < 2 ^ (limit + 53) := by
      calc (2 : ℚ) ^ ((m.log2 : Int) + e) = 2 ^ (m.log2 : Int) * 2 ^ e := zpow_add₀ (by norm_num) _ _
        _ ≤ m * 2 ^ e := by gcongr
        _ ≤ bound * 2 ^ limit := h.le
        _ < 2 ^ 53 * 2 ^ limit := by gcongr
        _ = 2 ^ (limit + 53) := (two_zpow_add limit 53).symm
    have := (zpow_lt_zpow_iff_right₀ (by norm_num)).1 hlt
    omega

theorem two_zpow_toNat_sub {a b : Int} (h : a ≤ b) : (2 : ℚ) ^ (b - a).toNat * 2 ^ a = 2 ^ b := by
  rw [← two_zpow_add]
  congr 1
  omega

/-- Shifting a mantissa to the exponent `t` and rounding it stays within the bound. -/
theorem Below.roundedMantissa_le (h : Below m e accuracy bound limit) (he : e ≤ t) (ht : t ≤ limit) :
    ((ExtendedMantissa.ofMantissaAndAccuracy m accuracy >>> (t - e).toNat).roundedMantissa : ℚ) * 2 ^ t ≤
      bound * 2 ^ limit := by
  have hP : (0 : ℚ) < 2 ^ e := by positivity
  have hscaled : ((bound * 2 ^ (limit - t).toNat * 2 ^ (t - e).toNat : Nat) : ℚ) * 2 ^ e =
      bound * 2 ^ limit := by
    push_cast
    rw [mul_assoc, two_zpow_toNat_sub he, mul_assoc, two_zpow_toNat_sub ht]
  have hatMost : AtMost (bound * 2 ^ (limit - t).toNat * 2 ^ (t - e).toNat)
      (ExtendedMantissa.ofMantissaAndAccuracy m accuracy) := by
    rcases h with h | ⟨h, rfl⟩
    · rw [← hscaled] at h
      refine .inl ?_
      rw [mantissa_ofMantissaAndAccuracy]
      exact_mod_cast lt_of_mul_lt_mul_right h hP.le
    · rw [← hscaled] at h
      exact .inr ⟨by exact_mod_cast mul_right_cancel₀ hP.ne' h, rfl, rfl⟩
  have hr := hatMost.shiftRight.roundedMantissa_le
  calc _ ≤ ((bound * 2 ^ (limit - t).toNat : Nat) : ℚ) * 2 ^ t := by gcongr
    _ = bound * 2 ^ limit := by
      push_cast
      rw [mul_assoc, two_zpow_toNat_sub ht]

/-- The mantissa that is left has 53 binary digits, fewer at the least exponent only, or has just become a
power of two. -/
theorem roundedMantissa_bounds (he : e ≤ t) (ht : t = max ((m.log2 : Int) + e - 52) leastExponent) :
    (ExtendedMantissa.ofMantissaAndAccuracy m accuracy >>> (t - e).toNat).roundedMantissa ≤ 2 ^ 53 ∧
      (2 ^ 52 ≤ (ExtendedMantissa.ofMantissaAndAccuracy m accuracy >>> (t - e).toNat).roundedMantissa ∨
        t = leastExponent) := by
  have hmant := mantissa_shiftRight (ExtendedMantissa.ofMantissaAndAccuracy m accuracy) (t - e).toNat
  rw [mantissa_ofMantissaAndAccuracy] at hmant
  generalize ExtendedMantissa.ofMantissaAndAccuracy m accuracy >>> (t - e).toNat = em at hmant
  have hlt : em.mantissa < 2 ^ 53 := by
    rw [hmant, Nat.div_lt_iff_lt_mul (by positivity), ← Nat.pow_add]
    calc m < 2 ^ (m.log2 + 1) := Nat.lt_log2_self
      _ ≤ 2 ^ (53 + (t - e).toNat) := Nat.pow_le_pow_right (by omega) (by omega)
  have hup : em.roundedMantissa ≤ em.mantissa + 1 :=
    AtMost.roundedMantissa_le (.inl (Nat.lt_succ_self _))
  have hlow := mantissa_le_roundedMantissa em
  refine ⟨by omega, ?_⟩
  by_cases hleast : t = leastExponent
  · exact .inr hleast
  · refine .inl (Nat.le_trans ?_ hlow)
    have hm : m ≠ 0 := by
      rintro rfl
      rw [Nat.log2_zero] at ht
      omega
    rw [hmant, Nat.le_div_iff_mul_le (by positivity), ← Nat.pow_add]
    calc 2 ^ (52 + (t - e).toNat) = 2 ^ m.log2 := by
          congr 1
          omega
      _ ≤ m := Nat.log2_self_le hm

theorem shiftToTargetExponent_eq (m : Nat) (e : Int) (accuracy : Accuracy)
    (ht : t = max ((m.log2 : Int) + e - 52) leastExponent) :
    shiftToTargetExponent Format.binary64 m e accuracy =
      (ExtendedMantissa.ofMantissaAndAccuracy m accuracy >>> (t - e).toNat, e + (t - e).toNat) := by
  rw [ht, ← targetExponent_eq]
  rfl

private theorem exists_second_shift {r : Nat} (hr : r ≤ 2 ^ 53) (hlow : 2 ^ 52 ≤ r ∨ t = leastExponent)
    (hleast : leastExponent ≤ t) :
    ∃ (r' : Nat) (t' : Int), (shiftToTargetExponent Format.binary64 r t .exact).1.mantissa = r' ∧
      (shiftToTargetExponent Format.binary64 r t .exact).2 = t' ∧
      r' < 2 ^ 53 ∧ leastExponent ≤ t' ∧ (2 ^ 52 ≤ r' ∨ t' = leastExponent) ∧
      (r' : ℚ) * 2 ^ t' = r * 2 ^ t := by
  rw [shiftToTargetExponent_eq r t .exact rfl, mantissa_shiftRight, mantissa_ofMantissaAndAccuracy]
  rcases Nat.lt_or_eq_of_le hr with hlt | rfl
  · have hlog : r.log2 ≤ 52 := by
      rcases Nat.eq_zero_or_pos r with rfl | hpos
      · decide
      · exact Nat.le_of_lt_succ ((Nat.log2_lt hpos.ne').2 hlt)
    have hshift : (max ((r.log2 : Int) + t - 52) leastExponent - t).toNat = 0 := by omega
    rw [hshift]
    exact ⟨r, t, by simp, by simp, hlt, hleast, hlow, rfl⟩
  · have hlog : (2 ^ 53 : Nat).log2 = 53 := Nat.log2_two_pow
    have hshift : (max (((2 ^ 53 : Nat).log2 : Int) + t - 52) leastExponent - t).toNat = 1 := by
      rw [hlog]
      omega
    rw [hshift]
    refine ⟨2 ^ 52, t + 1, by decide, rfl, by decide, by omega, .inl (Nat.le_refl _), ?_⟩
    rw [zpow_add₀ (by norm_num), zpow_one]
    push_cast
    ring

/-- Rounding gives a proper float with its sign, and no magnitude beyond the bound. -/
theorem ofUnpacked_roundWithAccuracy (s : Sign) (h : Below m e accuracy bound limit)
    (hr : InRange bound limit) (hm : 0 < m ∨ e = leastExponent)
    (he : e ≤ max ((m.log2 : Int) + e - 52) leastExponent) :
    IsProper (roundWithAccuracy Format.binary64 s m e accuracy) ∧
      ∃ r t, ofUnpacked (roundWithAccuracy Format.binary64 s m e accuracy) =
        .finite (s == .negative) r t ∧ (r : ℚ) * 2 ^ t ≤ bound * 2 ^ limit := by
  generalize ht : max ((m.log2 : Int) + e - 52) leastExponent = t at he
  have htl : t ≤ limit := ht ▸ h.target_le hr hm
  have hleast : leastExponent ≤ t := ht ▸ le_max_right _ _
  have hbound := h.roundedMantissa_le he htl
  obtain ⟨hup, hlow⟩ := roundedMantissa_bounds he ht.symm
  have hexp : e + (t - e).toNat = t := by omega
  generalize hround : (ExtendedMantissa.ofMantissaAndAccuracy m accuracy >>> (t - e).toNat).roundedMantissa = r
    at hbound hup hlow
  obtain ⟨r', t', hr', ht', hlt, hleast', hlow', hvalue⟩ := exists_second_shift hup hlow hleast
  have hshape : roundWithAccuracy Format.binary64 s m e accuracy =
      if hz : r' = 0 then .zero s else .finite s r' t' (Nat.pos_of_ne_zero hz) := by
    unfold roundWithAccuracy
    simp only [shiftToTargetExponent_eq m e accuracy ht.symm, hexp, hround, hr', ht']
  rw [hshape]
  split
  · rename_i hz
    subst hz
    refine ⟨trivial, 0, leastExponent, rfl, ?_⟩
    simp only [Nat.cast_zero, zero_mul]
    positivity
  · rw [← hvalue] at hbound
    have hmost : t' ≤ greatestExponent := by
      rcases hlow' with hge | hz
      · exact (le_exponent_of_le hge hr.lt hbound).trans hr.most
      · rw [hz]
        decide
    exact ⟨⟨hlt, hleast', hmost, hlow'⟩, r', t', rfl, hbound⟩

end Round

/-- A proper result for an exact value: one of the same sign, and within each bound in range that the value
is within. -/
def Rounds (v : ℚ) (u : UnpackedFloat) : Prop :=
  ∀ (bound : Nat) (limit : Int), InRange bound limit → |v| ≤ bound * 2 ^ limit →
    IsProper u ∧ |(ofUnpacked u).value| ≤ bound * 2 ^ limit ∧ (0 ≤ v → 0 ≤ (ofUnpacked u).value)

theorem Rounds.refl {u : UnpackedFloat} (hu : IsProper u) : Rounds (ofUnpacked u).value u :=
  fun _ _ _ h => ⟨hu, h, id⟩

def signed (s : Sign) (v : ℚ) : ℚ := if s == .negative then -v else v

theorem abs_signed (s : Sign) {v : ℚ} (hv : 0 ≤ v) : |signed s v| = v := by
  cases s
  · exact (abs_neg v).trans (abs_of_nonneg hv)
  · exact abs_of_nonneg hv

theorem rounds_of_magnitude {u : UnpackedFloat} {v : ℚ} (hv : 0 ≤ v) (s : Sign)
    (h : ∀ (bound : Nat) (limit : Int), InRange bound limit → v ≤ bound * 2 ^ limit →
      IsProper u ∧ ∃ r t, ofUnpacked u = .finite (s == .negative) r t ∧ (r : ℚ) * 2 ^ t ≤ bound * 2 ^ limit) :
    Rounds (signed s v) u := by
  intro bound limit hr hle
  rw [abs_signed s hv] at hle
  obtain ⟨hu, r, t, hvalue, hbound⟩ := h bound limit hr hle
  have hrt : (0 : ℚ) ≤ r * 2 ^ t := by positivity
  have hsigned : (ofUnpacked u).value = signed s (r * 2 ^ t) := by
    rw [hvalue]
    rfl
  refine ⟨hu, ?_, fun hpos => ?_⟩
  · rwa [hsigned, abs_signed s hrt]
  · rw [hsigned]
    cases s with
    | positive => exact hrt
    | negative =>
      -- Zero is a bound of its own, so the result has no digits either.
      have hv0 : v = 0 := le_antisymm (neg_nonneg.1 hpos) hv
      have hzero : (r : ℚ) * 2 ^ t ≤ 0 := by
        obtain ⟨-, r', t', hvalue', hbound'⟩ := h 0 leastExponent ⟨by decide, le_rfl, by decide⟩
          (by rw [hv0]; simp)
        rw [hvalue, Binary64.finite.injEq] at hvalue'
        obtain ⟨-, rfl, rfl⟩ := hvalue'
        simpa using hbound'
      exact neg_nonneg.2 hzero

theorem log2_mul_pow {m : Nat} (hm : m ≠ 0) (k : Nat) : (m * 2 ^ k).log2 = m.log2 + k := by
  induction k with
  | zero => rw [Nat.pow_zero, Nat.mul_one, Nat.add_zero]
  | succ k ih =>
    have hne : m * 2 ^ k ≠ 0 := Nat.mul_ne_zero hm (Nat.pow_pos (by omega)).ne'
    have htwo : m * 2 ^ (k + 1) = 2 * (m * 2 ^ k) := by
      rw [Nat.pow_succ]
      ring
    rw [htwo, Nat.log2_two_mul hne, ih]
    omega

theorem decreaseExponent_eq (m : Nat) (e t : Int) :
    decreaseExponent m e t = (m * 2 ^ (e - t).toNat, e - (e - t).toNat) := by
  rw [decreaseExponent, Nat.shiftLeft_eq]

private theorem value_decreased (m : Nat) (e t : Int) :
    ((m * 2 ^ (e - t).toNat : Nat) : ℚ) * 2 ^ (e - (e - t).toNat) = m * 2 ^ e := by
  push_cast
  rw [mul_assoc, ← two_zpow_add, sub_add_cancel]

theorem rounds_round (s : Sign) {m : Nat} (hm : 0 < m) (e : Int) :
    Rounds (signed s (m * 2 ^ e)) (UnpackedFloat.round Format.binary64 s m e) := by
  refine rounds_of_magnitude (by positivity) s fun bound limit hr hle => ?_
  unfold UnpackedFloat.round
  rw [targetExponent_eq]
  generalize ht : max ((m.log2 : Int) + e - 52) leastExponent = t
  simp only [decreaseExponent_eq]
  have hpos : 0 < m * 2 ^ (e - t).toNat := by positivity
  refine ofUnpacked_roundWithAccuracy s ?_ hr (.inl hpos) ?_
  · rw [← value_decreased m e t] at hle
    rcases hle.lt_or_eq with h | h
    · exact .inl h
    · exact .inr ⟨h, rfl⟩
  · rw [log2_mul_pow hm.ne']
    push_cast
    omega

theorem rounds_normalize (z e : Int) :
    Rounds (z * 2 ^ e) (UnpackedFloat.normalize Format.binary64 z e .positive) := by
  unfold UnpackedFloat.normalize
  rcases lt_trichotomy z 0 with h | rfl | h
  · have hz : (z : ℚ) * 2 ^ e = signed .negative ((-z).toNat * 2 ^ e) := by
      have hcast : (((-z).toNat : Int) : ℚ) = -z := by
        rw [Int.toNat_of_nonneg (by omega)]
        push_cast
        rfl
      rw [← Int.cast_natCast, hcast]
      change _ = -(-(z : ℚ) * 2 ^ e)
      ring
    rw [compare_lt_iff_lt.2 h, hz]
    exact rounds_round .negative (by omega) e
  · rw [compare_eq_iff_eq.2 rfl]
    rw [Int.cast_zero, zero_mul, ← value_zero .positive]
    exact Rounds.refl trivial
  · have hz : (z : ℚ) * 2 ^ e = signed .positive (z.toNat * 2 ^ e) := by
      have hcast : ((z.toNat : Int) : ℚ) = z := by rw [Int.toNat_of_nonneg h.le]
      rw [← Int.cast_natCast, hcast]
      rfl
    rw [compare_gt_iff_gt.2 h, hz]
    exact rounds_round .positive (by omega) e

private theorem apply_value (s : Sign) {m : Nat} (hm : 0 < m) {e f : Int} (hf : f ≤ e) :
    ((s.apply (m * 2 ^ (e - f).toNat : Nat) : Int) : ℚ) * 2 ^ f = (ofUnpacked (.finite s m e hm)).value := by
  have hscaled : ((m * 2 ^ (e - f).toNat : Nat) : ℚ) * 2 ^ f = m * 2 ^ e := by
    push_cast
    rw [mul_assoc, two_zpow_toNat_sub hf]
  cases s with
  | negative =>
    rw [value_negative, ← hscaled, Sign.apply, Int.cast_neg, Int.cast_natCast, neg_mul]
  | positive =>
    rw [value_positive, ← hscaled, Sign.apply, Int.cast_natCast]

theorem rounds_add {u v : UnpackedFloat} (hu : IsProper u) (hv : IsProper v) :
    Rounds ((ofUnpacked u).value + (ofUnpacked v).value) (UnpackedFloat.add Format.binary64 u v) := by
  cases u with
  | notANumber => cases hu
  | infinity s => cases hu
  | zero s =>
    rw [value_zero, zero_add]
    cases v with
    | notANumber => cases hv
    | infinity s' => cases hv
    | zero s' =>
      have hzero : ∃ s'', UnpackedFloat.add Format.binary64 (.zero s) (.zero s') = .zero s'' := by
        unfold UnpackedFloat.add
        simp only
        split
        · exact ⟨_, rfl⟩
        · exact ⟨_, rfl⟩
      obtain ⟨s'', hs⟩ := hzero
      rw [hs, value_zero, ← value_zero s'']
      exact .refl trivial
    | finite s' m' e' hm' => exact .refl hv
  | finite s m e hm =>
    cases v with
    | notANumber => cases hv
    | infinity s' => cases hv
    | zero s' =>
      rw [value_zero, add_zero]
      exact .refl hu
    | finite s' m' e' hm' =>
      have hle : min e e' ≤ e := min_le_left e e'
      have hle' : min e e' ≤ e' := min_le_right e e'
      rw [← apply_value s hm hle, ← apply_value s' hm' hle', ← add_mul, ← Int.cast_add]
      unfold UnpackedFloat.add
      simp only [decreaseExponent_eq]
      exact rounds_normalize _ _

theorem value_neg (u : UnpackedFloat) : (ofUnpacked u.neg).value = -(ofUnpacked u).value := by
  cases u with
  | notANumber => exact neg_zero.symm
  | infinity s => exact neg_zero.symm
  | zero s =>
    rw [UnpackedFloat.neg, value_zero, value_zero, neg_zero]
  | finite s m e hm =>
    cases s with
    | negative => exact (neg_neg _).symm
    | positive => rfl

/-- A difference is a sum with the opposite. -/
theorem sub_eq_add (u v : UnpackedFloat) :
    UnpackedFloat.sub Format.binary64 u v = UnpackedFloat.add Format.binary64 u v.neg := by
  have happly (s : Sign) (n : Int) : (-s).apply n = -s.apply n := by
    cases s with
    | negative => exact (Int.neg_neg n).symm
    | positive => rfl
  cases u <;> cases v
  case finite.finite s m e hm s' m' e' hm' =>
    simp only [UnpackedFloat.sub, UnpackedFloat.add, UnpackedFloat.neg, happly, ← Int.sub_eq_add_neg]
  all_goals rfl

theorem rounds_sub {u v : UnpackedFloat} (hu : IsProper u) (hv : IsProper v) :
    Rounds ((ofUnpacked u).value - (ofUnpacked v).value) (UnpackedFloat.sub Format.binary64 u v) := by
  have hneg : IsProper v.neg := by
    cases v with
    | notANumber => cases hv
    | infinity s => cases hv
    | zero s => trivial
    | finite s m e hm => exact hv
  rw [sub_eq_add, sub_eq_add_neg, ← value_neg]
  exact rounds_add hu hneg

private theorem pow_le_scaled_quotient {m : Nat} (hm : 0 < m) (hlog : m.log2 ≤ 52) :
    2 ^ 53 ≤ m * 2 ^ (105 - m.log2) / 2 ^ 52 := by
  rw [Nat.le_div_iff_mul_le (by positivity), ← Nat.pow_add]
  calc 2 ^ (53 + 52) = 2 ^ m.log2 * 2 ^ (105 - m.log2) := by
        rw [← Nat.pow_add]
        congr 1
        omega
    _ ≤ m * 2 ^ (105 - m.log2) := Nat.mul_le_mul_right _ (Nat.log2_self_le hm.ne')

private theorem divCore_four {m : Nat} {e : Int} (hc : IsCanonical m e) (hm : 0 < m) :
    ∃ (t : Int) (k : Nat), t + k = e + 50 ∧
      divCore Format.binary64 m e (2 ^ 52) (-50) =
        (m * 2 ^ k / 2 ^ 52, t, accuracyOfFraction (m * 2 ^ k % 2 ^ 52) (2 ^ 52)) ∧
      (0 < m * 2 ^ k / 2 ^ 52 ∨ t = leastExponent) ∧
      t ≤ max (((m * 2 ^ k / 2 ^ 52).log2 : Int) + t - 52) leastExponent := by
  have hlog : m.log2 ≤ 52 := Nat.le_of_lt_succ ((Nat.log2_lt hm.ne').2 hc.lt)
  have hleast := hc.least
  have htwo : (2 ^ 52 : Nat).log2 = 52 := Nat.log2_two_pow
  have htarget : min (e - -50) (Format.binary64.targetExponent
      (totalExponent m e - totalExponent (2 ^ 52) (-50))) = max ((m.log2 : Int) + e - 55) leastExponent := by
    unfold totalExponent
    rw [htwo]
    change min (e - -50) (max (_ - ((1 + 52 : Nat) : Int)) (3 - 2 ^ 10 - (1 + 52 : Nat))) = _
    unfold leastExponent at *
    omega
  refine ⟨max ((m.log2 : Int) + e - 55) leastExponent,
    (e - -50 - max ((m.log2 : Int) + e - 55) leastExponent).toNat, by omega, ?_, ?_⟩
  · unfold divCore
    simp only [htarget, Nat.shiftLeft_eq]
  · by_cases hz : (m.log2 : Int) + e - 55 ≤ leastExponent
    · rw [max_eq_right hz]
      exact ⟨.inr rfl, le_max_right _ _⟩
    · have hmax : max ((m.log2 : Int) + e - 55) leastExponent = (m.log2 : Int) + e - 55 := by omega
      rw [hmax]
      have hk : (e - -50 - ((m.log2 : Int) + e - 55)).toNat = 105 - m.log2 := by omega
      rw [hk]
      have hge := pow_le_scaled_quotient hm hlog
      have hpos : 0 < m * 2 ^ (105 - m.log2) / 2 ^ 52 := by
        have : 0 < 2 ^ 53 := by positivity
        omega
      have := (Nat.le_log2 hpos.ne').2 hge
      exact ⟨.inl hpos, by omega⟩

private theorem below_quotient {n bound : Nat} {t limit : Int} (h : (n : ℚ) * 2 ^ t ≤ bound * 2 ^ limit * 2 ^ 52) :
    Below (n / 2 ^ 52) t (accuracyOfFraction (n % 2 ^ 52) (2 ^ 52)) bound limit := by
  have hP : (0 : ℚ) < 2 ^ t := by positivity
  have hsum : ((n / 2 ^ 52 : Nat) : ℚ) * 2 ^ 52 + (n % 2 ^ 52 : Nat) = n := by
    exact_mod_cast Nat.div_add_mod' n (2 ^ 52)
  generalize n / 2 ^ 52 = quotient at hsum
  generalize n % 2 ^ 52 = rest at hsum
  have hscaled : (quotient : ℚ) * 2 ^ t * 2 ^ 52 + rest * 2 ^ t ≤ bound * 2 ^ limit * 2 ^ 52 := by
    have hfactor : (quotient : ℚ) * 2 ^ t * 2 ^ 52 + rest * 2 ^ t = n * 2 ^ t := by
      rw [← hsum]
      ring
    rwa [hfactor]
  rcases Nat.eq_zero_or_pos rest with rfl | hrest
  · have hq : (quotient : ℚ) * 2 ^ t ≤ bound * 2 ^ limit := by
      rw [Nat.cast_zero, zero_mul] at hscaled
      linarith
    rcases hq.lt_or_eq with hlt | heq
    · exact .inl hlt
    · exact .inr ⟨heq, rfl⟩
  · have hrest' : (0 : ℚ) < rest * 2 ^ t := by positivity
    exact .inl (by linarith)

theorem rounds_quarter {u : UnpackedFloat} (hu : IsProper u) (hfour : 0 < 2 ^ 52) :
    Rounds ((ofUnpacked u).value / 4)
      (UnpackedFloat.div Format.binary64 u (.finite .positive (2 ^ 52) (-50) hfour)) := by
  cases u with
  | notANumber => cases hu
  | infinity s => cases hu
  | zero s =>
    have hzero : UnpackedFloat.div Format.binary64 (.zero s) (.finite .positive (2 ^ 52) (-50) hfour) =
      .zero (s / .positive) := rfl
    rw [hzero, value_zero, zero_div, ← value_zero (s / .positive)]
    exact .refl trivial
  | finite s m e hm =>
    have hsign : s / .positive = s := by cases s <;> rfl
    have hvalue : (ofUnpacked (.finite s m e hm)).value / 4 = signed s (m * 2 ^ e / 4) := by
      cases s with
      | negative => exact neg_div _ _
      | positive => rfl
    obtain ⟨t, k, htk, hcore, hpos, ht⟩ := divCore_four hu hm
    rw [hvalue]
    refine rounds_of_magnitude (by positivity) s fun bound limit hr hle => ?_
    -- The divisor stands for four with the mantissa `2 ^ 52`, so the quotient is one by a power of two.
    have hexact : (m * 2 ^ k : ℚ) * 2 ^ t = m * 2 ^ e / 4 * 2 ^ 52 := by
      have hpow : (2 : ℚ) ^ k * 2 ^ t = 2 ^ 50 * 2 ^ e := by
        rw [← two_zpow_add, ← two_zpow_add, htk]
        rfl
      rw [mul_assoc, hpow]
      ring
    have hbelow : Below (m * 2 ^ k / 2 ^ 52) t (accuracyOfFraction (m * 2 ^ k % 2 ^ 52) (2 ^ 52))
        bound limit := by
      refine below_quotient ?_
      push_cast
      rw [hexact]
      linarith
    have hdiv : UnpackedFloat.div Format.binary64 (.finite s m e hm)
        (.finite .positive (2 ^ 52) (-50) hfour) =
          roundWithAccuracy Format.binary64 s (m * 2 ^ k / 2 ^ 52) t
            (accuracyOfFraction (m * 2 ^ k % 2 ^ 52) (2 ^ 52)) := by
      unfold UnpackedFloat.div
      simp only [hcore, hsign]
    rw [hdiv]
    exact ofUnpacked_roundWithAccuracy s hbelow hr hpos ht

theorem ofFloat_of_isProper {u : UnpackedFloat} (h : IsProper u) :
    ofFloat (.ofModel (.pack u)) = ofUnpacked u := by
  cases u with
  | notANumber => cases h
  | infinity s => cases h
  | zero s => cases s <;> decide
  | finite s m e hm => exact ofFloat_ofModel_pack h s hm

theorem isFinite_of_isProper {u : UnpackedFloat} (h : IsProper u) :
    Float.isFinite (.ofModel (.pack u)) = true := by
  rw [isFinite_iff, ofFloat_of_isProper h]
  cases u with
  | notANumber => cases h
  | infinity s => cases h
  | zero s => exact ⟨_, _, _, rfl⟩
  | finite s m e hm => exact ⟨_, _, _, rfl⟩

end Binary64

open Binary64

/-- A float that stands for an exact value: one of the same sign, which is finite and within each bound in
range that the value is within. -/
def RoundsTo (v : ℚ) (z : Float) : Prop :=
  ∀ (bound : Nat) (limit : Int), InRange bound limit → |v| ≤ bound * 2 ^ limit →
    z.isFinite = true ∧ |valueOf z| ≤ bound * 2 ^ limit ∧ (0 ≤ v → 0 ≤ valueOf z)

theorem Binary64.Rounds.roundsTo {v : ℚ} {u : UnpackedFloat} (h : Rounds v u) :
    RoundsTo v (.ofModel (.pack u)) := by
  intro bound limit hr hle
  obtain ⟨hu, hbound, hsign⟩ := h bound limit hr hle
  rw [valueOf, ofFloat_of_isProper hu]
  exact ⟨isFinite_of_isProper hu, hbound, hsign⟩

variable {x y : Float}

theorem roundsTo_add (hx : x.isFinite = true) (hy : y.isFinite = true) :
    RoundsTo (valueOf x + valueOf y) (x + y) := by
  have h := (rounds_add (isProper_of_isFinite hx) (isProper_of_isFinite hy)).roundsTo
  rwa [← ofFloat_eq, ← ofFloat_eq] at h

theorem roundsTo_sub (hx : x.isFinite = true) (hy : y.isFinite = true) :
    RoundsTo (valueOf x - valueOf y) (x - y) := by
  have h := (rounds_sub (isProper_of_isFinite hx) (isProper_of_isFinite hy)).roundsTo
  rwa [← ofFloat_eq, ← ofFloat_eq] at h

private theorem unpack_four (hfour : 0 < 2 ^ 52) :
    (Scalar.ofNat 4 : Float).toModel.unpack = .finite .positive (2 ^ 52) (-50) hfour := by
  have hvalue : ofUnpacked (Scalar.ofNat 4 : Float).toModel.unpack = .finite false (2 ^ 52) (-50) := by
    rw [← ofFloat_eq]
    decide
  generalize (Scalar.ofNat 4 : Float).toModel.unpack = u at hvalue
  cases u with
  | notANumber => cases hvalue
  | infinity s => cases hvalue
  | zero s =>
    simp only [ofUnpacked, Binary64.finite.injEq] at hvalue
    omega
  | finite s m e hm =>
    simp only [ofUnpacked, Binary64.finite.injEq] at hvalue
    obtain ⟨hs, rfl, rfl⟩ := hvalue
    cases s with
    | negative => cases hs
    | positive => rfl

theorem roundsTo_quarter (hx : x.isFinite = true) : RoundsTo (valueOf x / 4) (x / Scalar.ofNat 4) := by
  have h := (rounds_quarter (isProper_of_isFinite hx) (by decide)).roundsTo
  rw [← unpack_four, ← ofFloat_eq] at h
  exact h

def greatest : ℚ := (2 ^ 53 - 1 : Nat) * 2 ^ greatestExponent

theorem inRange_greatest : InRange (2 ^ 53 - 1) greatestExponent := ⟨by decide, by decide, le_rfl⟩

theorem valueOf_le_greatest (hx : x.isFinite = true) : valueOf x ≤ greatest := by
  obtain ⟨negative, m, e, hm⟩ := isFinite_iff.1 hx
  have hc := isCanonical_of_ofFloat hm
  have hvalue : valueOf x ≤ m * 2 ^ e := by
    have hnonneg : (0 : ℚ) ≤ m * 2 ^ e := by positivity
    rw [valueOf, hm, Binary64.value]
    split
    · linarith
    · exact le_rfl
  have hlt : (m : ℚ) ≤ (2 ^ 53 - 1 : Nat) := by exact_mod_cast Nat.le_sub_one_of_lt hc.lt
  have hpow : (2 : ℚ) ^ e ≤ 2 ^ greatestExponent := zpow_le_zpow_right₀ (by norm_num) hc.most
  exact hvalue.trans (mul_le_mul hlt hpow (by positivity) (by positivity))

/-- Sums and differences that are not beyond all floats are finite. -/
theorem RoundsTo.isFinite {v : ℚ} {z : Float} (h : RoundsTo v z) (hv : |v| ≤ greatest) : z.isFinite = true :=
  (h _ _ inRange_greatest hv).1

/-- A late time has the greatest exponent, and the time that is left is a number in range. -/
theorem exists_left (hx : x.isFinite = true) (h : 2 ^ 52 * 2 ^ greatestExponent ≤ valueOf x) :
    ∃ left : Nat, InRange left greatestExponent ∧
      (left : ℚ) * 2 ^ greatestExponent = greatest - valueOf x := by
  obtain ⟨negative, m, e, hm⟩ := isFinite_iff.1 hx
  have hc := isCanonical_of_ofFloat hm
  have hpositive : valueOf x = m * 2 ^ e := by
    have hpos : (0 : ℚ) < valueOf x := lt_of_lt_of_le (by positivity) h
    have hnonneg : (0 : ℚ) ≤ m * 2 ^ e := by positivity
    rw [valueOf, hm, Binary64.value] at hpos ⊢
    split
    · rename_i hneg
      rw [if_pos hneg] at hpos
      linarith
    · rfl
  have he : e = greatestExponent := by
    have hle : ((2 ^ 52 : Nat) : ℚ) * 2 ^ greatestExponent ≤ m * 2 ^ e := by
      rw [← hpositive]
      exact_mod_cast h
    exact le_antisymm hc.most (le_exponent_of_le le_rfl hc.lt hle)
  subst he
  have hlt := hc.lt
  refine ⟨2 ^ 53 - 1 - m, ⟨by omega, by decide, le_rfl⟩, ?_⟩
  rw [hpositive, greatest, Nat.cast_sub (by omega), sub_mul]

end OpenCaptions.Number
