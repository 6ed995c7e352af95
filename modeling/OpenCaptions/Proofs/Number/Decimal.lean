import OpenCaptions.Proofs.Number.Bits
import OpenCaptions.Proofs.Number.Positional

/-!
The value of decimals. The float of a decimal depends on its value only, and a decimal that is close enough
to a float is read as that float.
-/
namespace OpenCaptions.Number.Decimal

open Binary64

def value (d : Decimal) : ℚ := d.digits * 10 ^ d.exponent

/-- Number of digits before the point, were the first digit not zero. -/
def size (d : Decimal) : Int := digitCount d.digits + d.exponent

variable {d d' : Decimal}

theorem value_lt (d : Decimal) : d.value < 10 ^ d.size := by
  have h : (d.digits : ℚ) < 10 ^ digitCount d.digits := by exact_mod_cast lt_pow_digitCount d.digits
  rw [value, size, zpow_add₀ (by norm_num), zpow_natCast]
  gcongr

theorem pow_le_value (h : 0 < d.digits) : 10 ^ (d.size - 1) ≤ d.value := by
  have hle : (10 : ℚ) ^ (digitCount d.digits - 1) ≤ d.digits := by exact_mod_cast pow_digitCount_le h
  have hpos := digitCount_pos d.digits
  have hsize : d.size - 1 = ((digitCount d.digits - 1 : Nat) : Int) + d.exponent := by
    unfold size
    omega
  rw [value, hsize, zpow_add₀ (by norm_num), zpow_natCast]
  gcongr

theorem value_pos_iff : 0 < d.value ↔ 0 < d.digits := by
  have hP : (0 : ℚ) < 10 ^ d.exponent := by positivity
  rw [value, mul_pos_iff_of_pos_right hP, Nat.cast_pos]

theorem size_congr (hd : 0 < d.digits) (h : d.value = d'.value) : d.size = d'.size := by
  have hd' : 0 < d'.digits := by rwa [← value_pos_iff, ← h, value_pos_iff]
  have h1 := (pow_le_value hd).trans_lt (h ▸ d'.value_lt)
  have h2 := (pow_le_value hd').trans_lt (h ▸ d.value_lt)
  have := (zpow_lt_zpow_iff_right₀ (by norm_num)).1 h1
  have := (zpow_lt_zpow_iff_right₀ (by norm_num)).1 h2
  omega

/-- A decimal of ordinary size is rounded as a quotient. -/
theorem toFloat_eq_nearest (hd : 0 < d.digits) (hlo : -400 ≤ d.size) (hhi : d.size ≤ 400) :
    ∃ num den : Nat, 0 < den ∧ (num : ℚ) / den = d.value ∧
      d.toFloat = nearest d.negative num den := by
  have hfar : ¬ (d.digits = 0 ∨ d.size < -400) := by omega
  have hnear : ¬ 400 < d.size := by omega
  have hsize : (digitCount d.digits : Int) + d.exponent = d.size := rfl
  simp only [toFloat, hsize, if_neg hfar, if_neg hnear]
  rw [value, zpow_eq_div]
  split
  · have h0 : (-d.exponent).toNat = 0 := by omega
    refine ⟨_, 1, Nat.one_pos, ?_, rfl⟩
    rw [h0]
    push_cast
    ring
  · have h0 : d.exponent.toNat = 0 := by omega
    refine ⟨_, _, Nat.pow_pos (by omega), ?_, rfl⟩
    rw [h0]
    push_cast
    ring

/-- The float of a decimal depends on its sign and value. -/
theorem toFloat_congr (hs : d.negative = d'.negative) (h : d.value = d'.value) : d.toFloat = d'.toFloat := by
  rcases Nat.eq_zero_or_pos d.digits with hd | hd
  · have hd' : d'.digits = 0 := by
      by_contra hne
      have := value_pos_iff.2 (Nat.pos_of_ne_zero hne)
      rw [← h, value_pos_iff] at this
      omega
    simp [toFloat, hd, hd', hs]
  · have hd' : 0 < d'.digits := by rwa [← value_pos_iff, ← h, value_pos_iff]
    have hsize := size_congr hd h
    have hd1 : (digitCount d.digits : Int) + d.exponent = d.size := rfl
    have hd1' : (digitCount d'.digits : Int) + d'.exponent = d.size := hsize.symm
    by_cases hsmall : d.size < -400
    · simp only [toFloat, hd1, hd1', hsmall, or_true, if_true, hs]
    · by_cases hbig : 400 < d.size
      · have h1 : ¬ (d.digits = 0 ∨ d.size < -400) := by omega
        have h2 : ¬ (d'.digits = 0 ∨ d.size < -400) := by omega
        simp only [toFloat, hd1, hd1', if_neg h1, if_neg h2, if_pos hbig, hs]
      · obtain ⟨num, den, hpos, hq, hf⟩ := toFloat_eq_nearest hd (by omega) (by omega)
        obtain ⟨num', den', hpos', hq', hf'⟩ := toFloat_eq_nearest hd' (by omega) (by omega)
        rw [hf, hf', hs, nearest_congr hpos hpos' (by rw [hq, hq', h])]

/-- The exact decimal of a float has its value. -/
theorem value_exact (negative : Bool) (m : Nat) (e : Int) : (exact negative m e).value = m * 2 ^ e := by
  rw [zpow_eq_div]
  unfold exact value
  split
  · have h0 : (-e).toNat = 0 := by omega
    rw [h0]
    push_cast
    ring
  · rename_i he
    have h0 : e.toNat = 0 := by omega
    have hten : (10 : ℚ) ^ (-e).toNat = 5 ^ (-e).toNat * 2 ^ (-e).toNat := by
      rw [← mul_pow]
      norm_num
    simp only [zpow_eq_div, h0, hten]
    push_cast
    field_simp

private theorem ten_zpow_lt_least : 2 * (10 : ℚ) ^ (-324 : Int) < 2 ^ leastExponent := by
  have h : (2 : Nat) * 2 ^ 1074 < 10 ^ 324 := by decide +kernel
  have h' : (2 : ℚ) * 2 ^ 1074 < 10 ^ 324 := by exact_mod_cast h
  have h10 : (10 : ℚ) ^ (-324 : Int) = 1 / 10 ^ 324 := by rw [zpow_neg, zpow_ofNat, one_div]
  have h2 : (2 : ℚ) ^ leastExponent = 1 / 2 ^ 1074 := by
    rw [leastExponent, zpow_neg, zpow_ofNat, one_div]
  rw [h10, h2, mul_one_div, div_lt_div_iff₀ (by positivity) (by positivity), one_mul]
  exact h'

private theorem most_lt_ten_zpow : 2 * ((2 : ℚ) ^ 53 * 2 ^ greatestExponent) < 10 ^ (309 : Int) := by
  have h : (2 : Nat) * (2 ^ 53 * 2 ^ 971) < 10 ^ 309 := by decide +kernel
  rw [greatestExponent, zpow_ofNat, zpow_ofNat]
  exact_mod_cast h

/-- The size of a decimal that is not far from a float. -/
theorem size_bounds {m : Nat} {e : Int} (hc : IsCanonical m e) (hm : 0 < m)
    (hlo : m * 2 ^ e ≤ 2 * d.value) (hhi : d.value ≤ 2 * (m * 2 ^ e)) :
    -324 < d.size ∧ d.size < 310 := by
  have hm1 : (1 : ℚ) ≤ m := by exact_mod_cast hm
  have hm53 : (m : ℚ) ≤ 2 ^ 53 := by exact_mod_cast hc.lt.le
  have hleast : (2 : ℚ) ^ leastExponent ≤ 2 ^ e := zpow_le_zpow_right₀ (by norm_num) hc.least
  have hmost : (2 : ℚ) ^ e ≤ 2 ^ greatestExponent := zpow_le_zpow_right₀ (by norm_num) hc.most
  constructor
  · have h : 2 * (10 : ℚ) ^ (-324 : Int) < 2 * 10 ^ d.size := by
      calc 2 * (10 : ℚ) ^ (-324 : Int) < 2 ^ leastExponent := ten_zpow_lt_least
        _ ≤ 1 * 2 ^ e := hleast.trans_eq (one_mul _).symm
        _ ≤ m * 2 ^ e := by gcongr
        _ ≤ 2 * d.value := hlo
        _ ≤ 2 * 10 ^ d.size := by
          have := d.value_lt.le
          gcongr
    exact (zpow_lt_zpow_iff_right₀ (by norm_num)).1 (lt_of_mul_lt_mul_left h (by norm_num))
  · have hpos : 0 < d.digits := by
      have hV : (0 : ℚ) < m * 2 ^ e := by positivity
      rw [← value_pos_iff]
      linarith
    have h : (10 : ℚ) ^ (d.size - 1) < 10 ^ (309 : Int) := by
      calc (10 : ℚ) ^ (d.size - 1) ≤ d.value := pow_le_value hpos
        _ ≤ 2 * (m * 2 ^ e) := hhi
        _ ≤ 2 * (2 ^ 53 * 2 ^ greatestExponent) := by gcongr
        _ < 10 ^ (309 : Int) := most_lt_ten_zpow
    have := (zpow_lt_zpow_iff_right₀ (by norm_num)).1 h
    omega

/-- A decimal that differs from a float by less than the 54th binary digit is read as that float. -/
theorem toFloat_of_close {m : Nat} {e : Int} (hc : IsCanonical m e)
    (h : |d.value - m * 2 ^ e| * 2 ^ 54 < m * 2 ^ e) :
    d.toFloat = pack d.negative (encoded m e) := by
  have hV : (0 : ℚ) < m * 2 ^ e := lt_of_le_of_lt (by positivity) h
  have hm : 0 < m := by
    have hP : (0 : ℚ) < 2 ^ e := by positivity
    exact_mod_cast (mul_pos_iff_of_pos_right hP).1 hV
  have hclose := h
  rw [← lt_div_iff₀ (by positivity)] at hclose
  obtain ⟨hlo, hhi⟩ := abs_lt.1 hclose
  have hd : 0 < d.digits := by
    rw [← value_pos_iff]
    linarith
  obtain ⟨hsmall, hbig⟩ := size_bounds (d := d) hc hm (by linarith) (by linarith)
  obtain ⟨num, den, hpos, hq, hf⟩ := toFloat_eq_nearest hd (by omega) (by omega)
  rw [hf]
  exact nearest_of_close hc hpos (hq ▸ h) d.negative

end OpenCaptions.Number.Decimal
