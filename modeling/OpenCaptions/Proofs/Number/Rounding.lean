import Mathlib
import OpenCaptions.Number.Binary64

/-!
Rounding quotients to floats. The result depends on the value of a quotient only, and a quotient that is
close enough to a float is rounded to it.
-/
namespace OpenCaptions.Number

private theorem roundHalfEven_eq {num den m : Nat} (hlo : 2 * (m * den) < 2 * num + den)
    (hhi : 2 * num < 2 * (m * den) + den) : roundHalfEven num den = m := by
  have hsum := Nat.div_add_mod num den
  have hlt : num % den < den := Nat.mod_lt _ (by omega)
  rw [Nat.mul_comm] at hsum
  have hle {a b : Nat} (h : a * den < b * den + den) : a ≤ b := by
    rw [← Nat.succ_mul] at h
    exact Nat.le_of_lt_succ (Nat.lt_of_mul_lt_mul_right h)
  have hsucc : (num / den + 1) * den = num / den * den + den := Nat.succ_mul _ _
  have hmsucc : (m + 1) * den = m * den + den := Nat.succ_mul _ _
  simp only [roundHalfEven]
  split
  · have h1 : m ≤ num / den := hle (by omega)
    have h2 : num / den ≤ m := hle (by omega)
    omega
  · split
    · have h1 : m ≤ num / den + 1 := hle (by omega)
      have h2 : num / den + 1 ≤ m := hle (by omega)
      omega
    · have h1 : m ≤ num / den := hle (by omega)
      have h2 : num / den + 1 ≤ m := hle (by omega)
      omega

theorem roundHalfEven_of_close {num den m : Nat} (hd : 0 < den)
    (h : |(num : ℚ) / den - m| < 1 / 2) : roundHalfEven num den = m := by
  have hd' : (0 : ℚ) < den := by exact_mod_cast hd
  rw [abs_lt] at h
  obtain ⟨hlo, hhi⟩ := h
  have hlo' : (m : ℚ) - 1 / 2 < num / den := by linarith
  have hhi' : (num : ℚ) / den < m + 1 / 2 := by linarith
  rw [lt_div_iff₀ hd'] at hlo'
  rw [div_lt_iff₀ hd'] at hhi'
  apply roundHalfEven_eq
  · have : (2 * (m * den) : ℚ) < 2 * num + den := by linarith
    exact_mod_cast this
  · have : (2 * num : ℚ) < 2 * (m * den) + den := by linarith
    exact_mod_cast this

private theorem roundHalfEven_mul_right (num den : Nat) {c : Nat} (hc : 0 < c) :
    roundHalfEven (num * c) (den * c) = roundHalfEven num den := by
  have hlt {a b : Nat} : 2 * (a * c) < b * c ↔ 2 * a < b := by
    rw [← Nat.mul_assoc]
    exact Nat.mul_lt_mul_right hc
  have hgt {a b : Nat} : a * c < 2 * (b * c) ↔ a < 2 * b := by
    rw [← Nat.mul_assoc]
    exact Nat.mul_lt_mul_right hc
  simp only [roundHalfEven, Nat.mul_div_mul_right _ _ hc, Nat.mul_mod_mul_right, hlt, hgt]

theorem roundHalfEven_congr {num den num' den' : Nat} (hd : 0 < den) (hd' : 0 < den')
    (h : (num : ℚ) / den = num' / den') : roundHalfEven num den = roundHalfEven num' den' := by
  have hd0 : (den : ℚ) ≠ 0 := by exact_mod_cast hd.ne'
  have hd0' : (den' : ℚ) ≠ 0 := by exact_mod_cast hd'.ne'
  rw [div_eq_div_iff hd0 hd0'] at h
  have hcross : num * den' = num' * den := by exact_mod_cast h
  rw [← roundHalfEven_mul_right num den hd', hcross, Nat.mul_comm den den',
    roundHalfEven_mul_right num' den' hd]

/-- A power with an integer as exponent is a quotient of two with naturals, of which one is zero. -/
theorem zpow_eq_div (a : ℚ) (k : Int) : a ^ k = a ^ k.toNat / a ^ (-k).toNat := by
  rcases le_total 0 k with hk | hk
  · have h0 : (-k).toNat = 0 := by omega
    obtain ⟨n, rfl⟩ := Int.eq_ofNat_of_zero_le hk
    rw [h0]
    simp
  · have h0 : k.toNat = 0 := by omega
    obtain ⟨n, hn⟩ := Int.eq_ofNat_of_zero_le (show 0 ≤ -k by omega)
    obtain rfl : k = -(n : Int) := by omega
    rw [h0]
    simp

namespace Binary64

variable {num den : Nat}

theorem powerAtMost_iff (hd : 0 < den) (k : Int) :
    powerAtMost k num den = true ↔ (2 : ℚ) ^ k ≤ num / den := by
  have hd' : (0 : ℚ) < den := by exact_mod_cast hd
  rw [le_div_iff₀ hd', zpow_eq_div]
  unfold powerAtMost
  split
  · have h0 : (-k).toNat = 0 := by omega
    rw [h0, pow_zero, div_one, decide_eq_true_iff, mul_comm]
    exact_mod_cast Iff.rfl
  · have h0 : k.toNat = 0 := by omega
    rw [h0, pow_zero, decide_eq_true_iff, one_div, inv_mul_le_iff₀ (by positivity), mul_comm]
    exact_mod_cast Iff.rfl

theorem le_cast_log2 {n : Nat} (hn : 0 < n) : (2 : ℚ) ^ (n.log2 : Int) ≤ n := by
  rw [zpow_natCast]
  exact_mod_cast Nat.log2_self_le hn.ne'

private theorem cast_lt_log2 (n : Nat) : (n : ℚ) < 2 ^ ((n.log2 : Int) + 1) := by
  have h : (n.log2 : Int) + 1 = (n.log2 + 1 : Nat) := by push_cast; rfl
  rw [h, zpow_natCast]
  exact_mod_cast Nat.lt_log2_self

/-- A positive quotient lies between the power of two of its scale and the next one. -/
theorem scale_spec (hn : 0 < num) (hd : 0 < den) :
    (2 : ℚ) ^ scale num den ≤ num / den ∧ (num : ℚ) / den < 2 ^ (scale num den + 1) := by
  have hd' : (0 : ℚ) < den := by exact_mod_cast hd
  have hnlo := le_cast_log2 hn
  have hnhi := cast_lt_log2 num
  have hdlo := le_cast_log2 hd
  have hdhi := cast_lt_log2 den
  have hupper : (num : ℚ) / den < 2 ^ ((num.log2 : Int) - den.log2 + 1) := by
    rw [div_lt_iff₀ hd']
    calc (num : ℚ) < 2 ^ ((num.log2 : Int) + 1) := hnhi
      _ = 2 ^ ((num.log2 : Int) - den.log2 + 1) * 2 ^ (den.log2 : Int) := by
        rw [← zpow_add₀ (by norm_num)]
        congr 1
        ring
      _ ≤ 2 ^ ((num.log2 : Int) - den.log2 + 1) * den := by gcongr
  have hlower : (2 : ℚ) ^ ((num.log2 : Int) - den.log2 - 1) ≤ num / den := by
    rw [le_div_iff₀ hd']
    calc (2 : ℚ) ^ ((num.log2 : Int) - den.log2 - 1) * den
        ≤ 2 ^ ((num.log2 : Int) - den.log2 - 1) * 2 ^ ((den.log2 : Int) + 1) := by gcongr
      _ = 2 ^ (num.log2 : Int) := by
        rw [← zpow_add₀ (by norm_num)]
        congr 1
        ring
      _ ≤ num := hnlo
  simp only [scale]
  split
  · rename_i hp
    exact ⟨(powerAtMost_iff hd _).1 hp, hupper⟩
  · rename_i hp
    rw [powerAtMost_iff hd, not_le] at hp
    exact ⟨hlower, by rwa [sub_add_cancel]⟩

theorem scale_eq (hn : 0 < num) (hd : 0 < den) {k : Int} (hlo : (2 : ℚ) ^ k ≤ num / den)
    (hhi : (num : ℚ) / den < 2 ^ (k + 1)) : scale num den = k := by
  obtain ⟨hlo', hhi'⟩ := scale_spec hn hd
  have h1 : k < scale num den + 1 := (zpow_lt_zpow_iff_right₀ (by norm_num)).1 (hlo.trans_lt hhi')
  have h2 : scale num den < k + 1 := (zpow_lt_zpow_iff_right₀ (by norm_num)).1 (hlo'.trans_lt hhi)
  omega

theorem scale_congr {num' den' : Nat} (hn : 0 < num) (hd : 0 < den) (hn' : 0 < num') (hd' : 0 < den')
    (h : (num : ℚ) / den = num' / den') : scale num den = scale num' den' := by
  obtain ⟨hlo, hhi⟩ := scale_spec hn' hd'
  exact scale_eq hn hd (h ▸ hlo) (h ▸ hhi)

def mantissaAt (exponent : Int) (num den : Nat) : Nat :=
  if 0 ≤ exponent then roundHalfEven num (den * 2 ^ exponent.toNat)
  else roundHalfEven (num * 2 ^ (-exponent).toNat) den

def exponentOf (num den : Nat) : Int := max (scale num den - 52) leastExponent

def encoded (mantissa : Nat) (exponent : Int) : Nat :=
  (exponent - leastExponent).toNat * 2 ^ 52 + mantissa

theorem nearest_eq (negative : Bool) (hn : 0 < num) :
    nearest negative num den =
      pack negative (encoded (mantissaAt (exponentOf num den) num den) (exponentOf num den)) := by
  simp [nearest, encoded, mantissaAt, exponentOf, hn.ne']

theorem exists_mantissaAt (num : Nat) (hd : 0 < den) (e : Int) :
    ∃ a b : Nat, 0 < b ∧ mantissaAt e num den = roundHalfEven a b ∧
      (a : ℚ) / b = num / den / 2 ^ e := by
  have hd' : (den : ℚ) ≠ 0 := by exact_mod_cast hd.ne'
  rw [zpow_eq_div]
  unfold mantissaAt
  split
  · have h0 : (-e).toNat = 0 := by omega
    refine ⟨num, den * 2 ^ e.toNat, by positivity, rfl, ?_⟩
    rw [h0]
    push_cast
    field_simp
  · have h0 : e.toNat = 0 := by omega
    refine ⟨num * 2 ^ (-e).toNat, den, hd, rfl, ?_⟩
    rw [h0]
    push_cast
    field_simp

theorem nearest_congr {num' den' : Nat} (hd : 0 < den) (hd' : 0 < den')
    (h : (num : ℚ) / den = num' / den') (negative : Bool) :
    nearest negative num den = nearest negative num' den' := by
  have hd0 : (den : ℚ) ≠ 0 := by exact_mod_cast hd.ne'
  have hd0' : (den' : ℚ) ≠ 0 := by exact_mod_cast hd'.ne'
  have hcross : num * den' = num' * den := by
    rw [div_eq_div_iff hd0 hd0'] at h
    exact_mod_cast h
  rcases Nat.eq_zero_or_pos num with rfl | hn
  · have hn' : num' = 0 := by
      rw [Nat.zero_mul, eq_comm, Nat.mul_eq_zero] at hcross
      omega
    simp [nearest, hn']
  · have hn' : 0 < num' := by
      rcases Nat.eq_zero_or_pos num' with rfl | hn'
      · rw [Nat.zero_mul, Nat.mul_eq_zero] at hcross
        omega
      · exact hn'
    have he : exponentOf num den = exponentOf num' den' := by
      rw [exponentOf, scale_congr hn hd hn' hd' h, exponentOf]
    obtain ⟨a, b, hb, hm, hab⟩ := exists_mantissaAt num hd (exponentOf num' den')
    obtain ⟨a', b', hb', hm', hab'⟩ := exists_mantissaAt num' hd' (exponentOf num' den')
    rw [nearest_eq negative hn, nearest_eq negative hn', he, hm, hm',
      roundHalfEven_congr hb hb' (by rw [hab, hab', h])]

def greatestExponent : Int := 971

/-- Mantissa and exponent of a finite float. -/
structure IsCanonical (mantissa : Nat) (exponent : Int) : Prop where
  lt : mantissa < 2 ^ 53
  least : leastExponent ≤ exponent
  most : exponent ≤ greatestExponent
  normal : 2 ^ 52 ≤ mantissa ∨ exponent = leastExponent

theorem two_zpow_add (e : Int) (n : Nat) : (2 : ℚ) ^ (e + n) = 2 ^ n * 2 ^ e := by
  rw [zpow_add₀ (by norm_num), zpow_natCast, mul_comm]

/-- A quotient is rounded at the exponent at which its mantissa has 53 binary digits, or at the least one. -/
theorem exponentOf_eq {e : Int} (hn : 0 < num) (hd : 0 < den) (hleast : leastExponent ≤ e)
    (hlo : 2 ^ 52 * 2 ^ e ≤ (num : ℚ) / den ∨ e = leastExponent)
    (hhi : (num : ℚ) / den < 2 ^ 53 * 2 ^ e) : exponentOf num den = e := by
  unfold exponentOf
  by_cases hbig : 2 ^ 52 * 2 ^ e ≤ (num : ℚ) / den
  · have h52 : (2 : ℚ) ^ (e + 52) = 2 ^ 52 * 2 ^ e := two_zpow_add e 52
    have h53 : (2 : ℚ) ^ (e + 52 + 1) = 2 ^ 53 * 2 ^ e := by
      rw [add_assoc]
      exact two_zpow_add e 53
    rw [scale_eq hn hd (h52 ▸ hbig) (h53 ▸ hhi)]
    omega
  · have he : e = leastExponent := hlo.resolve_left hbig
    have hsmall := (scale_spec hn hd).1
    have h53 : (2 : ℚ) ^ (e + 53) = 2 ^ 53 * 2 ^ e := two_zpow_add e 53
    rw [not_le, show (2 : ℚ) ^ 52 * 2 ^ e = 2 ^ (e + 52) from (two_zpow_add e 52).symm] at hbig
    have := (zpow_lt_zpow_iff_right₀ (by norm_num)).1 (hsmall.trans_lt hbig)
    omega

/-- A quotient that is nearer to a mantissa than half a unit is rounded to it. -/
theorem mantissaAt_eq {m : Nat} {e : Int} (hd : 0 < den)
    (h : |(num : ℚ) / den - m * 2 ^ e| < 1 / 2 * 2 ^ e) : mantissaAt e num den = m := by
  have hP : (0 : ℚ) < 2 ^ e := by positivity
  obtain ⟨a, b, hb, hround, hab⟩ := exists_mantissaAt num hd e
  rw [hround]
  refine roundHalfEven_of_close hb ?_
  have hdiff : (a : ℚ) / b - m = (num / den - m * 2 ^ e) / 2 ^ e := by
    rw [hab]
    field_simp
  rwa [hdiff, abs_div, abs_of_pos hP, div_lt_iff₀ hP]

private theorem nearest_below_power {e : Int} (hn : 0 < num) (hd : 0 < den) (he : leastExponent ≤ e - 1)
    (hlo : (2 ^ 52 - 1 / 4) * 2 ^ e < (num : ℚ) / den) (hhi : (num : ℚ) / den < 2 ^ 52 * 2 ^ e)
    (negative : Bool) : nearest negative num den = pack negative (encoded (2 ^ 52) e) := by
  -- Floats lie closer together there, so the exponent is one less and the mantissa carries over.
  have hP : (0 : ℚ) < 2 ^ e := by positivity
  have hhalf : (2 : ℚ) ^ (e - 1) = 2 ^ e / 2 := by rw [zpow_sub₀ (by norm_num), zpow_one]
  have hexp : exponentOf num den = e - 1 := by
    refine exponentOf_eq hn hd he (.inl ?_) ?_
    · rw [hhalf]
      linarith
    · rw [hhalf]
      linarith
  have hmant : mantissaAt (e - 1) num den = 2 ^ 53 := by
    refine mantissaAt_eq hd ?_
    rw [hhalf, Nat.cast_pow, Nat.cast_ofNat, abs_lt]
    constructor <;> linarith
  have hcarry : encoded (2 ^ 53) (e - 1) = encoded (2 ^ 52) e := by
    unfold encoded
    omega
  rw [nearest_eq negative hn, hexp, hmant, hcarry]

/-- A quotient that differs from a float by less than the 54th binary digit is rounded to it. -/
theorem nearest_of_close {m : Nat} {e : Int} (hc : IsCanonical m e) (hd : 0 < den)
    (h : |(num : ℚ) / den - m * 2 ^ e| * 2 ^ 54 < m * 2 ^ e) (negative : Bool) :
    nearest negative num den = pack negative (encoded m e) := by
  have hP : (0 : ℚ) < 2 ^ e := by positivity
  have hV : (m : ℚ) * 2 ^ e ≤ (2 ^ 53 - 1) * 2 ^ e := by
    have hm : (m : ℚ) + 1 ≤ 2 ^ 53 := by exact_mod_cast hc.lt
    gcongr
    linarith
  have hclose := h
  rw [← lt_div_iff₀ (by positivity)] at hclose
  obtain ⟨hlo, hhi⟩ := abs_lt.1 hclose
  have hn : 0 < num := by
    have hVpos : (0 : ℚ) < m * 2 ^ e := lt_of_le_of_lt (by positivity) h
    rcases Nat.eq_zero_or_pos num with rfl | hn
    · rw [Nat.cast_zero, zero_div] at hlo
      linarith
    · exact hn
  by_cases hcase : 2 ^ 52 * 2 ^ e ≤ (num : ℚ) / den ∨ e = leastExponent
  · have hexp : exponentOf num den = e := exponentOf_eq hn hd hc.least hcase (by linarith)
    have hmant : mantissaAt e num den = m := mantissaAt_eq hd (by linarith)
    rw [nearest_eq negative hn, hexp, hmant]
  · rw [not_or, not_le] at hcase
    obtain ⟨hsmall, he⟩ := hcase
    have hmge : (2 ^ 52 : ℚ) * 2 ^ e ≤ m * 2 ^ e := by
      have : (2 ^ 52 : ℚ) ≤ m := by exact_mod_cast hc.normal.resolve_right he
      gcongr
    obtain rfl : m = 2 ^ 52 := by
      have hlt : (m : ℚ) * 2 ^ e < (2 ^ 52 + 1 : Nat) * 2 ^ e := by
        push_cast
        linarith
      have : m < 2 ^ 52 + 1 := by exact_mod_cast lt_of_mul_lt_mul_right hlt hP.le
      have := hc.normal.resolve_right he
      omega
    have hleast : leastExponent ≤ e - 1 := by
      have := hc.least
      omega
    push_cast at hlo
    exact nearest_below_power hn hd hleast (by linarith) hsmall negative

end Binary64

end OpenCaptions.Number
