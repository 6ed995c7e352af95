import OpenCaptions.Number.Scalar
import OpenCaptions.Proofs.Number.Sign

/-!
Natural numbers made of other numbers. They do not exceed their limit, and of exact natural numbers nothing is lost.
-/
namespace OpenCaptions

namespace Number

theorem nearestNat_le (x : Float) (limit : Nat) : nearestNat x limit ≤ limit := by
  unfold nearestNat
  split
  · exact Nat.zero_le _
  · split
    · exact Nat.zero_le _
    · exact Nat.le_refl _
  · dsimp only
    split
    · exact Nat.zero_le _
    · exact Nat.min_le_right _ _

theorem truncatedNat_le (x : Float) (limit : Nat) : truncatedNat x limit ≤ limit := by
  unfold truncatedNat
  split
  · exact Nat.zero_le _
  · split
    · exact Nat.zero_le _
    · exact Nat.le_refl _
  · dsimp only
    split
    · exact Nat.zero_le _
    · exact Nat.min_le_right _ _

/-- The nearest natural number of a float whose value is one. -/
theorem nearestNat_of_value {x : Float} {m n : Nat} {e : Int} (hx : Binary64.ofFloat x = .finite false m e)
    (hvalue : (m : ℚ) * 2 ^ e = n) (limit : Nat) : nearestNat x limit = min n limit := by
  have hquotient : ∃ den, 0 < den ∧ Binary64.quotient m e = (n * den, den) := by
    unfold Binary64.quotient
    split
    · rename_i he
      obtain ⟨k, rfl⟩ := Int.eq_ofNat_of_zero_le he
      refine ⟨1, Nat.one_pos, ?_⟩
      rw [zpow_natCast] at hvalue
      rw [Int.toNat_natCast, Nat.mul_one, ← show m * 2 ^ k = n by exact_mod_cast hvalue]
    · rename_i he
      obtain ⟨k, hk⟩ := Int.eq_ofNat_of_zero_le (show 0 ≤ -e by omega)
      obtain rfl : e = -(k : Int) := by omega
      refine ⟨2 ^ k, by positivity, ?_⟩
      rw [zpow_neg, zpow_natCast, ← div_eq_mul_inv, div_eq_iff (by positivity)] at hvalue
      rw [neg_neg, Int.toNat_natCast, show m = n * 2 ^ k by exact_mod_cast hvalue]
  obtain ⟨den, hden, hquotient⟩ := hquotient
  have hround : roundHalfUp (n * den) den = n := by
    have hsplit : 2 * (n * den) + den = den + 2 * den * n := by ring
    rw [roundHalfUp, hsplit, Nat.add_mul_div_left _ _ (by omega), Nat.div_eq_of_lt (by omega), Nat.zero_add]
  unfold nearestNat
  rw [hx]
  simp only [hquotient, hround, Bool.false_eq_true, if_false]

theorem nearestNat_nearest {n : Nat} (h : n < 2 ^ 53) (limit : Nat) :
    nearestNat (Binary64.nearest false n 1) limit = min n limit := by
  rcases Nat.eq_zero_or_pos n with rfl | h0
  · have hzero : Binary64.ofFloat (Binary64.nearest false 0 1) = .finite false 0 Binary64.leastExponent := by decide
    exact nearestNat_of_value hzero (by simp) limit
  · obtain ⟨m, e, -, hvalue, hx⟩ := Binary64.ofFloat_nearest_natural h0 h
    exact nearestNat_of_value hx hvalue limit

end Number

theorem ofNat_rat (n : Nat) : (Scalar.ofNat n : Rat) = n := rfl

theorem positivePart_rat (a : Rat) : Scalar.positivePart a = max 0 a := by
  change (if decide (((0 : Nat) : Rat) < a) = true then a else ((0 : Nat) : Rat)) = max 0 a
  rw [Nat.cast_zero]
  split
  · rename_i hpos
    exact (max_eq_right (le_of_lt (of_decide_eq_true hpos))).symm
  · rename_i hnot
    exact (max_eq_left (not_lt.1 (by simpa using hnot))).symm

theorem nearestNat_natCast (n limit : Nat) : Scalar.nearestNat (n : Rat) limit = min n limit := by
  have hfloor : ((n : Rat) + 1 / 2).floor = n := by
    have hlow : (n : Int) ≤ ((n : Rat) + 1 / 2).floor := by
      rw [Rat.le_floor_iff, Int.cast_natCast]
      linarith
    have hhigh : ((n : Rat) + 1 / 2).floor < (n : Int) + 1 := by
      rw [Rat.floor_lt_iff, Int.cast_add, Int.cast_natCast, Int.cast_one]
      linarith
    omega
  change Nat.min ((n : Rat) + 1 / 2).floor.toNat limit = min n limit
  rw [hfloor, Int.toNat_natCast]

end OpenCaptions
