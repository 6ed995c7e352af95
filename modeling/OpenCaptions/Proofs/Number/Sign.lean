import OpenCaptions.Proofs.Number.Shortest

/-!
Signs of floats. The sign of a decimal is that of the float it is read as, and without it the decimal is
read as the absolute value.
-/
namespace OpenCaptions.Number

def hasSignBit (x : Float) : Bool := decide (2 ^ 63 ≤ x.toBits.toNat)

namespace Binary64

open Float.Model Float.Model.UnpackedFloat

variable {x : Float} {negative : Bool} {m : Nat} {e : Int}

theorem hasSignBit_eq (h : ofFloat x = finite negative m e) : hasSignBit x = negative := by
  have hbits := (decode_eq_finite x.toBits.toNat_lt h).2
  have hlt := encoded_lt (isCanonical_of_ofFloat h)
  unfold specialField at hlt
  unfold hasSignBit
  rw [hbits, signBit]
  cases negative with
  | false =>
    rw [decide_eq_false_iff_not, if_neg Bool.false_ne_true]
    omega
  | true =>
    rw [decide_eq_true_iff, if_pos rfl]
    omega

theorem signBit_add_inj {negative negative' : Bool} {k k' : Nat} (hk : k ≤ specialField * 2 ^ 52)
    (hk' : k' ≤ specialField * 2 ^ 52) (h : signBit negative + k = signBit negative' + k') :
    negative = negative' ∧ k = k' := by
  unfold specialField at hk hk'
  unfold signBit at h
  cases negative <;> cases negative' <;> simp at h ⊢ <;> omega

/-- An operation on the sign alone keeps the mantissa and the exponent. -/
theorem ofFloat_resigned (f : UnpackedFloat → UnpackedFloat) (onSign : Sign → Sign) (onBit : Bool → Bool)
    (hzero : ∀ s, f (.zero s) = .zero (onSign s))
    (hfinite : ∀ s m e hm, f (.finite s m e hm) = .finite (onSign s) m e hm)
    (hbit : ∀ s, (onSign s == .negative) = onBit (s == .negative)) (h : ofFloat x = finite negative m e) :
    ofFloat (.ofModel (.pack (f x.toModel.unpack))) = finite (onBit negative) m e := by
  have hc := isCanonical_of_ofFloat h
  rw [ofFloat_eq] at h
  cases hu : x.toModel.unpack with
  | notANumber =>
    rw [hu] at h
    cases h
  | infinity s =>
    rw [hu] at h
    cases h
  | zero s =>
    rw [hu] at h
    cases h
    rw [hzero, ← hbit]
    cases onSign s <;> decide
  | finite s m' e' hm =>
    rw [hu] at h
    cases h
    rw [hfinite, ofFloat_ofModel_pack hc, hbit]

theorem ofFloat_abs (h : ofFloat x = finite negative m e) : ofFloat x.abs = finite false m e :=
  ofFloat_resigned UnpackedFloat.abs (fun _ => .positive) (fun _ => false)
    (fun _ => rfl) (fun _ _ _ _ => rfl) (fun _ => rfl) h

theorem ofFloat_neg (h : ofFloat x = finite negative m e) : ofFloat (-x) = finite (!negative) m e :=
  ofFloat_resigned UnpackedFloat.neg (fun s => -s) (fun b => !b)
    (fun _ => rfl) (fun _ _ _ _ => rfl) (fun s => by cases s <;> rfl) h

theorem eq_of_ofFloat {y : Float} (hx : ofFloat x = finite negative m e) (hy : ofFloat y = finite negative m e) :
    x = y := (eq_pack hx).trans (eq_pack hy).symm

/-- A float with a sign is the negation of its absolute value, and any other is its absolute value. -/
theorem eq_signed_abs (h : x.isFinite = true) : x = if hasSignBit x then -x.abs else x.abs := by
  obtain ⟨negative, m, e, hx⟩ := isFinite_iff.1 h
  have habs := ofFloat_abs hx
  rw [hasSignBit_eq hx]
  cases negative with
  | false => exact eq_of_ofFloat hx habs
  | true => exact eq_of_ofFloat hx (ofFloat_neg habs)

/-- Whole numbers that are not too large are floats of that value. -/
theorem ofFloat_nearest_natural {n : Nat} (h0 : 0 < n) (h : n < 2 ^ 53) :
    ∃ (m : Nat) (e : Int), 0 < m ∧ (m : ℚ) * 2 ^ e = n ∧ ofFloat (nearest false n 1) = finite false m e := by
  have hne : n ≠ 0 := h0.ne'
  have hlog : n.log2 ≤ 52 := Nat.lt_succ_iff.1 ((Nat.log2_lt hne).2 h)
  have hsplit : 2 ^ (52 - n.log2) * 2 ^ n.log2 = 2 ^ 52 := by rw [← Nat.pow_add, Nat.sub_add_cancel hlog]
  have hlo : 2 ^ 52 ≤ n * 2 ^ (52 - n.log2) := by
    rw [← hsplit, Nat.mul_comm]
    exact Nat.mul_le_mul_right _ (Nat.log2_self_le hne)
  have hhi : n * 2 ^ (52 - n.log2) < 2 ^ 53 := by
    have hdouble : (2 : Nat) ^ 53 = 2 ^ (n.log2 + 1) * 2 ^ (52 - n.log2) := by
      rw [← Nat.pow_add]
      congr 1
      omega
    rw [hdouble]
    exact Nat.mul_lt_mul_of_pos_right Nat.lt_log2_self (by positivity)
  have hc : IsCanonical (n * 2 ^ (52 - n.log2)) ((n.log2 : Int) - 52) := by
    refine ⟨hhi, ?_, ?_, .inl hlo⟩
    · unfold leastExponent
      omega
    · unfold greatestExponent
      omega
  have hvalue : ((n : ℚ) / (1 : Nat)) = (n * 2 ^ (52 - n.log2) : Nat) * 2 ^ ((n.log2 : Int) - 52) := by
    have hexp : (n.log2 : Int) - 52 = -((52 - n.log2 : Nat) : Int) := by omega
    rw [hexp, zpow_neg, zpow_natCast]
    push_cast
    field_simp
  refine ⟨n * 2 ^ (52 - n.log2), n.log2 - 52, by positivity, by rw [← hvalue]; simp, ?_⟩
  rw [nearest_of_close hc Nat.one_pos (by rw [hvalue, sub_self, abs_zero, zero_mul]; positivity), ofFloat_eq_decode,
    toNat_toBits_pack _ (encoded_lt hc).le, decode_encoded hc]

end Binary64

namespace Decimal

open Binary64

private theorem exists_toFloat_eq_pack (digits : Nat) (exponent : Int) :
    ∃ k, k ≤ specialField * 2 ^ 52 ∧ ∀ negative, toFloat ⟨negative, digits, exponent⟩ = pack negative k := by
  have hnearest (num den : Nat) : ∃ k, ∀ negative, nearest negative num den = pack negative k := by
    unfold nearest
    split
    · exact ⟨_, fun _ => rfl⟩
    · exact ⟨_, fun _ => rfl⟩
  have htoFloat : ∃ k, ∀ negative, toFloat ⟨negative, digits, exponent⟩ = pack negative k := by
    unfold toFloat
    simp only
    split
    · exact ⟨_, fun _ => rfl⟩
    · split
      · exact ⟨_, fun _ => rfl⟩
      · split
        · exact hnearest _ _
        · exact hnearest _ _
  obtain ⟨k, hk⟩ := htoFloat
  refine ⟨min k (specialField * 2 ^ 52), Nat.min_le_right _ _, fun negative => (hk negative).trans ?_⟩
  unfold pack
  simp only [Nat.min_assoc, Nat.min_self]

variable {d : Decimal}

/-- The sign of a decimal and the absolute value of the float that it is read as. -/
theorem toFloat_spec (h : d.toFloat.isFinite = true) :
    hasSignBit d.toFloat = d.negative ∧ toFloat ⟨false, d.digits, d.exponent⟩ = d.toFloat.abs := by
  obtain ⟨k, hk, hpack⟩ := exists_toFloat_eq_pack d.digits d.exponent
  obtain ⟨negative, m, e, hx⟩ := isFinite_iff.1 h
  have hsign := hasSignBit_eq hx
  have hbits := (decode_eq_finite d.toFloat.toBits.toNat_lt hx).2
  have hlt := encoded_lt (isCanonical_of_ofFloat hx)
  rw [hpack d.negative, toNat_toBits_pack _ hk] at hbits
  obtain ⟨hn, hke⟩ := signBit_add_inj hk hlt.le hbits
  refine ⟨hsign.trans hn.symm, ?_⟩
  rw [hpack false, hke]
  exact (eq_pack (ofFloat_abs hx)).symm

end Decimal

end OpenCaptions.Number
