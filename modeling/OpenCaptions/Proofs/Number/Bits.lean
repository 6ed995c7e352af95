import OpenCaptions.Proofs.Number.Rounding

/-!
The bits of floats. A finite float is its sign, mantissa and exponent packed, whether it is decoded here or
unpacked for arithmetic.
-/
namespace OpenCaptions.Number.Binary64

open Float.Model Float.Model.UnpackedFloat

theorem toNat_packComponents (s : Sign) (field : BitVec 11) (fraction : BitVec 52) :
    (packComponents Format.binary64 s field fraction).toNat =
      s.toBitVec.toNat * 2 ^ 63 + field.toNat * 2 ^ 52 + fraction.toNat := by
  have hf := fraction.isLt
  have he := field.isLt
  unfold packComponents
  rw [BitVec.toNat_append, BitVec.toNat_append, ← Nat.shiftLeft_add_eq_or_of_lt hf,
    ← Nat.shiftLeft_add_eq_or_of_lt he, Nat.shiftLeft_eq, Nat.shiftLeft_eq]
  omega

section Fields

variable (b : BitVec Format.binary64.numBits)

theorem toNat_unpackMantissa : (unpackMantissa b).toNat = b.toNat % 2 ^ 52 := by
  simp [unpackMantissa, BitVec.extractLsb_toNat]

theorem toNat_unpackExponent : (unpackExponent b).toNat = b.toNat / 2 ^ 52 % 2 ^ 11 := by
  simp [unpackExponent, BitVec.extractLsb_toNat, Nat.shiftRight_eq_div_pow]

theorem toNat_unpackSign : (unpackSign b).toNat = b.toNat / 2 ^ 63 := by
  have := b.isLt
  simp only [unpackSign, BitVec.toNat_cast, BitVec.extractLsb_toNat, Nat.shiftRight_eq_div_pow]
  change b.toNat / 2 ^ 63 % 2 = _
  change b.toNat < 2 ^ 64 at this
  omega

end Fields

def signBit (negative : Bool) : Nat := if negative then 2 ^ 63 else 0

theorem toNat_toBitVec (s : Sign) : s.toBitVec.toNat * 2 ^ 63 = signBit (s == .negative) := by
  cases s <;> rfl

def ofUnpacked : UnpackedFloat → Binary64
  | .notANumber => nan
  | .infinity s => infinite (s == .negative)
  | .zero s => finite (s == .negative) 0 leastExponent
  | .finite s m e _ => finite (s == .negative) m e

theorem ofBitVec_unpackSign (b : BitVec Format.binary64.numBits) :
    (Sign.ofBitVec (unpackSign b) == .negative) = decide (2 ^ 63 ≤ b.toNat) := by
  have hb : b.toNat < 2 ^ 64 := b.isLt
  have hs := toNat_unpackSign b
  unfold Sign.ofBitVec
  split
  · rename_i h
    rw [h, BitVec.toNat_ofNat] at hs
    have : ¬ 2 ^ 63 ≤ b.toNat := by omega
    rw [decide_eq_false this]
    rfl
  · rename_i h
    have : 2 ^ 63 ≤ b.toNat := by
      by_contra hlt
      apply h
      apply BitVec.eq_of_toNat_eq
      rw [hs, BitVec.toNat_ofNat]
      omega
    rw [decide_eq_true this]
    rfl

theorem toNat_implicit (fraction : BitVec 52) :
    (1#1 ++ fraction).toNat = 2 ^ 52 + fraction.toNat := by
  rw [BitVec.toNat_append, ← Nat.shiftLeft_add_eq_or_of_lt fraction.isLt, Nat.shiftLeft_eq]
  rfl

def decode (bits : Nat) : Binary64 :=
  let negative := decide (2 ^ 63 ≤ bits)
  let field := bits / 2 ^ 52 % 2 ^ 11
  let fraction := bits % 2 ^ 52
  if field = specialField then
    if fraction = 0 then infinite negative else nan
  else if field = 0 then finite negative fraction leastExponent
  else finite negative (2 ^ 52 + fraction) (field - 1075)

theorem ofFloat_eq_decode (x : Float) : ofFloat x = decode x.toBits.toNat := rfl

theorem decode_eq (b : BitVec Format.binary64.numBits) :
    decode b.toNat = ofUnpacked (UnpackedFloat.unpack Format.binary64 b) := by
  have hfield := toNat_unpackExponent b
  have hfraction := toNat_unpackMantissa b
  have hspecial : unpackExponent b = -1#_ ↔
      b.toNat / 2 ^ 52 % 2 ^ 11 = specialField := by
    rw [← BitVec.toNat_inj, hfield]
    exact Iff.rfl
  have hleast : unpackExponent b = 0#_ ↔ b.toNat / 2 ^ 52 % 2 ^ 11 = 0 := by
    rw [← BitVec.toNat_inj, hfield]
    exact Iff.rfl
  have hzero : unpackMantissa b = 0#_ ↔ b.toNat % 2 ^ 52 = 0 := by
    rw [← BitVec.toNat_inj, hfraction]
    exact Iff.rfl
  unfold decode UnpackedFloat.unpack
  simp only [hspecial, hleast, hzero]
  split
  · split
    · rw [ofUnpacked, ofBitVec_unpackSign]
    · rfl
  · split
    · rename_i h0
      split
      · rename_i hf
        rw [ofUnpacked, ofBitVec_unpackSign, hf]
      · rw [ofUnpacked, ofBitVec_unpackSign, hfraction, hfield]
        change _ = finite _ _ (((b.toNat / 2 ^ 52 % 2 ^ 11 : Nat) : Int) - (1023 + 52) + 1)
        rw [h0]
        rfl
    · rw [ofUnpacked, ofBitVec_unpackSign, toNat_implicit, hfraction, hfield]
      rfl

theorem ofFloat_eq (x : Float) : ofFloat x = ofUnpacked x.toModel.unpack := decode_eq _

/-- The bits of a finite float are its sign, exponent and mantissa in a row. -/
theorem decode_eq_finite {bits : Nat} (hb : bits < 2 ^ 64) {negative : Bool} {m : Nat} {e : Int}
    (h : decode bits = finite negative m e) :
    IsCanonical m e ∧ bits = signBit negative + encoded m e := by
  have hsign : decide (2 ^ 63 ≤ bits) = negative →
      bits = signBit negative + bits / 2 ^ 52 % 2 ^ 11 * 2 ^ 52 + bits % 2 ^ 52 := by
    rintro rfl
    unfold signBit
    split <;> simp_all <;> omega
  unfold decode at h
  simp only at h
  split at h
  · split at h <;> cases h
  · rename_i hs
    unfold specialField at hs
    split at h
    · rename_i h0
      simp only [finite.injEq] at h
      obtain ⟨hn, rfl, rfl⟩ := h
      have := hsign hn
      have hencoded : encoded (bits % 2 ^ 52) leastExponent = bits % 2 ^ 52 := by simp [encoded]
      exact ⟨⟨by omega, by decide, by decide, .inr rfl⟩, by omega⟩
    · rename_i h0
      simp only [finite.injEq] at h
      obtain ⟨hn, rfl, rfl⟩ := h
      have := hsign hn
      refine ⟨⟨by omega, ?_, ?_, .inl (by omega)⟩, ?_⟩
      · unfold leastExponent
        omega
      · unfold greatestExponent
        omega
      · unfold encoded leastExponent
        omega

theorem decode_encoded {m : Nat} {e : Int} (hc : IsCanonical m e) (negative : Bool) :
    decode (signBit negative + encoded m e) = finite negative m e := by
  have hlt := hc.lt
  have hleast : -1074 ≤ e := hc.least
  have hmost : e ≤ 971 := hc.most
  have hencoded : encoded m e = (e + 1074).toNat * 2 ^ 52 + m := by
    rw [encoded, leastExponent, Int.sub_neg]
  have hsign : decide (2 ^ 63 ≤ signBit negative + encoded m e) = negative := by
    cases negative
    · simp [signBit]
      omega
    · simp [signBit]
  have hlow : (signBit negative + encoded m e) % 2 ^ 63 = encoded m e := by
    cases negative <;> simp [signBit] <;> omega
  generalize signBit negative + encoded m e = bits at hsign hlow
  have hfield : bits / 2 ^ 52 % 2 ^ 11 = encoded m e / 2 ^ 52 := by omega
  have hfraction : bits % 2 ^ 52 = encoded m e % 2 ^ 52 := by omega
  unfold decode specialField
  simp only [hsign, hfield, hfraction, hencoded]
  rw [if_neg (by omega)]
  split
  · obtain rfl : e = -1074 := hc.normal.resolve_left (by omega)
    congr 1
    omega
  · have hge : 2 ^ 52 ≤ m := by
      rcases hc.normal with h | h
      · exact h
      · have : e = -1074 := h
        omega
    congr 1 <;> omega

theorem decode_eq_infinite {bits : Nat} (hb : bits < 2 ^ 64) {negative : Bool}
    (h : decode bits = infinite negative) : bits = signBit negative + specialField * 2 ^ 52 := by
  unfold decode at h
  simp only at h
  split at h
  · rename_i hs
    split at h
    · rename_i hf
      simp only [infinite.injEq] at h
      subst h
      unfold specialField signBit at *
      split <;> simp_all <;> omega
    · cases h
  · split at h <;> cases h

theorem eq_of_toBits {x y : Float} (h : x.toBits.toNat = y.toBits.toNat) : x = y := by
  obtain ⟨⟨bits, _⟩⟩ := x
  obtain ⟨⟨bits', _⟩⟩ := y
  obtain rfl : bits = bits' := UInt64.toNat_inj.1 h
  rfl

/-- Packing a canonical float gives its sign, exponent and mantissa in a row. -/
theorem toNat_pack_finite {m : Nat} {e : Int} (hc : IsCanonical m e) (s : Sign) (hm : 0 < m) :
    (UnpackedFloat.pack Format.binary64 (.finite s m e hm)).toNat =
      signBit (s == .negative) + encoded m e := by
  have hlt := hc.lt
  have hleast : -1074 ≤ e := hc.least
  have hmost : e ≤ 971 := hc.most
  have hsmall : ¬ 2 ^ 11 ≤ (e + (1023 : Nat) + (52 : Nat)).toNat + 1 := by omega
  change BitVec.toNat (if 2 ^ 11 ≤ (e + (1023 : Nat) + (52 : Nat)).toNat + 1 then _ else
    if m.log2 + 1 = 53 then _ else _) = _
  rw [if_neg hsmall]
  have hencoded : encoded m e = (e + 1074).toNat * 2 ^ 52 + m := by
    rw [encoded, leastExponent, Int.sub_neg]
  split
  · rename_i hlog
    have hge : 2 ^ 52 ≤ m := (Nat.le_log2 hm.ne').1 (by omega)
    rw [toNat_packComponents, toNat_toBitVec, BitVec.toNat_ofNat, BitVec.toNat_ofNat, hencoded]
    change _ + (e + (1023 : Nat) + (52 : Nat)).toNat % 2 ^ 11 * 2 ^ 52 + m % 2 ^ 52 = _
    omega
  · rename_i hlog
    have hlt52 : m < 2 ^ 52 := by
      have hlog' := (Nat.log2_lt hm.ne').2 hlt
      exact (Nat.log2_lt hm.ne').1 (by omega)
    obtain rfl : e = -1074 := hc.normal.resolve_left (by omega)
    rw [toNat_packComponents, toNat_toBitVec, BitVec.toNat_ofNat, BitVec.toNat_ofNat, hencoded]
    change _ + 0 % 2 ^ 11 * 2 ^ 52 + m % 2 ^ 52 = _
    omega

/-- Bits that are those of a number or an infinity are kept. -/
theorem pack_unpack (b : BitVec Format.binary64.numBits) (h : decode b.toNat ≠ nan) :
    UnpackedFloat.pack Format.binary64 (UnpackedFloat.unpack Format.binary64 b) = b := by
  have hb : b.toNat < 2 ^ 64 := b.isLt
  have hdecode := decode_eq b
  apply BitVec.eq_of_toNat_eq
  cases hu : UnpackedFloat.unpack Format.binary64 b with
  | notANumber =>
    rw [hu] at hdecode
    exact absurd hdecode h
  | infinity s =>
    rw [hu] at hdecode
    rw [decode_eq_infinite hb hdecode]
    change BitVec.toNat (packComponents Format.binary64 s _ _) = _
    rw [toNat_packComponents, toNat_toBitVec]
    rfl
  | zero s =>
    rw [hu] at hdecode
    rw [(decode_eq_finite hb hdecode).2]
    change BitVec.toNat (packComponents Format.binary64 s _ _) = _
    rw [toNat_packComponents, toNat_toBitVec]
    rfl
  | finite s m e hm =>
    rw [hu] at hdecode
    obtain ⟨hc, hbits⟩ := decode_eq_finite hb hdecode
    rw [toNat_pack_finite hc, hbits]

theorem toNat_toBits_pack (negative : Bool) {magnitude : Nat} (h : magnitude ≤ specialField * 2 ^ 52) :
    (pack negative magnitude).toBits.toNat = signBit negative + magnitude := by
  have hmin : min magnitude (specialField * 2 ^ 52) = magnitude := Nat.min_eq_left h
  unfold specialField at h
  have hlt : signBit negative + magnitude < 2 ^ 64 := by
    unfold signBit
    split <;> omega
  have hnan : decode (signBit negative + magnitude) ≠ nan := by
    have hfield : (signBit negative + magnitude) / 2 ^ 52 % 2 ^ 11 = magnitude / 2 ^ 52 := by
      unfold signBit
      split <;> omega
    have hfraction : (signBit negative + magnitude) % 2 ^ 52 = magnitude % 2 ^ 52 := by
      unfold signBit
      split <;> omega
    unfold decode specialField
    simp only [hfield, hfraction]
    split
    · rw [if_pos (by omega)]
      simp
    · split <;> simp
  generalize hn : signBit negative + magnitude = n at hlt hnan
  have hpack : pack negative magnitude = Float.ofBits (UInt64.ofNat n) := by
    unfold pack
    simp only [hmin]
    rw [← hn]
    rfl
  have hb : (UInt64.ofNat n).toNat = n := UInt64.toNat_ofNat_of_lt' hlt
  have hkept := pack_unpack (UInt64.ofNat n).toBitVec (by rwa [UInt64.toNat_toBitVec, hb])
  rw [hpack]
  change BitVec.toNat (UnpackedFloat.pack Format.binary64 _) = n
  rw [hkept, UInt64.toNat_toBitVec, hb]

theorem encoded_lt {m : Nat} {e : Int} (hc : IsCanonical m e) : encoded m e < specialField * 2 ^ 52 := by
  have hlt := hc.lt
  have hleast : -1074 ≤ e := hc.least
  have hmost : e ≤ 971 := hc.most
  unfold encoded leastExponent specialField
  omega

theorem isCanonical_of_ofFloat {x : Float} {negative : Bool} {m : Nat} {e : Int}
    (h : ofFloat x = finite negative m e) : IsCanonical m e :=
  (decode_eq_finite x.toBits.toNat_lt h).1

/-- A finite float is its sign, mantissa and exponent packed. -/
theorem eq_pack {x : Float} {negative : Bool} {m : Nat} {e : Int} (h : ofFloat x = finite negative m e) :
    x = pack negative (encoded m e) := by
  obtain ⟨hc, hbits⟩ := decode_eq_finite x.toBits.toNat_lt h
  apply eq_of_toBits
  rw [hbits, toNat_toBits_pack negative (encoded_lt hc).le]

theorem isFinite_iff {x : Float} :
    x.isFinite = true ↔ ∃ negative m e, ofFloat x = finite negative m e := by
  rw [ofFloat_eq]
  change x.toModel.unpack.isFinite = true ↔ _
  cases x.toModel.unpack <;> simp [ofUnpacked, UnpackedFloat.isFinite]

theorem ofFloat_ofModel_pack {m : Nat} {e : Int} (hc : IsCanonical m e) (s : Sign) (hm : 0 < m) :
    ofFloat (.ofModel (.pack (.finite s m e hm))) = finite (s == .negative) m e := by
  rw [ofFloat_eq_decode]
  change decode (UnpackedFloat.pack Format.binary64 (.finite s m e hm)).toNat = _
  rw [toNat_pack_finite hc, decode_encoded hc]

end OpenCaptions.Number.Binary64
