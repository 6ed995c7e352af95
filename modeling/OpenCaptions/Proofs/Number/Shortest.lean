import OpenCaptions.Proofs.Number.Decimal

/-!
The search for the fewest digits. Seventeen digits are enough for every finite float, so what is written for
it is short and is read as the same float.
-/
namespace OpenCaptions.Number

theorem digitCount_mono {n k : Nat} (h : n ≤ k) : digitCount n ≤ digitCount k :=
  (digitCount_le_iff (digitCount_pos k)).2 (Nat.lt_of_le_of_lt h (lt_pow_digitCount k))

/-- Dropping zeros at the end changes no value. -/
theorem stripZeros_spec (fuel digits : Nat) (exponent : Int) :
    ((stripZeros fuel digits exponent).1 : ℚ) * 10 ^ (stripZeros fuel digits exponent).2 =
        digits * 10 ^ exponent ∧
      exponent ≤ (stripZeros fuel digits exponent).2 ∧ (stripZeros fuel digits exponent).1 ≤ digits := by
  induction fuel generalizing digits exponent with
  | zero => simp [stripZeros]
  | succ fuel ih =>
    rw [stripZeros]
    split
    · rename_i h
      obtain ⟨hvalue, hexp, hdigits⟩ := ih (digits / 10) (exponent + 1)
      have hten : (digits : ℚ) = (digits / 10 : Nat) * 10 := by
        exact_mod_cast (Nat.div_mul_cancel (Nat.dvd_of_mod_eq_zero h.2)).symm
      refine ⟨?_, by omega, by omega⟩
      rw [hvalue, hten, zpow_add₀ (by norm_num), zpow_one]
      ring
    · exact ⟨rfl, le_rfl, le_rfl⟩

namespace Decimal

open Binary64

variable {d d' : Decimal} {rule : TieRule} {places : Nat}

theorem normalize_zero (negative : Bool) (exponent : Int) :
    normalize ⟨negative, 0, exponent⟩ = ⟨negative, 0, 0⟩ := rfl

theorem normalize_eq (h : d.digits ≠ 0) :
    d.normalize = ⟨d.negative, (stripZeros (digitCount d.digits) d.digits d.exponent).1,
      (stripZeros (digitCount d.digits) d.digits d.exponent).2⟩ := by
  simp [normalize, h]

theorem value_normalize (d : Decimal) : d.normalize.value = d.value := by
  by_cases h : d.digits = 0
  · simp [normalize, value, h]
  · rw [normalize_eq h]
    exact (stripZeros_spec _ _ _).1

theorem negative_normalize (d : Decimal) : d.normalize.negative = d.negative := by
  by_cases h : d.digits = 0
  · simp [normalize, h]
  · rw [normalize_eq h]

theorem toFloat_normalize (d : Decimal) : d.normalize.toFloat = d.toFloat :=
  toFloat_congr d.negative_normalize d.value_normalize

theorem mem_neighbours : d' ∈ d.neighbours rule places ↔
    d' = ⟨d.negative, d.digits / 10 ^ places, d.exponent + places⟩ ∨
      d' = ⟨d.negative, d.digits / 10 ^ places + 1, d.exponent + places⟩ := by
  unfold neighbours
  simp only
  split <;> simp [or_comm]

/-- A neighbour has few digits and almost the same size. -/
theorem bounds_of_mem_neighbours (h : d' ∈ d.neighbours rule places) (hp : places < digitCount d.digits) :
    d'.exponent = d.exponent + places ∧ digitCount d'.digits + places ≤ digitCount d.digits + 1 := by
  have hquot : d.digits / 10 ^ places < 10 ^ (digitCount d.digits - places) := by
    rw [Nat.div_lt_iff_lt_mul (Nat.pow_pos (by omega)), ← Nat.pow_add]
    have : digitCount d.digits - places + places = digitCount d.digits := by omega
    rw [this]
    exact lt_pow_digitCount d.digits
  have hcount : digitCount (d.digits / 10 ^ places + 1) ≤ digitCount d.digits - places + 1 := by
    have : 0 < 10 ^ (digitCount d.digits - places) := Nat.pow_pos (by omega)
    rw [digitCount_le_iff (by omega), Nat.pow_succ]
    omega
  rcases mem_neighbours.1 h with rfl | rfl
  · have := digitCount_mono (Nat.le_add_right (d.digits / 10 ^ places) 1)
    simp only [true_and]
    omega
  · simp only [true_and]
    omega

private theorem exists_nearer (d : Decimal) (rule : TieRule) (places : Nat) :
    ∃ d' ∈ d.neighbours rule places, d'.negative = d.negative ∧
      ∃ n : Nat, 2 * n ≤ 10 ^ places ∧ |d'.value - d.value| = n * 10 ^ d.exponent := by
  have hsum := Nat.div_add_mod d.digits (10 ^ places)
  have hlt : d.digits % 10 ^ places < 10 ^ places := Nat.mod_lt _ (Nat.pow_pos (by omega))
  have hP : (0 : ℚ) < 10 ^ d.exponent := by positivity
  have hdigits : (d.digits : ℚ) =
      10 ^ places * (d.digits / 10 ^ places : Nat) + (d.digits % 10 ^ places : Nat) := by
    exact_mod_cast hsum.symm
  have hunit : (10 : ℚ) ^ (d.exponent + places) = 10 ^ places * 10 ^ d.exponent := by
    rw [zpow_add₀ (by norm_num), zpow_natCast, mul_comm]
  rcases Nat.le_total (2 * (d.digits % 10 ^ places)) (10 ^ places) with h | h
  · refine ⟨_, mem_neighbours.2 (.inl rfl), rfl, d.digits % 10 ^ places, h, ?_⟩
    have hdiff : value ⟨d.negative, d.digits / 10 ^ places, d.exponent + places⟩ - d.value =
        -((d.digits % 10 ^ places : Nat) * 10 ^ d.exponent) := by
      rw [value, value, hunit, hdigits]
      ring
    rw [hdiff, abs_neg, abs_of_nonneg (by positivity)]
  · refine ⟨_, mem_neighbours.2 (.inr rfl), rfl, 10 ^ places - d.digits % 10 ^ places, by omega, ?_⟩
    have hdiff : value ⟨d.negative, d.digits / 10 ^ places + 1, d.exponent + places⟩ - d.value =
        (10 ^ places - d.digits % 10 ^ places : Nat) * 10 ^ d.exponent := by
      rw [value, value, hunit, hdigits, Nat.cast_sub hlt.le]
      push_cast
      ring
    rw [hdiff, abs_of_nonneg (by positivity)]

private theorem exists_seventeen {m : Nat} {e : Int} (hc : IsCanonical m e) (hm : 0 < m)
    (hvalue : d.value = m * 2 ^ e) (rule : TieRule) :
    ∃ d' ∈ d.neighbours rule (digitCount d.digits - 17),
      d'.toFloat = pack d.negative (encoded m e) := by
  have hV : (0 : ℚ) < m * 2 ^ e := by positivity
  have hP : (0 : ℚ) < 10 ^ d.exponent := by positivity
  have hd : 0 < d.digits := by rwa [← value_pos_iff, hvalue]
  obtain ⟨d', hmem, hs, n, hn, hdiff⟩ := exists_nearer d rule (digitCount d.digits - 17)
  have hsmall : n * (2 * 10 ^ 16) ≤ d.digits := by
    rcases Nat.lt_or_ge (digitCount d.digits) 17 with hlt | hge
    · have h0 : digitCount d.digits - 17 = 0 := by omega
      rw [h0, Nat.pow_zero] at hn
      obtain rfl : n = 0 := by omega
      rw [Nat.zero_mul]
      exact Nat.zero_le _
    · have hpow : 10 ^ (digitCount d.digits - 17) * 10 ^ 16 ≤ d.digits := by
        have hcount : digitCount d.digits - 17 + 16 = digitCount d.digits - 1 := by omega
        rw [← Nat.pow_add, hcount]
        exact pow_digitCount_le hd
      calc n * (2 * 10 ^ 16) = 2 * n * 10 ^ 16 := by ring
        _ ≤ 10 ^ (digitCount d.digits - 17) * 10 ^ 16 := Nat.mul_le_mul_right _ hn
        _ ≤ d.digits := hpow
  refine ⟨d', hmem, ?_⟩
  rw [← hs]
  refine toFloat_of_close hc ?_
  rw [← hvalue, hdiff]
  have hsmall' : (n : ℚ) * (2 * 10 ^ 16) ≤ d.digits := by exact_mod_cast hsmall
  have hle : (n : ℚ) * 10 ^ d.exponent * (2 * 10 ^ 16) ≤ d.value := by
    calc (n : ℚ) * 10 ^ d.exponent * (2 * 10 ^ 16) = n * (2 * 10 ^ 16) * 10 ^ d.exponent := by ring
      _ ≤ d.value := by
        rw [value]
        gcongr
  rw [← hvalue] at hV
  have hnonneg : (0 : ℚ) ≤ n * 10 ^ d.exponent := by positivity
  linarith

/-- The search finds a neighbour that is read as the float. -/
theorem exists_shortest {x : Float} {negative : Bool} {m : Nat} {e : Int}
    (hx : ofFloat x = finite negative m e) (hm : 0 < m) (rule : TieRule) :
    ∃ places d', places < digitCount (exact negative m e).digits ∧
      digitCount (exact negative m e).digits ≤ places + 17 ∧
      d' ∈ (exact negative m e).neighbours rule places ∧ d'.toFloat = x ∧
      shortest rule x (exact negative m e) = d'.normalize := by
  have hc := isCanonical_of_ofFloat hx
  generalize hd : exact negative m e = d
  have hvalue : d.value = m * 2 ^ e := hd ▸ value_exact negative m e
  have hs : d.negative = negative := by
    subst hd
    unfold exact
    split <;> rfl
  have hpos := digitCount_pos d.digits
  have hreads {d' : Decimal} : readsAs x d' = true ↔ d'.toFloat = x := by
    rw [readsAs, beq_iff_eq]
    exact ⟨fun h => eq_of_toBits (congrArg UInt64.toNat h), fun h => by rw [h]⟩
  cases hf : (List.range 17).findSome? fun n =>
      (d.neighbours rule (digitCount d.digits - (n + 1))).find? (readsAs x) with
  | none =>
    obtain ⟨d', hmem, hd'⟩ := exists_seventeen hc hm hvalue rule
    rw [List.findSome?_eq_none_iff] at hf
    have hnone := List.find?_eq_none.1 (hf 16 (by simp)) d' hmem
    rw [hreads, hd', hs, ← eq_pack hx] at hnone
    exact absurd rfl hnone
  | some d' =>
    have hshortest : shortest rule x d = d'.normalize := by
      simp only [shortest, hf, Option.getD_some]
    obtain ⟨n, hn, hfind⟩ := List.exists_of_findSome?_eq_some hf
    rw [List.mem_range] at hn
    exact ⟨digitCount d.digits - (n + 1), d', by omega, by omega, List.mem_of_find?_eq_some hfind,
      hreads.1 (List.find?_some hfind), hshortest⟩

theorem toFloat_zero {x : Float} {negative : Bool} {e : Int} (hx : ofFloat x = finite negative 0 e)
    (exponent : Int) : toFloat ⟨negative, 0, exponent⟩ = x := by
  have he : e = leastExponent := (isCanonical_of_ofFloat hx).normal.resolve_left (by decide)
  have hzero : encoded 0 e = 0 := by
    rw [he]
    rfl
  rw [eq_pack hx, hzero]
  simp [toFloat]

theorem shortest_zero {x : Float} {negative : Bool} {e : Int} (hx : ofFloat x = finite negative 0 e)
    (rule : TieRule) : shortest rule x (exact negative 0 e) = ⟨negative, 0, 0⟩ := by
  have hread : readsAs x ⟨negative, 0, (exact negative 0 e).exponent⟩ = true := by
    rw [readsAs, toFloat_zero hx]
    exact beq_self_eq_true _
  have hexact : exact negative 0 e = ⟨negative, 0, (exact negative 0 e).exponent⟩ := by
    unfold exact
    split <;> simp
  generalize (exact negative 0 e).exponent = exponent at hread hexact
  have hnear : neighbours rule ⟨negative, 0, exponent⟩ 0 = [⟨negative, 0, exponent⟩, ⟨negative, 1, exponent⟩] := by
    simp [neighbours]
  have hcount : digitCount 0 - (0 + 1) = 0 := rfl
  rw [hexact, shortest, List.range_succ_eq_map]
  simp only [List.findSome?_cons, hcount, hnear, List.find?_cons, hread, Option.getD_some]
  rfl

theorem length_magnitude_zero (negative : Bool) : (magnitude ⟨negative, 0, 0⟩).length = 1 := by
  simp [magnitude, whole, written]

private theorem length_magnitude_normalize {m : Nat} {e : Int} (hc : IsCanonical m e) (hm : 0 < m)
    {d d' : Decimal} (hvalue : d.value = m * 2 ^ e) (hp : places < digitCount d.digits)
    (hp17 : digitCount d.digits ≤ places + 17) (hmem : d' ∈ d.neighbours rule places) :
    d'.normalize.magnitude.length ≤ 345 := by
  obtain ⟨hexp, hcount⟩ := bounds_of_mem_neighbours hmem hp
  have hV : (0 : ℚ) < m * 2 ^ e := by positivity
  obtain ⟨hsmall, hbig⟩ := size_bounds (d := d) hc hm (by linarith) (by linarith)
  unfold size at hsmall hbig
  by_cases h0 : d'.digits = 0
  · obtain ⟨negative, digits, exponent⟩ := d'
    subst h0
    rw [normalize_zero, length_magnitude_zero]
    omega
  · have hnormal := normalize_eq h0
    obtain ⟨-, hle, hdigits⟩ := stripZeros_spec (digitCount d'.digits) d'.digits d'.exponent
    have hsize := size_congr (Nat.pos_of_ne_zero h0) d'.value_normalize.symm
    have hlen := d'.normalize.length_magnitude_le
    rw [hnormal] at hsize hlen ⊢
    have hmono := digitCount_mono hdigits
    simp only [size] at hsize hlen hmono ⊢
    omega

end Decimal

open Binary64 Decimal

/-- What stands for a finite float is read as that float, and is short. -/
theorem Decimal.exists_ofFloat? (rule : TieRule) {x : Float} (h : x.isFinite = true) :
    ∃ d : Decimal, Decimal.ofFloat? rule x = some d ∧ d.toFloat = x ∧ d.magnitude.length ≤ 345 := by
  obtain ⟨negative, m, e, hx⟩ := isFinite_iff.1 h
  have hofFloat : Decimal.ofFloat? rule x = some (shortest rule x (exact negative m e)) := by
    simp [Decimal.ofFloat?, hx]
  refine ⟨_, hofFloat, ?_⟩
  rcases Nat.eq_zero_or_pos m with rfl | hm
  · rw [shortest_zero hx, length_magnitude_zero]
    exact ⟨toFloat_zero hx 0, by omega⟩
  · obtain ⟨places, d', hp, hp17, hmem, hread, hshortest⟩ := exists_shortest hx hm rule
    rw [hshortest, toFloat_normalize]
    exact ⟨hread, length_magnitude_normalize (isCanonical_of_ofFloat hx) hm
      (value_exact negative m e) hp hp17 hmem⟩

theorem Numeral.exists_positional {x : Float} (h : x.isFinite = true) :
    ∃ d : Decimal, Numeral.positional x = d.positional ∧ d.toFloat = x ∧ d.magnitude.length ≤ 345 := by
  obtain ⟨d, hd, hread, hlength⟩ := Decimal.exists_ofFloat? .larger h
  exact ⟨d, by rw [Numeral.positional, hd], hread, hlength⟩

end OpenCaptions.Number
