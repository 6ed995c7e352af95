import Mathlib
import OpenCaptions.Number.Numeral
import OpenCaptions.Proofs.Text.Cutting

/-!
Reading a numeral back. The positional form has digits, at most one point among them and a sign in front,
and the reader makes the same decimal of it.
-/
namespace OpenCaptions.Number

theorem isDigit_of_mem_toDigits {n : Nat} {c : Char} (h : c ∈ Nat.toDigits 10 n) : c.isDigit = true :=
  Nat.isDigit_of_mem_toDigits (by omega) (by omega) h

theorem isDigit_of_mem_replicate {n : Nat} {c : Char} (h : c ∈ List.replicate n '0') :
    c.isDigit = true := by
  rw [List.eq_of_mem_replicate h]
  rfl

private theorem toDigits_mul_pow {n : Nat} (hn : 0 < n) (k : Nat) :
    Nat.toDigits 10 (n * 10 ^ k) = Nat.toDigits 10 n ++ List.replicate k '0' := by
  induction k with
  | zero => simp
  | succ k ih =>
    have hpos : 0 < n * 10 ^ k := Nat.mul_pos hn (Nat.pow_pos (by omega))
    have h : n * 10 ^ (k + 1) = 10 * (n * 10 ^ k) + 0 := by
      rw [Nat.pow_succ, Nat.add_zero, ← Nat.mul_assoc, Nat.mul_comm 10]
    rw [h, ← Nat.toDigits_append_toDigits (by omega) hpos (by omega), ih, Nat.toDigits_zero,
      List.append_assoc, List.replicate_succ']

theorem digitCount_mul_pow {n : Nat} (hn : 0 < n) (k : Nat) :
    digitCount (n * 10 ^ k) = digitCount n + k := by
  simp [digitCount, toDigits_mul_pow hn]

theorem digitCount_pos (n : Nat) : 0 < digitCount n := Nat.length_toDigits_pos

theorem digitCount_le_iff {n k : Nat} (hk : 0 < k) : digitCount n ≤ k ↔ n < 10 ^ k :=
  Nat.length_toDigits_le_iff (by omega) hk

theorem lt_pow_digitCount (n : Nat) : n < 10 ^ digitCount n :=
  (digitCount_le_iff (digitCount_pos n)).1 (Nat.le_refl _)

theorem pow_digitCount_le {n : Nat} (hn : 0 < n) : 10 ^ (digitCount n - 1) ≤ n := by
  rcases Nat.lt_or_ge (digitCount n) 2 with h | h
  · have h1 : digitCount n - 1 = 0 := by omega
    rw [h1]
    omega
  · have hk : 0 < digitCount n - 1 := by omega
    have := mt (digitCount_le_iff (n := n) hk).2
    omega

theorem head?_toDigits {n : Nat} (hn : 0 < n) : (Nat.toDigits 10 n).head? ≠ some '0' := by
  induction n using Nat.strong_induction_on with
  | _ n ih =>
    rcases Nat.lt_or_ge n 10 with hlt | hge
    · rw [Nat.toDigits_of_lt_base hlt]
      interval_cases n <;> decide
    · rw [Nat.toDigits_of_base_le (by omega) hge, List.head?_append_of_ne_nil _ Nat.toDigits_ne_nil]
      exact ih (n / 10) (by omega) (by omega)

private theorem toLower_digit {c : Char} (h : c.isDigit = true) : c.toLower = c := by
  simp only [Char.isDigit, ge_iff_le, Bool.and_eq_true, decide_eq_true_eq] at h
  have hu : ¬ (c.val ≥ 65 ∧ c.val ≤ 90) := fun h' => absurd (UInt32.le_trans h'.1 h.2) (by decide)
  simp [Char.toLower, hu]

namespace Numeral

variable {negative : Bool} {whole places : List Char}

/-- Behind a sign, a digit in front starts no word. -/
theorem read?_of_takeSign {s rest : List Char} {c : Char} (hs : takeSign s = (negative, c :: rest))
    (hc : c.isDigit = true) :
    read? s = (readDecimal? negative (c :: rest)).map Decimal.toFloat := by
  have hl := toLower_digit hc
  have hi : c ≠ 'i' := by rintro rfl; cases hc
  have hn : c ≠ 'n' := by rintro rfl; cases hc
  simp [read?, hs, hl, hi, hn]

theorem takeSign_digit {c : Char} (hc : c.isDigit = true) (rest : List Char) :
    takeSign (c :: rest) = (false, c :: rest) := by
  unfold takeSign
  split
  · rename_i h
    rw [List.cons.inj h |>.1] at hc
    cases hc
  · rename_i h
    rw [List.cons.inj h |>.1] at hc
    cases hc
  · rfl

variable {tail : List Char} {k : Int}

theorem readDecimal?_whole (hne : whole ≠ []) (hw : ∀ c ∈ whole, c.isDigit = true)
    (htail : ∀ c ∈ tail.head?, c.isDigit = false ∧ c ≠ '.') (hk : readExponent? tail = some k) :
    readDecimal? negative (whole ++ tail) = some ⟨negative, Nat.ofDigitChars 10 whole 0, k⟩ := by
  obtain ⟨ht, hd⟩ := Text.takeWhile_of_head? hw fun c hc => (htail c hc).1
  have hall : whole.all Char.isDigit = true := by simpa using hw
  have hpoint (rest : List Char) : tail ≠ '.' :: rest := by
    rintro rfl
    exact (htail '.' rfl).2 rfl
  simp [readDecimal?, ht, hd, natOfDigits?, hne, hall, hk]

theorem readDecimal?_places (hne : whole ++ places ≠ []) (hw : ∀ c ∈ whole, c.isDigit = true)
    (hp : ∀ c ∈ places, c.isDigit = true) (htail : ∀ c ∈ tail.head?, c.isDigit = false)
    (hk : readExponent? tail = some k) :
    readDecimal? negative (whole ++ '.' :: (places ++ tail)) =
      some ⟨negative, Nat.ofDigitChars 10 (whole ++ places) 0, k - places.length⟩ := by
  obtain ⟨ht, hd⟩ := Text.takeWhile_of_head? hw
    (show ∀ c ∈ ('.' :: (places ++ tail)).head?, c.isDigit = false by simp)
  obtain ⟨htp, hdp⟩ := Text.takeWhile_of_head? hp htail
  have hall : (whole ++ places).all Char.isDigit = true := by
    simp only [List.all_append, Bool.and_eq_true, List.all_eq_true]
    exact ⟨hw, hp⟩
  simp only [readDecimal?, ht, hd, htp, hdp, natOfDigits?, if_pos (And.intro hne hall), hk]

theorem readDecimal?_digits (hne : whole ≠ []) (hw : ∀ c ∈ whole, c.isDigit = true) :
    readDecimal? negative whole = some ⟨negative, Nat.ofDigitChars 10 whole 0, 0⟩ := by
  simpa using readDecimal?_whole hne hw (show ∀ c ∈ ([] : List Char).head?, c.isDigit = false ∧ c ≠ '.' by simp) rfl

theorem readDecimal?_point (hne : whole ++ places ≠ []) (hw : ∀ c ∈ whole, c.isDigit = true)
    (hp : ∀ c ∈ places, c.isDigit = true) :
    readDecimal? negative (whole ++ '.' :: places) =
      some ⟨negative, Nat.ofDigitChars 10 (whole ++ places) 0, -places.length⟩ := by
  simpa using readDecimal?_places hne hw hp (show ∀ c ∈ ([] : List Char).head?, c.isDigit = false by simp) rfl

end Numeral

namespace Decimal

theorem toFloat_mul_pow (negative : Bool) (n k : Nat) :
    toFloat ⟨negative, n * 10 ^ k, 0⟩ = toFloat ⟨negative, n, k⟩ := by
  rcases Nat.eq_zero_or_pos n with rfl | hn
  · simp [toFloat]
  · have hk : n * 10 ^ k ≠ 0 := Nat.ne_of_gt (Nat.mul_pos hn (Nat.pow_pos (by omega)))
    have hn' : n ≠ 0 := by omega
    have hz : n * 10 ^ k * 10 ^ (0 : Int).toNat = n * 10 ^ k := by simp
    simp only [toFloat, hk, hn', digitCount_mul_pow hn, Int.add_zero, Int.natCast_add, false_or,
      Int.le_refl, Int.natCast_nonneg, if_true, Int.toNat_natCast, hz]

def written (d : Decimal) : List Char :=
  if 0 ≤ d.exponent then
    Nat.toDigits 10 d.digits ++ (if d.digits = 0 then [] else List.replicate d.exponent.toNat '0')
  else
    List.replicate ((-d.exponent).toNat + 1 - digitCount d.digits) '0' ++ Nat.toDigits 10 d.digits

def whole (d : Decimal) : List Char := d.written.take (d.written.length - (-d.exponent).toNat)

def places (d : Decimal) : List Char := d.written.drop (d.written.length - (-d.exponent).toNat)

def magnitude (d : Decimal) : List Char :=
  if 0 ≤ d.exponent then d.whole else d.whole ++ '.' :: d.places

variable (d : Decimal)

theorem whole_eq_written (h : 0 ≤ d.exponent) : d.whole = d.written := by
  have h0 : (-d.exponent).toNat = 0 := by omega
  rw [whole, h0, Nat.sub_zero, List.take_length]

theorem positional_eq : d.positional = (if d.negative then ['-'] else []) ++ d.magnitude := by
  by_cases he : 0 ≤ d.exponent
  · simp [positional, magnitude, whole_eq_written, written, he]
  · simp [positional, magnitude, whole, places, written, he, digitCount]

theorem isDigit_of_mem_written : ∀ c ∈ d.written, c.isDigit = true := by
  intro c hc
  unfold written at hc
  split at hc
  · rw [List.mem_append] at hc
    rcases hc with hc | hc
    · exact isDigit_of_mem_toDigits hc
    · split at hc
      · cases hc
      · exact isDigit_of_mem_replicate hc
  · rw [List.mem_append] at hc
    rcases hc with hc | hc
    · exact isDigit_of_mem_replicate hc
    · exact isDigit_of_mem_toDigits hc

theorem isDigit_of_mem_whole : ∀ c ∈ d.whole, c.isDigit = true :=
  fun c hc => d.isDigit_of_mem_written c (List.mem_of_mem_take hc)

theorem isDigit_of_mem_places : ∀ c ∈ d.places, c.isDigit = true :=
  fun c hc => d.isDigit_of_mem_written c (List.mem_of_mem_drop hc)

theorem length_written_le :
    d.written.length ≤ max (digitCount d.digits + d.exponent.toNat) ((-d.exponent).toNat + 1) := by
  unfold written
  split
  · rw [List.length_append]
    change digitCount d.digits + _ ≤ _
    split <;> simp
  · rw [List.length_append, List.length_replicate]
    change _ + digitCount d.digits ≤ _
    omega

theorem lt_length_written : (-d.exponent).toNat < d.written.length := by
  have := digitCount_pos d.digits
  unfold written
  split
  · rw [List.length_append]
    change _ < digitCount d.digits + _
    omega
  · rw [List.length_append, List.length_replicate]
    change _ < _ + digitCount d.digits
    omega

theorem whole_ne_nil : d.whole ≠ [] := by
  have := d.lt_length_written
  rw [ne_eq, whole, List.take_eq_nil_iff, ← List.length_eq_zero_iff]
  omega

theorem length_places : d.places.length = (-d.exponent).toNat := by
  have := d.lt_length_written
  rw [places, List.length_drop]
  omega

theorem whole_append_places : d.whole ++ d.places = d.written := List.take_append_drop ..

theorem ofDigitChars_written : Nat.ofDigitChars 10 d.written 0 = d.digits * 10 ^ d.exponent.toNat := by
  unfold written
  split
  · rw [Nat.ofDigitChars_append, Nat.ofDigitChars_ten_toDigits]
    split
    · rename_i h
      simp [h]
    · rw [Nat.ofDigitChars_replicate_zero, Nat.mul_comm]
  · have h0 : d.exponent.toNat = 0 := by omega
    rw [Nat.ofDigitChars_append, Nat.ofDigitChars_replicate_zero, Nat.mul_zero,
      Nat.ofDigitChars_ten_toDigits, h0, Nat.pow_zero, Nat.mul_one]

theorem readDecimal?_magnitude :
    (Numeral.readDecimal? d.negative d.magnitude).map toFloat = some d.toFloat := by
  unfold magnitude
  split
  · rename_i he
    have he' : (d.exponent.toNat : Int) = d.exponent := by omega
    rw [Numeral.readDecimal?_digits d.whole_ne_nil d.isDigit_of_mem_whole, d.whole_eq_written he,
      ofDigitChars_written, Option.map_some, toFloat_mul_pow, he']
  · rename_i he
    have h0 : d.exponent.toNat = 0 := by omega
    have he' : -((-d.exponent).toNat : Int) = d.exponent := by omega
    rw [Numeral.readDecimal?_point (List.append_ne_nil_of_left_ne_nil d.whole_ne_nil _) d.isDigit_of_mem_whole
      d.isDigit_of_mem_places, whole_append_places, ofDigitChars_written, length_places, h0, he', Nat.pow_zero, Nat.mul_one]
    rfl

theorem exists_magnitude : ∃ c rest, d.magnitude = c :: rest ∧ c.isDigit = true := by
  obtain ⟨c, rest, hw⟩ := List.exists_cons_of_ne_nil d.whole_ne_nil
  have hc : c.isDigit = true := d.isDigit_of_mem_whole c (by simp [hw])
  unfold magnitude
  split
  · exact ⟨c, rest, hw, hc⟩
  · exact ⟨c, rest ++ '.' :: d.places, by simp [hw], hc⟩

/-- Reading undoes writing. -/
theorem read?_positional : Numeral.read? d.positional = some d.toFloat := by
  obtain ⟨c, rest, hm, hc⟩ := d.exists_magnitude
  have hs : Numeral.takeSign d.positional = (d.negative, c :: rest) := by
    rw [positional_eq, hm]
    cases d.negative with
    | false => exact Numeral.takeSign_digit hc rest
    | true => rfl
  rw [Numeral.read?_of_takeSign hs hc, ← hm, readDecimal?_magnitude]

theorem mem_magnitude {c : Char} (h : c ∈ d.magnitude) : c.isDigit = true ∨ c = '.' := by
  unfold magnitude at h
  split at h
  · exact .inl (d.isDigit_of_mem_whole c h)
  · rw [List.mem_append, List.mem_cons] at h
    rcases h with h | rfl | h
    · exact .inl (d.isDigit_of_mem_whole c h)
    · exact .inr rfl
    · exact .inl (d.isDigit_of_mem_places c h)

theorem length_magnitude_le :
    d.magnitude.length ≤
      max (digitCount d.digits + d.exponent.toNat) ((-d.exponent).toNat + 1) + 1 := by
  have hl := d.length_written_le
  have hw : d.whole.length + d.places.length = d.written.length := by
    rw [← List.length_append, whole_append_places]
  unfold magnitude
  split
  · omega
  · rw [List.length_append, List.length_cons]
    omega

end Decimal

/-- The characters of a written float, be it a number or not. -/
theorem Numeral.mem_positional {x : Float} {c : Char} (h : c ∈ Numeral.positional x) :
    c.isAlphanum = true ∨ c = '-' ∨ c = '.' := by
  unfold Numeral.positional at h
  split at h
  · rename_i d _
    rw [Decimal.positional_eq, List.mem_append] at h
    rcases h with h | h
    · split at h
      · exact .inr (.inl (List.mem_singleton.1 h))
      · cases h
    · rcases d.mem_magnitude h with hd | rfl
      · exact .inl (by simp [Char.isAlphanum, hd])
      · exact .inr (.inr rfl)
  · have hs : Numeral.special x ∈ [['-', 'i', 'n', 'f'], ['i', 'n', 'f'], ['N', 'a', 'N']] := by
      unfold Numeral.special
      split <;> simp
    generalize Numeral.special x = w at h hs
    simp only [List.mem_cons, List.not_mem_nil, or_false] at hs
    rcases hs with rfl | rfl | rfl
    all_goals
      simp only [List.mem_cons, List.not_mem_nil, or_false] at h
      rcases h with rfl | rfl | rfl | rfl <;> decide

end OpenCaptions.Number
