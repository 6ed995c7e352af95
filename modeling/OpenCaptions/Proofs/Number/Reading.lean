import OpenCaptions.Number.Natural
import OpenCaptions.Proofs.Number.Positional

/-!
Natural numbers read from text: the value of the digits, if it lies below the limit.
-/
namespace OpenCaptions.Number

variable {limit value n : Nat} {s : List Char}

theorem le_ofDigitChars (s : List Char) (value : Nat) : value ≤ Nat.ofDigitChars 10 s value := by
  induction s generalizing value with
  | nil => simp
  | cons c s ih =>
    rw [Nat.ofDigitChars_cons]
    exact Nat.le_trans (by omega) (ih _)

/-- So many digits more lead to less than the next value with as many zeros. -/
theorem ofDigitChars_lt (hs : ∀ c ∈ s, c.isDigit = true) (value : Nat) :
    Nat.ofDigitChars 10 s value < (value + 1) * 10 ^ s.length := by
  induction s generalizing value with
  | nil => simp
  | cons c s ih =>
    rw [List.forall_mem_cons] at hs
    have hc : c.toNat - 48 ≤ 9 := by
      have hdigit := hs.1
      simp only [Char.isDigit, ge_iff_le, Bool.and_eq_true, decide_eq_true_eq, UInt32.le_iff_toNat_le] at hdigit
      change 48 ≤ c.toNat ∧ c.toNat ≤ 57 at hdigit
      omega
    rw [Nat.ofDigitChars_cons, List.length_cons, Nat.pow_succ', ← Nat.mul_assoc]
    calc
      Nat.ofDigitChars 10 s (10 * value + (c.toNat - 48)) < (10 * value + (c.toNat - 48) + 1) * 10 ^ s.length :=
        ih hs.2 _
      _ ≤ (value + 1) * 10 * 10 ^ s.length := Nat.mul_le_mul_right _ (by omega)

/-- The reader stops at the first value that reaches the limit; since values only grow, the whole reaches it too. -/
theorem readDigits_eq_ok_iff (hv : value < limit) :
    readDigits limit value s = .ok n ↔
      (∀ c ∈ s, c.isDigit = true) ∧ Nat.ofDigitChars 10 s value = n ∧ n < limit := by
  induction s generalizing value with
  | nil =>
    simp only [readDigits, Except.ok.injEq, List.not_mem_nil, false_implies, implies_true, true_and,
      Nat.ofDigitChars_nil]
    constructor
    · rintro rfl
      exact ⟨rfl, hv⟩
    · exact fun h => h.1
  | cons c s ih =>
    rw [readDigits, Nat.ofDigitChars_cons, List.forall_mem_cons]
    cases hc : c.isDigit with
    | false => simp
    | true =>
      dsimp only
      rw [Bool.not_true, if_neg Bool.false_ne_true]
      split
      · rename_i hnext
        rw [ih hnext]
        simp
      · rename_i hnext
        have hle := le_ofDigitChars s (10 * value + (c.toNat - 48))
        constructor
        · intro h
          cases h
        · rintro ⟨-, rfl, hn⟩
          exact absurd (Nat.lt_of_le_of_lt hle hn) hnext

/-- Text of a natural number below a limit: decimal digits, with a plus in front or without. -/
def IsNatText (limit : Nat) (s : List Char) (n : Nat) : Prop :=
  ∃ digits, (s = digits ∨ s = '+' :: digits) ∧ digits ≠ [] ∧ (∀ c ∈ digits, c.isDigit = true) ∧
    Nat.ofDigitChars 10 digits 0 = n ∧ n < limit

theorem readNat_eq_ok_iff (hlimit : 0 < limit) : readNat limit s = .ok n ↔ IsNatText limit s n := by
  have hplus : ¬ ('+' : Char).isDigit = true := by decide
  unfold readNat
  split
  · constructor
    · intro h
      cases h
    · rintro ⟨digits, rfl | h, hne, -⟩
      · exact absurd rfl hne
      · cases h
  · constructor
    · intro h
      cases h
    · rintro ⟨digits, rfl | h, hne, hdigits, -⟩
      · exact absurd (hdigits '+' List.mem_cons_self) hplus
      · exact absurd (List.cons.inj h).2.symm hne
  · rename_i rest hrest
    rw [readDigits_eq_ok_iff hlimit]
    constructor
    · rintro ⟨hdigits, hvalue, hn⟩
      exact ⟨rest, .inr rfl, fun h => hrest (h ▸ rfl), hdigits, hvalue, hn⟩
    · rintro ⟨digits, rfl | h, -, hdigits, hvalue, hn⟩
      · exact absurd (hdigits '+' List.mem_cons_self) hplus
      · obtain rfl := (List.cons.inj h).2
        exact ⟨hdigits, hvalue, hn⟩
  · rename_i hempty _ hplain
    rw [readDigits_eq_ok_iff hlimit]
    constructor
    · rintro ⟨hdigits, hvalue, hn⟩
      exact ⟨s, .inl rfl, hempty, hdigits, hvalue, hn⟩
    · rintro ⟨digits, rfl | h, -, hdigits, hvalue, hn⟩
      · exact ⟨hdigits, hvalue, hn⟩
      · exact absurd h (hplain digits)

theorem IsNatText.mem (h : IsNatText limit s n) {c : Char} (hc : c ∈ s) : c.isDigit = true ∨ c = '+' := by
  obtain ⟨digits, rfl | rfl, -, hdigits, -⟩ := h
  · exact .inl (hdigits c hc)
  · rcases List.mem_cons.1 hc with rfl | hc
    · exact .inr rfl
    · exact .inl (hdigits c hc)

theorem readNat_lt (hlimit : 0 < limit) (h : readNat limit s = .ok n) : n < limit := by
  obtain ⟨_, -, -, -, -, hn⟩ := (readNat_eq_ok_iff hlimit).1 h
  exact hn

theorem readNat_digits (hne : s ≠ []) (hs : ∀ c ∈ s, c.isDigit = true) (h : Nat.ofDigitChars 10 s 0 < limit) :
    readNat limit s = .ok (Nat.ofDigitChars 10 s 0) :=
  (readNat_eq_ok_iff (Nat.zero_lt_of_lt h)).2 ⟨s, .inl rfl, hne, hs, rfl, h⟩

theorem readNat_toDigits (h : n < limit) : readNat limit (Nat.toDigits 10 n) = .ok n := by
  rw [readNat_digits Nat.toDigits_ne_nil (fun c => isDigit_of_mem_toDigits) (by simpa using h)]
  simp

end OpenCaptions.Number
