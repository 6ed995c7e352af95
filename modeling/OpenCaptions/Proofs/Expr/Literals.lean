import OpenCaptions.Proofs.Expr.Rereading
import OpenCaptions.Proofs.Number.Sign
import OpenCaptions.Proofs.Text.Cutting

/-!
Formulas whose literals are finite floats. Their literals are read, each from a short text, so a formula of
few literals and levels is read as well.
-/
namespace OpenCaptions

open Number Text

namespace Literal

variable {x : Float}

theorem exists_digits (h : x.isFinite = true) :
    ∃ d : Decimal, d.toFloat = x ∧ isSigned x = d.negative ∧ digits x = d.magnitude ∧
      d.magnitude.length ≤ 345 := by
  obtain ⟨d, htext, hread, hlength⟩ := Numeral.exists_positional h
  obtain ⟨c, rest, hm, hc⟩ := d.exists_magnitude
  have htext' : Written.text x = (if d.negative then ['-'] else []) ++ d.magnitude :=
    htext.trans d.positional_eq
  have hsigned : isSigned x = d.negative := by
    rw [isSigned, htext', hm]
    cases d.negative with
    | true => rfl
    | false =>
      have hne : c ≠ '-' := by
        rintro rfl
        cases hc
      simp [hne]
  refine ⟨d, hread, hsigned, ?_, hlength⟩
  rw [digits, hsigned, htext']
  cases d.negative <;> rfl

/-- A finite literal is signed if its sign bit is set, and its digits are read as its absolute value. -/
theorem sign_and_digits (h : x.isFinite = true) :
    isSigned x = hasSignBit x ∧ Written.read? (digits x) = some x.abs := by
  obtain ⟨d, rfl, hsigned, hdigits, -⟩ := exists_digits h
  obtain ⟨hsign, habs⟩ := Decimal.toFloat_spec h
  have hpositive : d.magnitude = Decimal.positional ⟨false, d.digits, d.exponent⟩ := by
    rw [Decimal.positional_eq]
    rfl
  refine ⟨hsigned.trans hsign.symm, ?_⟩
  change Numeral.read? (digits d.toFloat) = _
  rw [hdigits, hpositive, Decimal.read?_positional, habs]

theorem isLegible_of_isFinite (h : x.isFinite = true) : IsLegible x := by
  obtain ⟨d, -, -, hdigits, -⟩ := exists_digits h
  obtain ⟨c, rest, hm, -⟩ := d.exists_magnitude
  refine ⟨?_, fun c hc => ?_, ?_⟩
  · rw [hdigits, hm]
    exact List.cons_ne_nil _ _
  · rw [hdigits] at hc
    rcases d.mem_magnitude hc with hd | rfl
    · simp [Token.isNumberChar, hd]
    · rfl
  · rw [(sign_and_digits h).2]
    rfl

theorem size_text_le (h : x.isFinite = true) : Utf8.size (Written.text x) ≤ 346 := by
  obtain ⟨d, -, hsigned, hdigits, hlength⟩ := exists_digits h
  have hsize : Utf8.size d.magnitude = d.magnitude.length := by
    refine Utf8.size_eq_length fun c hc => ?_
    rcases d.mem_magnitude hc with hd | rfl
    · exact Utf8.utf8Size_digit hd
    · rfl
  have hsign : Utf8.size (if isSigned x then ['-'] else []) ≤ 1 := by
    split
    · exact Nat.le_refl 1
    · exact Nat.zero_le 1
  rw [text_eq, Utf8.size_append, hdigits, hsize]
  omega

end Literal

namespace Expr

def weight {α : Type} [Written α] : Expr α → Nat
  | .number value => Utf8.size (Written.text value)
  | .var _ => 6
  | .negate operand => operand.weight + 3
  | .binary _ left right => left.weight + right.weight + 5
  | .apply2 _ a b => a.weight + b.weight + 6
  | .apply3 _ a b c => a.weight + b.weight + c.weight + 11

def deepness {α : Type} : Expr α → Nat
  | .number _ => 2
  | .var _ => 1
  | .negate operand => operand.deepness + 2
  | .binary _ left right => max left.deepness right.deepness + 1
  | .apply2 _ a b => max a.deepness b.deepness + 1
  | .apply3 _ a b c => max a.deepness (max b.deepness c.deepness) + 1

theorem Forall.imp {α : Type} {p q : α → Prop} (hpq : ∀ a, p a → q a) {e : Expr α} (h : e.Forall p) :
    e.Forall q := by
  induction e with
  | number value => exact hpq value h
  | var name => trivial
  | negate operand ih => exact ih h
  | binary operator left right ihl ihr => exact ⟨ihl h.1, ihr h.2⟩
  | apply2 function a b iha ihb => exact ⟨iha h.1, ihb h.2⟩
  | apply3 function a b c iha ihb ihc => exact ⟨iha h.1, ihb h.2.1, ihc h.2.2⟩

theorem reread_eq_self {α : Type} [Written α] {e : Expr α}
    (h : e.Forall fun value => Literal.isSigned value = false ∧ Literal.magnitude value = value) :
    e.reread = e := by
  induction e with
  | number value => rw [reread, h.1, h.2, if_neg Bool.false_ne_true]
  | var name => rfl
  | negate operand ih => rw [reread, ih h]
  | binary operator left right ihl ihr => rw [reread, ihl h.1, ihr h.2]
  | apply2 function a b iha ihb => rw [reread, iha h.1, ihb h.2]
  | apply3 function a b c iha ihb ihc => rw [reread, iha h.1, ihb h.2.1, ihc h.2.2]

variable {α : Type} [Scalar α] [Written α]

theorem size_parens_le (needed : Bool) (text : List Char) :
    Utf8.size (parens needed text) ≤ Utf8.size text + 2 := by
  cases needed with
  | false => exact Nat.le_add_right _ 2
  | true =>
    simp only [parens, if_true, Utf8.size_cons, Utf8.size_append, Utf8.size_nil]
    change 1 + Utf8.size text + (1 + 0) ≤ _
    omega

theorem size_chars_le (e : Expr α) : Utf8.size e.chars ≤ e.weight := by
  induction e with
  | number value => exact Nat.le_refl _
  | var name =>
    have hname : Utf8.size name.name.toList ≤ 6 := by cases name <;> decide
    exact hname
  | negate operand ih =>
    have hinner := size_parens_le (operand.precedence < 4) operand.chars
    rw [chars, Utf8.size_cons, weight]
    change 1 + _ ≤ _
    omega
  | binary operator left right ihl ihr =>
    have hleft := size_parens_le (left.precedence < operator.precedence) left.chars
    have hright := size_parens_le (right.precedence ≤ operator.precedence || right.isNegative) right.chars
    have hsymbol : operator.symbol.utf8Size = 1 := by cases operator <;> rfl
    simp only [chars, Utf8.size_append, Utf8.size_cons, hsymbol, weight]
    omega
  | apply2 function a b iha ihb =>
    have hname : Utf8.size function.name.toList ≤ 3 := by cases function <;> decide
    have hone : '('.utf8Size = 1 ∧ ','.utf8Size = 1 ∧ ')'.utf8Size = 1 := by decide
    simp only [chars, Utf8.size_append, Utf8.size_cons, Utf8.size_nil, hone, weight]
    omega
  | apply3 function a b c iha ihb ihc =>
    have hname : Utf8.size function.name.toList ≤ 7 := by cases function <;> decide
    have hone : '('.utf8Size = 1 ∧ ','.utf8Size = 1 ∧ ')'.utf8Size = 1 := by decide
    simp only [chars, Utf8.size_append, Utf8.size_cons, Utf8.size_nil, hone, weight]
    omega

theorem enclosedLevels_le (needed : Bool) (levels : Nat) : enclosedLevels needed levels ≤ levels + 1 := by
  cases needed with
  | false => exact Nat.le_succ levels
  | true => exact Nat.le_refl _

theorem levels_le (e : Expr α) : e.levels ≤ e.deepness := by
  induction e with
  | number value =>
    rw [levels]
    split
    · exact Nat.le_refl 2
    · exact Nat.le_succ 1
  | var name => exact Nat.le_refl 1
  | negate operand ih =>
    have hinner := enclosedLevels_le (operand.precedence < 4) operand.levels
    rw [levels, deepness]
    omega
  | binary operator left right ihl ihr =>
    have hleft := enclosedLevels_le (left.precedence < operator.precedence) left.levels
    have hright := enclosedLevels_le (right.precedence ≤ operator.precedence || right.isNegative) right.levels
    simp only [levels, deepness]
    omega
  | apply2 function a b iha ihb =>
    rw [levels, deepness]
    omega
  | apply3 function a b c iha ihb ihc =>
    rw [levels, deepness]
    omega

/-- A formula with finite literals is read back where it is neither long nor deep. -/
theorem parse_chars_eq_ok {e : Expr Float} (h : e.Forall (·.isFinite = true))
    (hweight : e.weight ≤ longestFormula) (hdeep : e.deepness ≤ deepestFormula) :
    parse e.chars = .ok e.reread := by
  have hlong : ¬ longestFormula < Utf8.size e.chars := by
    have := e.size_chars_le
    omega
  have hlevels : e.levels ≤ deepestFormula := Nat.le_trans e.levels_le hdeep
  rw [parse_chars (h.imp fun _ => Literal.isLegible_of_isFinite), if_neg hlong, within, if_pos hlevels]

end Expr

end OpenCaptions
