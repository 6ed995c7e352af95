import OpenCaptions.Number.Numeral

/-!
The arithmetic that timing, position and size formulas use. It is instantiated by floats, which the
program runs on, and by the rationals, over which the formulas have their exact meaning.
-/
namespace OpenCaptions

-- Powers of natural numbers are those of the core library, whatever else is imported.
attribute [local instance (high)] instPowNat

/-- Numbers that formulas are evaluated in. -/
class Scalar (α : Type) extends Add α, Sub α, Mul α, Div α, Neg α where
  ofNat : Nat → α
  /-- The number `digits / 10 ^ places`. -/
  ofDecimal : Nat → Nat → α
  eq : α → α → Bool
  lt : α → α → Bool
  le : α → α → Bool
  min : α → α → α
  max : α → α → α
  ceil : α → α
  isFinite : α → Bool
  /-- Nearest natural number, a half upwards, clamped to a limit. -/
  nearestNat : α → Nat → Nat
  /-- The whole part as a natural number, clamped to a limit. -/
  truncatedNat : α → Nat → Nat

def Scalar.positivePart {α : Type} [Scalar α] (a : α) : α :=
  if Scalar.lt (Scalar.ofNat 0) a then a else Scalar.ofNat 0

class Written (α : Type) where
  text : α → List Char
  read? : List Char → Option α

instance : Scalar Float where
  ofNat n := Number.Binary64.nearest false n 1
  ofDecimal digits places := Number.Decimal.toFloat ⟨false, digits, -places⟩
  eq a b := a == b
  lt a b := a < b
  le a b := a ≤ b
  min := Number.lesser
  max := Number.greater
  ceil := Number.ceiling
  isFinite := Float.isFinite
  nearestNat := Number.nearestNat
  truncatedNat := Number.truncatedNat

instance : Scalar Rat where
  ofNat n := n
  ofDecimal digits places := (digits : Rat) / (10 ^ places : Nat)
  eq a b := a = b
  lt a b := a < b
  le a b := a ≤ b
  min a b := if b < a then b else a
  max a b := if a < b then b else a
  ceil a := a.ceil
  isFinite _ := true
  nearestNat a limit := Nat.min (a + 1 / 2).floor.toNat limit
  truncatedNat a limit := Nat.min a.floor.toNat limit

instance : Written Float where
  text := Number.Numeral.positional
  read? := Number.Numeral.read?

end OpenCaptions
