import OpenCaptions.Number.Binary64

/-!
Decimal numerals. `Decimal.toFloat` rounds correctly; `shortest` finds the fewest digits that read back
as the same float, and the exact expansion stands in where no short one does, so its result always
denotes the float it was made from. Where two numerals of that length are equally near, a `TieRule`
chooses.
-/
namespace OpenCaptions.Number

-- Powers of natural numbers are those of the core library, whatever else is imported.
attribute [local instance (high)] instPowNat

/-- The value `± digits * 10 ^ exponent`. -/
structure Decimal where
  negative : Bool
  digits : Nat
  exponent : Int
deriving DecidableEq, Repr

/-- Which of two equally near numerals stands for a value. -/
inductive TieRule where
  | larger
  | even
deriving DecidableEq, Repr

/-- Whether the numeral below a tie is taken, by its digits. -/
def TieRule.takesBelow (rule : TieRule) (digits : Nat) : Bool := rule = .even ∧ digits % 2 = 0

def digitCount (n : Nat) : Nat := (Nat.toDigits 10 n).length

def stripZeros : Nat → Nat → Int → Nat × Int
  | 0, digits, exponent => (digits, exponent)
  | fuel + 1, digits, exponent =>
    if digits ≠ 0 ∧ digits % 10 = 0 then stripZeros fuel (digits / 10) (exponent + 1)
    else (digits, exponent)

namespace Decimal

/-- The closest float; magnitudes far outside the range are settled by their number of digits. -/
def toFloat (d : Decimal) : Float :=
  let size : Int := digitCount d.digits + d.exponent
  if d.digits = 0 ∨ size < -400 then Binary64.pack d.negative 0
  else if 400 < size then Binary64.pack d.negative (Binary64.specialField * 2 ^ (52 : Nat))
  else if 0 ≤ d.exponent then Binary64.nearest d.negative (d.digits * 10 ^ d.exponent.toNat) 1
  else Binary64.nearest d.negative d.digits (10 ^ (-d.exponent).toNat)

def normalize (d : Decimal) : Decimal :=
  if d.digits = 0 then ⟨d.negative, 0, 0⟩
  else
    let (digits, exponent) := stripZeros (digitCount d.digits) d.digits d.exponent
    ⟨d.negative, digits, exponent⟩

/-- The exact value `± mantissa * 2 ^ exponent`, for `2 ^ (-n) = 5 ^ n * 10 ^ (-n)`. -/
def exact (negative : Bool) (mantissa : Nat) (exponent : Int) : Decimal :=
  if 0 ≤ exponent then ⟨negative, mantissa * 2 ^ exponent.toNat, 0⟩
  else ⟨negative, mantissa * 5 ^ (-exponent).toNat, exponent⟩

/-- The two neighbours of `d` that drop its last `places` digits, the nearer one first. -/
def neighbours (rule : TieRule) (d : Decimal) (places : Nat) : List Decimal :=
  let unit := 10 ^ places
  let below : Decimal := ⟨d.negative, d.digits / unit, d.exponent + places⟩
  let above : Decimal := ⟨d.negative, d.digits / unit + 1, d.exponent + places⟩
  let twice := 2 * (d.digits % unit)
  if twice < unit ∨ twice = unit ∧ rule.takesBelow below.digits then [below, above]
  else [above, below]

/-- Whether `d` is read as a float with the bits of `x`. -/
def readsAs (x : Float) (d : Decimal) : Bool := d.toFloat.toBits == x.toBits

/-- The fewest digits, of at most seventeen, that read back as `x`, whose exact expansion is `d`. -/
def shortest (rule : TieRule) (x : Float) (d : Decimal) : Decimal :=
  let size := digitCount d.digits
  let found := (List.range 17).findSome? fun n =>
    (d.neighbours rule (size - (n + 1))).find? (readsAs x)
  (found.getD d).normalize

end Decimal
end OpenCaptions.Number
