import OpenCaptions.Number.Decimal

/-!
Written numbers. `positional` writes the fewest digits that read back, never with an exponent;
`fixed` writes the exact value to a number of places; `read?` takes the usual spellings of decimal
numbers, infinities and the number that is none.
-/
namespace OpenCaptions.Number

-- Powers of natural numbers are those of the core library, whatever else is imported.
attribute [local instance (high)] instPowNat

/-- The written form of `d` with all places and no exponent. -/
def Decimal.positional (d : Decimal) : List Char :=
  let digits := Nat.toDigits 10 d.digits
  let sign := if d.negative then ['-'] else []
  if 0 ≤ d.exponent then
    sign ++ digits ++ (if d.digits = 0 then [] else List.replicate d.exponent.toNat '0')
  else
    let places := (-d.exponent).toNat
    let padded := List.replicate (places + 1 - digits.length) '0' ++ digits
    let split := padded.length - places
    sign ++ padded.take split ++ '.' :: padded.drop split

/-- The decimal that stands for a finite float. -/
def Decimal.ofFloat? (rule : TieRule) (x : Float) : Option Decimal :=
  match Binary64.ofFloat x with
  | .finite negative mantissa exponent =>
    some (Decimal.shortest rule x (Decimal.exact negative mantissa exponent))
  | _ => none

namespace Numeral

def special (x : Float) : List Char :=
  match Binary64.ofFloat x with
  | .infinite true => ['-', 'i', 'n', 'f']
  | .infinite false => ['i', 'n', 'f']
  | _ => ['N', 'a', 'N']

/-- The fewest digits that read back, without an exponent; a tie goes up. -/
def positional (x : Float) : List Char :=
  match Decimal.ofFloat? .larger x with
  | some d => d.positional
  | none => special x

/-- The exact value rounded to `places` places, a tie to the even digit. -/
def fixed (places : Nat) (x : Float) : List Char :=
  match Binary64.ofFloat x with
  | .finite negative mantissa exponent =>
    let (num, den) := Binary64.quotient mantissa exponent
    Decimal.positional ⟨negative, roundHalfEven (num * 10 ^ places) den, -places⟩
  | _ => special x

/-- Splits a sign from the front; true for a minus. -/
def takeSign : List Char → Bool × List Char
  | '-' :: rest => (true, rest)
  | '+' :: rest => (false, rest)
  | rest => (false, rest)

/-- The value of a string of ASCII digits, none for any other and for the empty one. -/
def natOfDigits? (digits : List Char) : Option Nat :=
  if digits ≠ [] ∧ digits.all Char.isDigit then some (Nat.ofDigitChars 10 digits 0) else none

/-- An exponent mark with its signed value at the end of a number, zero if nothing is left. -/
def readExponent? : List Char → Option Int
  | [] => some 0
  | mark :: rest =>
    if mark = 'e' ∨ mark = 'E' then
      let (negative, digits) := takeSign rest
      (natOfDigits? digits).map fun n => if negative then -(n : Int) else n
    else none

/-- Digits with at most one point among them, at least one digit, and an optional exponent. -/
def readDecimal? (negative : Bool) (source : List Char) : Option Decimal :=
  let whole := source.takeWhile Char.isDigit
  let rest := source.dropWhile Char.isDigit
  let (places, rest) := match rest with
    | '.' :: rest => (rest.takeWhile Char.isDigit, rest.dropWhile Char.isDigit)
    | rest => ([], rest)
  match natOfDigits? (whole ++ places), readExponent? rest with
  | some digits, some exponent => some ⟨negative, digits, exponent - places.length⟩
  | _, _ => none

/-- A float from its text: a sign, then digits, `inf`, `infinity` or `nan` in letters of any case. -/
def read? (source : List Char) : Option Float :=
  let (negative, body) := takeSign source
  let word := body.map Char.toLower
  if word = "inf".toList ∨ word = "infinity".toList then
    some (Binary64.pack negative (Binary64.specialField * 2 ^ (52 : Nat)))
  else if word = "nan".toList then
    some (0.0 / 0.0)
  else (readDecimal? negative body).map Decimal.toFloat

end Numeral
end OpenCaptions.Number
