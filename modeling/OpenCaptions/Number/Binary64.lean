/-!
Binary64 numbers as exact dyadic values. `ofFloat` reads the bits of a float, `nearest` rounds a
quotient of naturals to the closest float with a tie going to the even neighbour, and rounding to an
integer is done on the exact value.
-/
namespace OpenCaptions.Number

-- Powers of natural numbers are those of the core library, whatever else is imported.
attribute [local instance (high)] instPowNat

/-- The exact value of a float; a finite one is `± mantissa * 2 ^ exponent`. -/
inductive Binary64 where
  | nan
  | infinite (negative : Bool)
  | finite (negative : Bool) (mantissa : Nat) (exponent : Int)
deriving DecidableEq, Repr

/-- Quotient of two naturals rounded to the nearest natural, a tie to the even one. -/
def roundHalfEven (num den : Nat) : Nat :=
  let quotient := num / den
  let rest := num % den
  if 2 * rest < den then quotient
  else if den < 2 * rest then quotient + 1
  else quotient + quotient % 2

/-- Quotient of two naturals rounded to the nearest natural, a tie upwards. -/
def roundHalfUp (num den : Nat) : Nat := (2 * num + den) / (2 * den)

namespace Binary64

def leastExponent : Int := -1074

/-- Biased exponent field of infinities and of the number that is none. -/
def specialField : Nat := 2047

def ofFloat (x : Float) : Binary64 :=
  let bits := x.toBits.toNat
  let negative := decide (2 ^ (63 : Nat) ≤ bits)
  let field := bits / 2 ^ (52 : Nat) % 2 ^ (11 : Nat)
  let fraction := bits % 2 ^ (52 : Nat)
  if field = specialField then
    if fraction = 0 then infinite negative else nan
  else if field = 0 then finite negative fraction leastExponent
  else finite negative (2 ^ (52 : Nat) + fraction) (field - 1075)

/-- `mantissa * 2 ^ (exponent - leastExponent)` packs both fields, also when rounding carried over. -/
def pack (negative : Bool) (magnitude : Nat) : Float :=
  let magnitude := min magnitude (specialField * 2 ^ (52 : Nat))
  Float.ofBits (UInt64.ofNat ((if negative then 2 ^ (63 : Nat) else 0) + magnitude))

/-- Whether `2 ^ k ≤ num / den`. -/
def powerAtMost (k : Int) (num den : Nat) : Bool :=
  if 0 ≤ k then den * 2 ^ k.toNat ≤ num else den ≤ num * 2 ^ (-k).toNat

/-- The exponent `k` with `2 ^ k ≤ num / den < 2 ^ (k + 1)`, for positive arguments. -/
def scale (num den : Nat) : Int :=
  let guess : Int := (num.log2 : Int) - den.log2
  if powerAtMost guess num den then guess else guess - 1

/-- The float closest to `± num / den`, for a positive `den`. -/
def nearest (negative : Bool) (num den : Nat) : Float :=
  if num = 0 then pack negative 0
  else
    let exponent := max (scale num den - 52) leastExponent
    let mantissa :=
      if 0 ≤ exponent then roundHalfEven num (den * 2 ^ exponent.toNat)
      else roundHalfEven (num * 2 ^ (-exponent).toNat) den
    pack negative ((exponent - leastExponent).toNat * 2 ^ (52 : Nat) + mantissa)

def quotient (mantissa : Nat) (exponent : Int) : Nat × Nat :=
  if 0 ≤ exponent then (mantissa * 2 ^ exponent.toNat, 1) else (mantissa, 2 ^ (-exponent).toNat)

end Binary64

def ceiling (x : Float) : Float :=
  match Binary64.ofFloat x with
  | .finite negative mantissa exponent =>
    if 0 ≤ exponent then x
    else
      let (num, den) := Binary64.quotient mantissa exponent
      Binary64.nearest negative (if negative then num / den else (num + den - 1) / den) 1
  | _ => x

/-- Clamps the integer nearest to `x`, a half going away from zero, to `0 .. limit`. -/
def nearestNat (x : Float) (limit : Nat) : Nat :=
  match Binary64.ofFloat x with
  | .nan => 0
  | .infinite negative => if negative then 0 else limit
  | .finite negative mantissa exponent =>
    let (num, den) := Binary64.quotient mantissa exponent
    if negative then 0 else min (roundHalfUp num den) limit

/-- Clamps the integer part of `x` to `0 .. limit`. -/
def truncatedNat (x : Float) (limit : Nat) : Nat :=
  match Binary64.ofFloat x with
  | .nan => 0
  | .infinite negative => if negative then 0 else limit
  | .finite negative mantissa exponent =>
    let (num, den) := Binary64.quotient mantissa exponent
    if negative then 0 else min (num / den) limit

/-- The smaller number; one that is no number gives way to the other. Of equal numbers, which zeros of
either sign are, the second is taken. -/
def lesser (a b : Float) : Float :=
  if a.isNaN then b else if b.isNaN then a else if a < b then a else b

/-- The larger number; one that is no number gives way to the other. Of equal numbers, which zeros of
either sign are, the second is taken. -/
def greater (a b : Float) : Float :=
  if a.isNaN then b else if b.isNaN then a else if b < a then a else b

end OpenCaptions.Number
