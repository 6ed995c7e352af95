import OpenCaptions.Table
import OpenCaptions.Number.Numeral

/-!
JSON values. Whole numbers within 64 bits are exact; all others are floats.
-/
namespace OpenCaptions

-- Powers of natural numbers are those of the core library, whatever else is imported.
attribute [local instance (high)] instPowNat

inductive Json where
  | null
  | bool (b : Bool)
  | nat (n : Nat)
  /-- The number `-n`, for a positive `n`. -/
  | negative (n : Nat)
  | float (x : Float)
  | string (s : String)
  | array (items : List Json)
  | object (members : List (String × Json))
deriving Inhabited

namespace Json

def bool? : Json → Option Bool
  | bool b => some b
  | _ => none

def string? : Json → Option String
  | string s => some s
  | _ => none

def float? : Json → Option Float
  | nat n => some (Number.Binary64.nearest false n 1)
  | negative n => some (Number.Binary64.nearest true n 1)
  | float x => some x
  | _ => none

def natBelow? (limit : Nat) : Json → Option Nat
  | nat n => if n < limit then some n else none
  | _ => none

/-- Null is no value; anything else must be read by `read`. -/
def nullable? {α : Type} (read : Json → Option α) : Json → Option (Option α)
  | null => some none
  | value => (read value).map some

end Json

def word32 : Nat := 2 ^ (32 : Nat)

def word64 : Nat := 2 ^ (64 : Nat)

/-- The value of a whole number written with a sign or without. -/
def Json.ofWhole (belowZero : Bool) (digits : Nat) : Option Json :=
  if belowZero then
    if 0 < digits ∧ digits ≤ 2 ^ (63 : Nat) then some (.negative digits) else ofDecimal ⟨true, digits, 0⟩
  else if digits < word64 then some (.nat digits)
  else ofDecimal ⟨false, digits, 0⟩
where
  /-- The closest float; none beyond the largest. -/
  ofDecimal (d : Number.Decimal) : Option Json :=
    let x := d.toFloat
    if x.isFinite then some (.float x) else none

end OpenCaptions
