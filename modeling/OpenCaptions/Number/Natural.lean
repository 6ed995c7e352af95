/-!
Natural numbers from text. Digits are read from the left, and the first one that cannot be taken over
decides the error.
-/
namespace OpenCaptions

inductive NatError where
  | empty | badDigit | tooLarge
deriving DecidableEq, Repr

def NatError.message : NatError → String
  | empty => "cannot parse integer from empty string"
  | badDigit => "invalid digit found in string"
  | tooLarge => "number too large to fit in target type"

namespace Number

/-- Reads digits behind a value as long as it stays below `limit`. -/
def readDigits (limit value : Nat) : List Char → Except NatError Nat
  | [] => .ok value
  | c :: rest =>
    if !c.isDigit then .error .badDigit
    else
      let next := 10 * value + (c.toNat - 48)
      if next < limit then readDigits limit next rest else .error .tooLarge

/-- Reads a natural number below `limit`; a plus may stand in front. -/
def readNat (limit : Nat) : List Char → Except NatError Nat
  | [] => .error .empty
  | ['+'] => .error .badDigit
  | '+' :: rest => readDigits limit 0 rest
  | s => readDigits limit 0 s

end Number
end OpenCaptions
