import OpenCaptions.Number.Scalar

/-!
Closed arithmetic formulas over the frame size, the size of the drawn text and the playback time. Only
the variables and functions listed here can reach the video engine.
-/
namespace OpenCaptions

inductive Variable where
  | frameWidth | frameHeight | textWidth | textHeight | time
deriving DecidableEq, Repr

inductive Operator where
  | add | sub | mul | div
deriving DecidableEq, Repr

/-- Functions of two arguments; a comparison gives zero or one. -/
inductive BinaryFunction where
  | less | greater | smaller | larger
deriving DecidableEq, Repr

inductive TernaryFunction where
  | choose | between
deriving DecidableEq, Repr

/-- A formula with number literals in `α`. -/
inductive Expr (α : Type) where
  | number (value : α)
  | var (name : Variable)
  | negate (operand : Expr α)
  | binary (operator : Operator) (left right : Expr α)
  | apply2 (function : BinaryFunction) (first second : Expr α)
  | apply3 (function : TernaryFunction) (first second third : Expr α)
deriving DecidableEq, BEq, Repr, Inhabited

namespace Variable

def name : Variable → String
  | frameWidth => "w"
  | frameHeight => "h"
  | textWidth => "text_w"
  | textHeight => "text_h"
  | time => "t"

def ofName? (name : String) : Option Variable :=
  if name ∈ ["w", "W", "main_w"] then some frameWidth
  else if name ∈ ["h", "H", "main_h"] then some frameHeight
  else if name ∈ ["text_w", "tw"] then some textWidth
  else if name ∈ ["text_h", "th"] then some textHeight
  else if name = "t" then some time
  else none

end Variable

namespace Operator

def symbol : Operator → Char
  | add => '+'
  | sub => '-'
  | mul => '*'
  | div => '/'

/-- Multiplication and division bind tighter. -/
def isProduct : Operator → Bool
  | mul | div => true
  | add | sub => false

def precedence (operator : Operator) : Nat := if operator.isProduct then 2 else 1

end Operator

namespace BinaryFunction

def name : BinaryFunction → String
  | less => "lt"
  | greater => "gt"
  | smaller => "min"
  | larger => "max"

end BinaryFunction

namespace TernaryFunction

def name : TernaryFunction → String
  | choose => "if"
  | between => "between"

end TernaryFunction

namespace Expr

variable {α : Type}

def time : Expr α := .var .time

def add (a b : Expr α) : Expr α := .binary .add a b

def sub (a b : Expr α) : Expr α := .binary .sub a b

def mul (a b : Expr α) : Expr α := .binary .mul a b

def div (a b : Expr α) : Expr α := .binary .div a b

def less (a b : Expr α) : Expr α := .apply2 .less a b

def smaller (a b : Expr α) : Expr α := .apply2 .smaller a b

def larger (a b : Expr α) : Expr α := .apply2 .larger a b

/-- A nonzero condition selects the second argument, zero the third. -/
def choose (condition yes no : Expr α) : Expr α := .apply3 .choose condition yes no

def nat [Scalar α] (n : Nat) : Expr α := .number (Scalar.ofNat n)

end Expr
end OpenCaptions
