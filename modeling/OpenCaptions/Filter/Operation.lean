import OpenCaptions.Expr.Printer
import OpenCaptions.Text.Split

/-!
Filters as they are written into a graph: a name, then options `key=value` that colons separate.
-/
namespace OpenCaptions

/-- The right side of an option. -/
inductive OptionValue (α : Type) where
  | word (text : String)
  | number (n : Nat)
  | tint (color : String) (opacity : α)
  /-- Escaped text, written between quotes. -/
  | quoted (escaped : String)
  /-- A formula, written between quotes. -/
  | formula (e : Expr α)
deriving DecidableEq, Repr

structure Operation (α : Type) where
  name : String
  options : List (String × OptionValue α)
deriving DecidableEq, Repr

namespace OptionValue

variable {α : Type}

/-- Whether the value is written between quotes. -/
def isQuoted : OptionValue α → Bool
  | quoted _ | formula _ => true
  | word _ | number _ | tint _ _ => false

variable [Scalar α] [Written α]

def content : OptionValue α → List Char
  | word text => text.toList
  | number n => Nat.toDigits 10 n
  | tint color opacity => color.toList ++ '@' :: Written.text opacity
  | quoted escaped => escaped.toList
  | formula e => e.chars

def chars (value : OptionValue α) : List Char :=
  if value.isQuoted then '\'' :: value.content ++ ['\''] else value.content

end OptionValue

namespace Operation

variable {α : Type}

def option? (op : Operation α) (key : String) : Option (OptionValue α) := op.options.lookup key

variable [Scalar α] [Written α]

def optionChars (option : String × OptionValue α) : List Char :=
  option.1.toList ++ '=' :: option.2.chars

def chars (op : Operation α) : List Char :=
  match op.options with
  | [] => op.name.toList
  | options => op.name.toList ++ '=' :: Text.join [':'] (options.map optionChars)

def text (op : Operation α) : String := String.ofList op.chars

def joined (ops : List (Operation α)) : String :=
  String.ofList (Text.join [','] (ops.map chars))

end Operation
end OpenCaptions
