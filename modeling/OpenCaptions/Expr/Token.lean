import OpenCaptions.Expr.Basic
import OpenCaptions.Text.Quoted

/-!
The words of a formula's text, and why a text may be no formula.
-/
namespace OpenCaptions

/-- Longest formula text, in bytes. -/
def longestFormula : Nat := 4096

/-- Deepest nesting of parentheses, calls and signs. -/
def deepestFormula : Nat := 64

inductive SyntaxError where
  | empty
  | unexpected (c : Char) (place : Nat)
  | unknownName (name : String)
  | wrongArity (name : String) (expected got : Nat)
  | unexpectedEnd
  | badNumber (text : String)
  | tooLong
  | tooDeep
deriving DecidableEq, Repr

def SyntaxError.message : SyntaxError → String
  | empty => "empty expression"
  | unexpected c place =>
    "unexpected character " ++ String.ofList (Text.quotedChar c) ++ " at offset " ++ toString place
  | unknownName name => "unknown identifier " ++ Text.quotedString name
  | wrongArity name expected got =>
    "function " ++ name ++ " takes " ++ toString expected ++ " arguments, got " ++ toString got
  | unexpectedEnd => "unexpected end of expression"
  | badNumber text => "invalid number " ++ Text.quotedString text
  | tooLong => "expression is longer than " ++ toString longestFormula ++ " bytes"
  | tooDeep => "expression nests deeper than " ++ toString deepestFormula ++ " levels"

inductive Token (α : Type) where
  | number (value : α)
  | word (name : List Char)
  | operator (op : Operator)
  | openParen
  | closeParen
  | comma
deriving DecidableEq, Repr

namespace Token

variable {α : Type}

def sign : Token α → Char
  | number _ => '0'
  | word name => name.headD '?'
  | operator op => op.symbol
  | openParen => '('
  | closeParen => ')'
  | comma => ','

def ofChar? : Char → Option (Token α)
  | '+' => some (operator .add)
  | '-' => some (operator .sub)
  | '*' => some (operator .mul)
  | '/' => some (operator .div)
  | '(' => some openParen
  | ')' => some closeParen
  | ',' => some comma
  | _ => none

def isNumberChar (c : Char) : Bool := c.isDigit || c == '.'

def isWordStart (c : Char) : Bool := c.isAlpha || c == '_'

def isWordChar (c : Char) : Bool := isWordStart c || c.isDigit

variable [Written α]

def scan (place : Nat) : List Char → Except SyntaxError (List (Token α))
  | [] => .ok []
  | c :: rest =>
    if c = ' ' ∨ c = '\t' then scan (place + 1) rest
    else match ofChar? c with
    | some token => do
      let tokens ← scan (place + 1) rest
      return token :: tokens
    | none =>
      if isNumberChar c then
        let text := c :: rest.takeWhile isNumberChar
        match Written.read? text with
        | none => .error (.badNumber (String.ofList text))
        | some value => do
          let tokens ← scan (place + text.length) (rest.dropWhile isNumberChar)
          return .number value :: tokens
      else if isWordStart c then do
        let name := c :: rest.takeWhile isWordChar
        let tokens ← scan (place + name.length) (rest.dropWhile isWordChar)
        return .word name :: tokens
      else .error (.unexpected c place)
termination_by source => source.length
decreasing_by
  all_goals simp only [List.length_cons]
  · omega
  · omega
  · have := (List.dropWhile_sublist isNumberChar (l := rest)).length_le; omega
  · have := (List.dropWhile_sublist isWordChar (l := rest)).length_le; omega

end Token
end OpenCaptions
