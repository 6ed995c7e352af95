import OpenCaptions.Expr.Basic

/-!
The text of a formula, with parentheses only where the structure needs them.
-/
namespace OpenCaptions.Expr

variable {α : Type} [Scalar α]

/-- Whether a literal prints with a sign that binds like a negation. -/
def isBelowZero (value : α) : Bool := Scalar.lt value (Scalar.ofNat 0)

def precedence : Expr α → Nat
  | .binary operator _ _ => operator.precedence
  | .negate _ => 3
  | .number value => if isBelowZero value then 3 else 4
  | _ => 4

def isNegative : Expr α → Bool
  | .negate _ => true
  | .number value => isBelowZero value
  | _ => false

def parens (needed : Bool) (text : List Char) : List Char :=
  if needed then '(' :: text ++ [')'] else text

variable [Written α]

def chars : Expr α → List Char
  | .number value => Written.text value
  | .var name => name.name.toList
  | .negate operand => '-' :: parens (operand.precedence < 4) operand.chars
  | .binary operator left right =>
    let p := operator.precedence
    parens (left.precedence < p) left.chars ++
      operator.symbol :: parens (right.precedence ≤ p || right.isNegative) right.chars
  | .apply2 function a b => function.name.toList ++ '(' :: a.chars ++ ',' :: b.chars ++ [')']
  | .apply3 function a b c =>
    function.name.toList ++ '(' :: a.chars ++ ',' :: b.chars ++ ',' :: c.chars ++ [')']

def text (e : Expr α) : String := String.ofList e.chars

end OpenCaptions.Expr
