import OpenCaptions.Expr.Basic

/-!
The value of a formula for given frame size, text size and time.
-/
namespace OpenCaptions

structure Env (α : Type) where
  frameWidth : α
  frameHeight : α
  textWidth : α
  textHeight : α
  time : α
deriving DecidableEq, Repr

variable {α : Type}

def Env.get (env : Env α) : Variable → α
  | .frameWidth => env.frameWidth
  | .frameHeight => env.frameHeight
  | .textWidth => env.textWidth
  | .textHeight => env.textHeight
  | .time => env.time

variable [Scalar α]

def truth (b : Bool) : α := Scalar.ofNat (if b then 1 else 0)

def Operator.eval (operator : Operator) (a b : α) : α :=
  match operator with
  | .add => a + b
  | .sub => a - b
  | .mul => a * b
  | .div => a / b

def BinaryFunction.eval (function : BinaryFunction) (a b : α) : α :=
  match function with
  | .less => truth (Scalar.lt a b)
  | .greater => truth (Scalar.lt b a)
  | .smaller => Scalar.min a b
  | .larger => Scalar.max a b

def TernaryFunction.eval (function : TernaryFunction) (a b c : α) : α :=
  match function with
  | .choose => if Scalar.eq a (Scalar.ofNat 0) then c else b
  | .between => truth (Scalar.le b a && Scalar.le a c)

def Expr.eval (env : Env α) : Expr α → α
  | .number value => value
  | .var name => env.get name
  | .negate operand => -operand.eval env
  | .binary operator left right => operator.eval (left.eval env) (right.eval env)
  | .apply2 function a b => function.eval (a.eval env) (b.eval env)
  | .apply3 function a b c => function.eval (a.eval env) (b.eval env) (c.eval env)

end OpenCaptions
