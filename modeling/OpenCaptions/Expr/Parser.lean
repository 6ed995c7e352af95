import OpenCaptions.Expr.Token
import OpenCaptions.Text.Utf8

/-!
Reading formulas. Each reader returns the tokens it left together with the fact that they are fewer,
so the loops end on the number of tokens and nesting ends on the levels that remain.
-/
namespace OpenCaptions

variable {α : Type}

/-- A formula read from the front of fewer than `limit` tokens, and the tokens behind it. -/
structure Parsed (α : Type) (limit : Nat) where
  expr : Expr α
  rest : List (Token α)
  fewer : rest.length < limit

def Parsed.weaken {small large : Nat} (p : Parsed α small) (h : small ≤ large) : Parsed α large :=
  ⟨p.expr, p.rest, Nat.lt_of_lt_of_le p.fewer h⟩

/-- Arguments read from the front of fewer than `limit` tokens, and the tokens behind them. -/
structure ParsedList (α : Type) (limit : Nat) where
  exprs : List (Expr α)
  rest : List (Token α)
  fewer : rest.length < limit

/-- A reader of formulas. The place of an unexpected token is given as the number of tokens from it to
the end, until the whole list is known. -/
abbrev ExprParser (α : Type) := (tokens : List (Token α)) → Except SyntaxError (Parsed α tokens.length)

namespace Expr

def misfit (token : Token α) (behind : List (Token α)) : SyntaxError :=
  .unexpected token.sign (behind.length + 1)

/-- Further operands of one level, grouped to the left. -/
def parseChain (level : Operator → Bool) (operand : ExprParser α) (left : Expr α)
    (tokens : List (Token α)) : Except SyntaxError (Parsed α (tokens.length + 1)) :=
  match tokens with
  | .operator op :: rest =>
    if level op then do
      let right ← operand rest
      let whole ← parseChain level operand (.binary op left right.expr) right.rest
      return whole.weaken (by have := right.fewer; simp only [List.length_cons]; omega)
    else return ⟨left, .operator op :: rest, Nat.lt_succ_self _⟩
  | tokens => return ⟨left, tokens, Nat.lt_succ_self _⟩
termination_by tokens.length
decreasing_by have := right.fewer; simp only [List.length_cons]; omega

def parseLevel (level : Operator → Bool) (operand : ExprParser α) : ExprParser α := fun tokens => do
  let first ← operand tokens
  let whole ← parseChain level operand first.expr first.rest
  return whole.weaken first.fewer

def parseSum (operand : ExprParser α) : ExprParser α :=
  parseLevel (!·.isProduct) (parseLevel Operator.isProduct operand)

def parseArguments (operand : ExprParser α) (tokens : List (Token α)) :
    Except SyntaxError (ParsedList α tokens.length) := do
  let first ← operand tokens
  match h : first.rest with
  | .comma :: rest =>
    let others ← parseArguments operand rest
    return ⟨first.expr :: others.exprs, others.rest, by
      have hf := first.fewer
      have ho := others.fewer
      rw [h, List.length_cons] at hf
      omega⟩
  | _ => return ⟨[first.expr], first.rest, first.fewer⟩
termination_by tokens.length
decreasing_by
  have hf := first.fewer
  rw [h, List.length_cons] at hf
  omega

def expectOpen (tokens : List (Token α)) :
    Except SyntaxError { rest : List (Token α) // rest.length < tokens.length } :=
  match tokens with
  | [] => .error .unexpectedEnd
  | .openParen :: rest => .ok ⟨rest, Nat.lt_succ_self _⟩
  | token :: rest => .error (misfit token rest)

def expectClose (tokens : List (Token α)) :
    Except SyntaxError { rest : List (Token α) // rest.length < tokens.length } :=
  match tokens with
  | [] => .error .unexpectedEnd
  | .closeParen :: rest => .ok ⟨rest, Nat.lt_succ_self _⟩
  | token :: rest => .error (misfit token rest)

/-- What a name can be called as. -/
inductive Callee where
  | binary (function : BinaryFunction)
  | ternary (function : TernaryFunction)
deriving DecidableEq, Repr

namespace Callee

def name : Callee → String
  | binary function => function.name
  | ternary function => function.name

def arity : Callee → Nat
  | binary _ => 2
  | ternary _ => 3

def all : List Callee :=
  [ternary .choose, binary .less, binary .greater, ternary .between, binary .smaller, binary .larger]

def ofName? (name : String) : Option Callee := all.find? (·.name = name)

/-- The call with these arguments, if their number is right. -/
def call? (callee : Callee) (arguments : List (Expr α)) : Option (Expr α) :=
  match callee, arguments with
  | binary function, [a, b] => some (.apply2 function a b)
  | ternary function, [a, b, c] => some (.apply3 function a b c)
  | _, _ => none

end Callee

def parseCall (operand : ExprParser α) (callee : Callee) : ExprParser α := fun tokens => do
  let ⟨inside, h⟩ ← expectOpen tokens
  let arguments ← parseArguments operand inside
  let ⟨rest, h'⟩ ← expectClose arguments.rest
  match callee.call? arguments.exprs with
  | some e => return ⟨e, rest, by have := arguments.fewer; omega⟩
  | none => throw (.wrongArity callee.name callee.arity arguments.exprs.length)

def parseAtom (operand : ExprParser α) : ExprParser α
  | [] => .error .unexpectedEnd
  | .number value :: rest => .ok ⟨.number value, rest, Nat.lt_succ_self _⟩
  | .openParen :: rest => do
    let inner ← operand rest
    let ⟨behind, h⟩ ← expectClose inner.rest
    return ⟨inner.expr, behind, by have := inner.fewer; simp only [List.length_cons]; omega⟩
  | .word name :: rest => do
    let name := String.ofList name
    match Variable.ofName? name with
    | some v => return ⟨.var v, rest, Nat.lt_succ_self _⟩
    | none =>
      match Callee.ofName? name with
      | none => throw (.unknownName name)
      | some callee =>
        let called ← parseCall operand callee rest
        return called.weaken (Nat.le_succ _)
  | token :: rest => .error (misfit token rest)

/-- Reads an operand with its signs; each sign, call and parenthesis takes one of the levels left. -/
def parseOperand : (levels : Nat) → ExprParser α
  | 0, _ => .error .tooDeep
  | levels + 1, .operator .sub :: rest => do
    let operand ← parseOperand levels rest
    return ⟨.negate operand.expr, operand.rest, Nat.lt_succ_of_lt operand.fewer⟩
  | levels + 1, .operator .add :: rest => do
    let operand ← parseOperand levels rest
    return operand.weaken (Nat.le_succ _)
  | levels + 1, tokens => parseAtom (parseSum (parseOperand levels)) tokens

def ofTokens (tokens : List (Token α)) : Except SyntaxError (Expr α) :=
  let fromFront : SyntaxError → SyntaxError
    | .unexpected c behind => .unexpected c (tokens.length - behind)
    | e => e
  match parseSum (parseOperand deepestFormula) tokens with
  | .error e => .error (fromFront e)
  | .ok whole =>
    match whole.rest with
    | [] => .ok whole.expr
    | token :: behind => .error (fromFront (misfit token behind))

/-- Reads a formula; nothing outside the closed grammar is accepted. -/
def parse [Written α] (source : List Char) : Except SyntaxError (Expr α) := do
  if longestFormula < Text.Utf8.size source then throw .tooLong
  let tokens ← Token.scan 0 source
  if tokens.isEmpty then throw .empty
  ofTokens tokens

end Expr
end OpenCaptions
