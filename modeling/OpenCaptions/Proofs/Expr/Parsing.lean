import OpenCaptions.Expr.Parser
import OpenCaptions.Proofs.Steps

/-!
The readers of formulas without the bounds that let them end: what each of them reads and leaves, in terms
of what the readers it calls do.
-/
namespace OpenCaptions.Expr

variable {α : Type}

def outcome {n : Nat} (r : Except SyntaxError (Parsed α n)) :
    Except SyntaxError (Expr α × List (Token α)) := r.map fun p => (p.expr, p.rest)

def outcomes {n : Nat} (r : Except SyntaxError (ParsedList α n)) :
    Except SyntaxError (List (Expr α) × List (Token α)) := r.map fun p => (p.exprs, p.rest)

theorem outcome_bind {n k : Nat} {a : Except SyntaxError (Parsed α n)}
    {f : Parsed α n → Except SyntaxError (Parsed α k)}
    {g : Expr α × List (Token α) → Except SyntaxError (Expr α × List (Token α))}
    (h : ∀ p, outcome (f p) = g (p.expr, p.rest)) : outcome (a >>= f) = outcome a >>= g := by
  cases a with
  | error e => rfl
  | ok p => exact h p

theorem outcome_weaken {n k : Nat} (a : Except SyntaxError (Parsed α n)) (h : n ≤ k) :
    outcome (a >>= fun p => pure (p.weaken h)) = outcome a := by
  cases a <;> rfl

variable {level : Operator → Bool} {operand : ExprParser α} {tokens rest : List (Token α)} {e : Expr α}

def Stops (level : Operator → Bool) (tokens : List (Token α)) : Prop :=
  ∀ op rest, tokens = .operator op :: rest → level op = false

theorem outcome_parseChain_stop (h : Stops level tokens) :
    outcome (parseChain level operand e tokens) = .ok (e, tokens) := by
  unfold parseChain
  split
  · rename_i op rest
    rw [if_neg (by rw [h op rest rfl]; exact Bool.false_ne_true)]
    rfl
  · rfl

theorem outcome_parseChain_operator {op : Operator} (h : level op = true) :
    outcome (parseChain level operand e (.operator op :: rest)) =
      outcome (operand rest) >>= fun right =>
        outcome (parseChain level operand (.binary op e right.1) right.2) := by
  rw [parseChain, if_pos h]
  refine outcome_bind fun right => ?_
  exact outcome_weaken _ _

theorem outcome_parseLevel (level : Operator → Bool) (operand : ExprParser α) (tokens : List (Token α)) :
    outcome (parseLevel level operand tokens) =
      outcome (operand tokens) >>= fun first => outcome (parseChain level operand first.1 first.2) := by
  refine outcome_bind fun first => ?_
  exact outcome_weaken _ _

theorem outcomes_parseArguments (operand : ExprParser α) (tokens : List (Token α)) :
    outcomes (parseArguments operand tokens) =
      outcome (operand tokens) >>= fun first =>
        match first.2 with
        | .comma :: rest => (outcomes (parseArguments operand rest)).map fun others =>
            (first.1 :: others.1, others.2)
        | rest => .ok ([first.1], rest) := by
  rw [parseArguments]
  cases operand tokens with
  | error e => rfl
  | ok first =>
    obtain ⟨e, rest, fewer⟩ := first
    cases rest with
    | nil => rfl
    | cons token rest =>
      cases token with
      | comma =>
        change outcomes (parseArguments operand rest >>= fun others => _) =
          Except.map _ (outcomes (parseArguments operand rest))
        cases parseArguments operand rest <;> rfl
      | number value => rfl
      | word name => rfl
      | operator op => rfl
      | openParen => rfl
      | closeParen => rfl

theorem outcome_parseAtom_openParen (operand : ExprParser α) (rest : List (Token α)) :
    outcome (parseAtom operand (.openParen :: rest)) =
      outcome (operand rest) >>= fun inner =>
        (expectClose inner.2).map fun behind => (inner.1, behind.1) := by
  refine outcome_bind fun inner => ?_
  cases expectClose inner.rest <;> rfl

theorem outcome_parseAtom_variable (operand : ExprParser α) {name : List Char} {v : Variable}
    (h : Variable.ofName? (String.ofList name) = some v) (rest : List (Token α)) :
    outcome (parseAtom operand (.word name :: rest)) = .ok (.var v, rest) := by
  simp only [parseAtom, h]
  rfl

theorem outcome_parseAtom_call (operand : ExprParser α) {name : List Char} {callee : Callee}
    (hv : Variable.ofName? (String.ofList name) = none)
    (hc : Callee.ofName? (String.ofList name) = some callee) (rest : List (Token α)) :
    outcome (parseAtom operand (.word name :: .openParen :: rest)) =
      outcomes (parseArguments operand rest) >>= fun arguments =>
        (expectClose arguments.2) >>= fun behind =>
          match callee.call? arguments.1 with
          | some e => .ok (e, behind.1)
          | none => .error (.wrongArity callee.name callee.arity arguments.1.length) := by
  have hatom : outcome (parseAtom operand (.word name :: .openParen :: rest)) =
      outcome (parseCall operand callee (.openParen :: rest)) := by
    simp only [parseAtom, hv, hc]
    exact outcome_weaken _ _
  rw [hatom]
  unfold parseCall
  change outcome (parseArguments operand rest >>= fun arguments => _) = _
  cases parseArguments operand rest with
  | error e => rfl
  | ok arguments =>
    change outcome (expectClose arguments.rest >>= fun behind => _) = expectClose arguments.rest >>= fun behind => _
    cases expectClose arguments.rest with
    | error e => rfl
    | ok behind =>
      change outcome (match callee.call? arguments.exprs with | some e => _ | none => _) =
        match callee.call? arguments.exprs with | some e => _ | none => _
      cases callee.call? arguments.exprs <;> rfl

theorem outcome_parseOperand_sub (levels : Nat) (rest : List (Token α)) :
    outcome (parseOperand (levels + 1) (.operator .sub :: rest)) =
      (outcome (parseOperand levels rest)).map fun operand => (.negate operand.1, operand.2) := by
  change outcome (parseOperand levels rest >>= fun operand => _) = _
  cases parseOperand levels rest <;> rfl

theorem outcome_parseOperand_add (levels : Nat) (rest : List (Token α)) :
    outcome (parseOperand (levels + 1) (.operator .add :: rest)) = outcome (parseOperand levels rest) :=
  outcome_weaken _ _

end OpenCaptions.Expr
