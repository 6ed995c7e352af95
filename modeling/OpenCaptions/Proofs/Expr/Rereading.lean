import OpenCaptions.Proofs.Expr.Parsing
import OpenCaptions.Proofs.Expr.Scanning

/-!
Reading a printed formula. The tree that comes back is the one that was printed, but for literals with a
minus, which come back as negations; only formulas that are too long or too deep are not read.
-/
namespace OpenCaptions.Expr

variable {α : Type}

def enclosedLevels (needed : Bool) (levels : Nat) : Nat := if needed then levels + 1 else levels

def within {β : Type} (needed levels : Nat) (r : Except SyntaxError β) : Except SyntaxError β :=
  if needed ≤ levels then r else .error .tooDeep

section Within

variable {β γ : Type} {needed needed' levels : Nat}

theorem within_bind (r : Except SyntaxError β) (f : β → Except SyntaxError γ) :
    within needed levels r >>= f = within needed levels (r >>= f) := by
  unfold within
  split <;> rfl

theorem within_map (r : Except SyntaxError β) (f : β → γ) :
    (within needed levels r).map f = within needed levels (r.map f) := by
  unfold within
  split <;> rfl

theorem within_within (r : Except SyntaxError β) :
    within needed levels (within needed' levels r) = within (max needed needed') levels r := by
  unfold within
  by_cases h : needed ≤ levels <;> by_cases h' : needed' ≤ levels <;> simp only [h, h', Nat.max_le] <;> rfl

theorem within_succ (r : Except SyntaxError β) :
    within (needed + 1) (levels + 1) r = within needed levels r := by
  simp [within]

theorem within_zero (r : Except SyntaxError β) : within (needed + 1) 0 r = .error .tooDeep := by
  simp [within]

end Within

variable {tokens rest : List (Token α)} {e : Expr α} {depth : Nat}

/-- Tokens that are read as an operand, whatever follows. -/
def ReadsOperand (tokens : List (Token α)) (e : Expr α) (depth : Nat) : Prop :=
  ∀ n rest, outcome (parseOperand n (tokens ++ rest)) = within depth n (.ok (e, rest))

def ReadsProduct (tokens : List (Token α)) (e : Expr α) (depth : Nat) : Prop :=
  ∀ n rest, outcome (parseLevel Operator.isProduct (parseOperand n) (tokens ++ rest)) =
    within depth n (outcome (parseChain Operator.isProduct (parseOperand n) e rest))

def ReadsSum (tokens : List (Token α)) (e : Expr α) (depth : Nat) : Prop :=
  ∀ n rest, Stops Operator.isProduct rest →
    outcome (parseSum (parseOperand n) (tokens ++ rest)) = within depth n
      (outcome (parseChain (!·.isProduct) (parseLevel Operator.isProduct (parseOperand n)) e rest))

theorem ReadsOperand.product (h : ReadsOperand tokens e depth) : ReadsProduct tokens e depth := by
  intro n rest
  rw [outcome_parseLevel, h, within_bind]
  rfl

theorem ReadsProduct.sum (h : ReadsProduct tokens e depth) : ReadsSum tokens e depth := by
  intro n rest hrest
  rw [parseSum, outcome_parseLevel, h, outcome_parseChain_stop hrest, within_bind]
  rfl

theorem ReadsSum.read (h : ReadsSum tokens e depth) (hrest : ∀ level, Stops level rest) (n : Nat) :
    outcome (parseSum (parseOperand n) (tokens ++ rest)) = within depth n (.ok (e, rest)) := by
  rw [h n rest (hrest _), outcome_parseChain_stop (hrest _)]

theorem stops_nil (level : Operator → Bool) : Stops level ([] : List (Token α)) := by
  rintro op rest ⟨⟩

theorem stops_closeParen (level : Operator → Bool) : Stops level (.closeParen :: rest) := by
  rintro op rest ⟨⟩

theorem stops_comma (level : Operator → Bool) : Stops level (.comma :: rest) := by
  rintro op rest ⟨⟩

theorem readsOperand_number (value : α) : ReadsOperand [.number value] (.number value) 1 := by
  intro n rest
  cases n with
  | zero => rfl
  | succ n =>
    rw [within_succ]
    rfl

theorem readsOperand_variable {name : List Char} {v : Variable}
    (hv : Variable.ofName? (String.ofList name) = some v) :
    ReadsOperand ([.word name] : List (Token α)) (.var v) 1 := by
  intro n rest
  cases n with
  | zero => rfl
  | succ n =>
    change outcome (parseAtom _ (.word name :: rest)) = _
    rw [outcome_parseAtom_variable _ hv, within_succ]
    rfl

theorem ReadsOperand.negate (h : ReadsOperand tokens e depth) :
    ReadsOperand (.operator .sub :: tokens) (.negate e) (depth + 1) := by
  intro n rest
  cases n with
  | zero => rw [within_zero]; rfl
  | succ n =>
    change outcome (parseOperand (n + 1) (.operator .sub :: (tokens ++ rest))) = _
    rw [outcome_parseOperand_sub, h, within_map, within_succ]
    rfl

theorem ReadsOperand.plus (h : ReadsOperand tokens e depth) :
    ReadsOperand (.operator .add :: tokens) e (depth + 1) := by
  intro n rest
  cases n with
  | zero => rw [within_zero]; rfl
  | succ n =>
    change outcome (parseOperand (n + 1) (.operator .add :: (tokens ++ rest))) = _
    rw [outcome_parseOperand_add, h, within_succ]

theorem ReadsSum.enclosed (h : ReadsSum tokens e depth) :
    ReadsOperand (.openParen :: tokens ++ [.closeParen]) e (depth + 1) := by
  intro n rest
  have hshape : .openParen :: tokens ++ [.closeParen] ++ rest =
      .openParen :: (tokens ++ .closeParen :: rest) := by simp
  rw [hshape]
  cases n with
  | zero => rw [within_zero]; rfl
  | succ n =>
    change outcome (parseAtom (parseSum (parseOperand n)) (.openParen :: _)) = _
    rw [outcome_parseAtom_openParen, h.read stops_closeParen, within_bind, within_succ]
    rfl

theorem ReadsSum.enclose (h : ReadsSum tokens e depth) {needed : Bool}
    (hfree : needed = false → ReadsOperand tokens e depth) :
    ReadsOperand (Expr.enclose needed tokens) e (enclosedLevels needed depth) := by
  cases needed with
  | false => exact hfree rfl
  | true => exact h.enclosed

theorem ReadsSum.enclose_product (h : ReadsSum tokens e depth) {needed : Bool}
    (hfree : needed = false → ReadsProduct tokens e depth) :
    ReadsProduct (Expr.enclose needed tokens) e (enclosedLevels needed depth) := by
  cases needed with
  | false => exact hfree rfl
  | true => exact h.enclosed.product

theorem ReadsSum.enclose_sum (h : ReadsSum tokens e depth) (needed : Bool) :
    ReadsSum (Expr.enclose needed tokens) e (enclosedLevels needed depth) := by
  cases needed with
  | false => exact h
  | true => exact h.enclosed.product.sum

theorem ReadsProduct.append {tokens' : List (Token α)} {e' : Expr α} {depth' : Nat} {op : Operator}
    (hop : op.isProduct = true) (h : ReadsProduct tokens e depth) (h' : ReadsOperand tokens' e' depth') :
    ReadsProduct (tokens ++ .operator op :: tokens') (.binary op e e') (max depth depth') := by
  intro n rest
  rw [List.append_assoc, List.cons_append, h, outcome_parseChain_operator hop, h', within_bind,
    within_within]
  rfl

theorem ReadsSum.append {tokens' : List (Token α)} {e' : Expr α} {depth' : Nat} {op : Operator}
    (hop : op.isProduct = false) (h : ReadsSum tokens e depth) (h' : ReadsProduct tokens' e' depth') :
    ReadsSum (tokens ++ .operator op :: tokens') (.binary op e e') (max depth depth') := by
  intro n rest hrest
  have hstop : Stops Operator.isProduct (.operator op :: (tokens' ++ rest)) := by
    rintro op' rest' ⟨⟩
    exact hop
  have hlevel : (!op.isProduct) = true := by rw [hop]; rfl
  rw [List.append_assoc, List.cons_append, h n _ hstop, outcome_parseChain_operator hlevel, h',
    outcome_parseChain_stop hrest, within_bind, within_within]
  rfl

theorem ReadsSum.lastArgument (h : ReadsSum tokens e depth) (n : Nat) :
    outcomes (parseArguments (parseSum (parseOperand n)) (tokens ++ .closeParen :: rest)) =
      within depth n (.ok ([e], .closeParen :: rest)) := by
  rw [outcomes_parseArguments, h.read stops_closeParen, within_bind]
  rfl

theorem ReadsSum.argument (h : ReadsSum tokens e depth) (n : Nat) :
    outcomes (parseArguments (parseSum (parseOperand n)) (tokens ++ .comma :: rest)) =
      within depth n ((outcomes (parseArguments (parseSum (parseOperand n)) rest)).map fun others =>
        (e :: others.1, others.2)) := by
  rw [outcomes_parseArguments, h.read stops_comma, within_bind]
  rfl

theorem ReadsSum.ofTokens (h : ReadsSum tokens e depth) :
    Expr.ofTokens tokens = within depth deepestFormula (.ok e) := by
  have hread := h.read stops_nil deepestFormula
  rw [List.append_nil] at hread
  unfold Expr.ofTokens
  unfold within at hread ⊢
  cases hp : parseSum (parseOperand deepestFormula) tokens with
  | error err =>
    rw [hp] at hread
    split at hread
    · cases hread
    · rename_i hle
      rw [if_neg hle]
      cases hread
      rfl
  | ok whole =>
    rw [hp] at hread
    obtain ⟨expr, rest, fewer⟩ := whole
    split at hread
    · rename_i hle
      rw [if_pos hle]
      cases hread
      rfl
    · cases hread

theorem readsOperand_call {name : List Char} {callee : Callee} {arguments : List (Token α)}
    (exprs : List (Expr α)) (hv : Variable.ofName? (String.ofList name) = none)
    (hc : Callee.ofName? (String.ofList name) = some callee) (he : callee.call? exprs = some e)
    (h : ∀ n rest, outcomes (parseArguments (parseSum (parseOperand n)) (arguments ++ .closeParen :: rest)) =
      within depth n (.ok (exprs, .closeParen :: rest))) :
    ReadsOperand (.word name :: .openParen :: arguments ++ [.closeParen]) e (depth + 1) := by
  intro n rest
  have hshape : .word name :: .openParen :: arguments ++ [.closeParen] ++ rest =
      .word name :: .openParen :: (arguments ++ .closeParen :: rest) := by simp
  rw [hshape]
  cases n with
  | zero => rw [within_zero]; rfl
  | succ n =>
    change outcome (parseAtom (parseSum (parseOperand n)) (.word name :: .openParen :: _)) = _
    rw [outcome_parseAtom_call _ hv hc, h, within_bind, within_succ]
    simp only [bind, Except.bind, he]
    rfl

section Tree

variable [Scalar α] [Written α]

/-- The tree that a printed formula is read as. -/
def reread : Expr α → Expr α
  | .number value =>
    if Literal.isSigned value then .negate (.number (Literal.magnitude value))
    else .number (Literal.magnitude value)
  | .var name => .var name
  | .negate operand => .negate operand.reread
  | .binary operator left right => .binary operator left.reread right.reread
  | .apply2 function a b => .apply2 function a.reread b.reread
  | .apply3 function a b c => .apply3 function a.reread b.reread c.reread

def levels : Expr α → Nat
  | .number value => if Literal.isSigned value then 2 else 1
  | .var _ => 1
  | .negate operand => enclosedLevels (operand.precedence < 4) operand.levels + 1
  | .binary operator left right =>
    let p := operator.precedence
    max (enclosedLevels (left.precedence < p) left.levels)
      (enclosedLevels (right.precedence ≤ p || right.isNegative) right.levels)
  | .apply2 _ a b => max a.levels b.levels + 1
  | .apply3 _ a b c => max a.levels (max b.levels c.levels) + 1

/-- What the tokens of a formula are read as, at each place that its precedence allows. -/
structure Reads (e : Expr α) : Prop where
  operand : 3 ≤ e.precedence → ReadsOperand e.tokens e.reread e.levels
  product : 2 ≤ e.precedence → ReadsProduct e.tokens e.reread e.levels
  sum : ReadsSum e.tokens e.reread e.levels

theorem Reads.of_operand {e : Expr α} (h : ReadsOperand e.tokens e.reread e.levels) : Reads e :=
  ⟨fun _ => h, fun _ => h.product, h.product.sum⟩

theorem Reads.of_product {e : Expr α} (hp : e.precedence < 3) (h : ReadsProduct e.tokens e.reread e.levels) :
    Reads e := ⟨fun h' => absurd hp (Nat.not_lt.2 h'), fun _ => h, h.sum⟩

theorem reads_number (value : α) : Reads (.number value) := by
  refine .of_operand ?_
  change ReadsOperand (Literal.tokens value) _ _
  unfold Literal.tokens reread levels
  cases Literal.isSigned value with
  | true => exact (readsOperand_number _).negate
  | false => exact readsOperand_number _

theorem reads_variable (name : Variable) : Reads (.var name : Expr α) := by
  have hname : Variable.ofName? (String.ofList name.name.toList) = some name := by cases name <;> rfl
  exact .of_operand (readsOperand_variable hname)

theorem Reads.negate {operand : Expr α} (h : Reads operand) : Reads (.negate operand) := by
  have hinner : ReadsOperand (Expr.enclose (operand.precedence < 4) operand.tokens) operand.reread
      (enclosedLevels (operand.precedence < 4) operand.levels) := by
    refine h.sum.enclose fun hp => h.operand ?_
    have := of_decide_eq_false hp
    omega
  exact .of_operand hinner.negate

theorem Reads.binary (operator : Operator) {left right : Expr α} (hl : Reads left) (hr : Reads right) :
    Reads (.binary operator left right) := by
  cases hop : operator.isProduct with
  | true =>
    have hp : operator.precedence = 2 := by rw [Operator.precedence, hop]; rfl
    have hleft : ReadsProduct (Expr.enclose (left.precedence < operator.precedence) left.tokens)
        left.reread (enclosedLevels (left.precedence < operator.precedence) left.levels) := by
      refine hl.sum.enclose_product fun h => hl.product ?_
      have := of_decide_eq_false h
      omega
    have hright : ReadsOperand
        (Expr.enclose (right.precedence ≤ operator.precedence || right.isNegative) right.tokens) right.reread
        (enclosedLevels (right.precedence ≤ operator.precedence || right.isNegative) right.levels) := by
      refine hr.sum.enclose fun h => hr.operand ?_
      have := of_decide_eq_false (Bool.or_eq_false_iff.1 h).1
      omega
    refine .of_product ?_ (hleft.append hop hright)
    change operator.precedence < 3
    omega
  | false =>
    have hp : operator.precedence = 1 := by rw [Operator.precedence, hop]; rfl
    have hright : ReadsProduct
        (Expr.enclose (right.precedence ≤ operator.precedence || right.isNegative) right.tokens) right.reread
        (enclosedLevels (right.precedence ≤ operator.precedence || right.isNegative) right.levels) := by
      refine hr.sum.enclose_product fun h => hr.product ?_
      have := of_decide_eq_false (Bool.or_eq_false_iff.1 h).1
      omega
    have hlow (k : Nat) (hk : 2 ≤ k) : ¬ k ≤ (Expr.binary operator left right).precedence := by
      change ¬ k ≤ operator.precedence
      omega
    exact ⟨fun h => absurd h (hlow 3 (by decide)), fun h => absurd h (hlow 2 (by decide)),
      (hl.sum.enclose_sum _).append hop hright⟩

theorem Reads.apply2 (function : BinaryFunction) {a b : Expr α} (ha : Reads a) (hb : Reads b) :
    Reads (.apply2 function a b) := by
  have hv : Variable.ofName? (String.ofList function.name.toList) = none := by cases function <;> rfl
  have hc : Callee.ofName? (String.ofList function.name.toList) = some (.binary function) := by
    cases function <;> rfl
  have hcall : ReadsOperand (.word function.name.toList :: .openParen :: (a.tokens ++ .comma :: b.tokens) ++
      [.closeParen]) (.apply2 function a.reread b.reread) (max a.levels b.levels + 1) := by
    refine readsOperand_call [a.reread, b.reread] hv hc rfl fun n rest => ?_
    rw [List.append_assoc, List.cons_append, ha.sum.argument, hb.sum.lastArgument, within_map,
      within_within]
    rfl
  exact .of_operand hcall

theorem Reads.apply3 (function : TernaryFunction) {a b c : Expr α} (ha : Reads a) (hb : Reads b)
    (hc : Reads c) : Reads (.apply3 function a b c) := by
  have hv : Variable.ofName? (String.ofList function.name.toList) = none := by cases function <;> rfl
  have hcallee : Callee.ofName? (String.ofList function.name.toList) = some (.ternary function) := by
    cases function <;> rfl
  have hcall : ReadsOperand (.word function.name.toList :: .openParen ::
      (a.tokens ++ .comma :: (b.tokens ++ .comma :: c.tokens)) ++ [.closeParen])
      (.apply3 function a.reread b.reread c.reread) (max a.levels (max b.levels c.levels) + 1) := by
    refine readsOperand_call [a.reread, b.reread, c.reread] hv hcallee rfl fun n rest => ?_
    rw [List.append_assoc, List.cons_append, ha.sum.argument, List.append_assoc, List.cons_append,
      hb.sum.argument, hc.sum.lastArgument, within_map, within_within, within_map, within_map,
      within_within, Nat.max_assoc]
    rfl
  refine .of_operand ?_
  have hshape : (Expr.apply3 function a b c).tokens = .word function.name.toList :: .openParen ::
      (a.tokens ++ .comma :: (b.tokens ++ .comma :: c.tokens)) ++ [.closeParen] := by
    simp [Expr.tokens]
  rw [hshape]
  exact hcall

/-- Each part of a printed formula is read as it should be. -/
theorem reads (e : Expr α) : Reads e := by
  induction e with
  | number value => exact reads_number value
  | var name => exact reads_variable name
  | negate operand ih => exact ih.negate
  | binary operator left right ihl ihr => exact ihl.binary operator ihr
  | apply2 function a b iha ihb => exact iha.apply2 function ihb
  | apply3 function a b c iha ihb ihc => exact iha.apply3 function ihb ihc

theorem ofTokens_tokens (e : Expr α) :
    ofTokens e.tokens = within e.levels deepestFormula (.ok e.reread) := e.reads.sum.ofTokens

private theorem tokens_ne_nil (e : Expr α) : e.tokens ≠ [] := by
  cases e with
  | number value =>
    change Literal.tokens value ≠ []
    unfold Literal.tokens
    split <;> simp
  | _ => simp [Expr.tokens]

/-- Reading a printed formula gives back its tree, unless it is too long or too deep. -/
theorem parse_chars {e : Expr α} (h : e.Forall Literal.IsLegible) :
    parse e.chars = if longestFormula < Text.Utf8.size e.chars then .error .tooLong
      else within e.levels deepestFormula (.ok e.reread) := by
  have hscan : Token.scan 0 e.chars = .ok e.tokens := by
    have := scans_chars h 0 [] (by rintro c ⟨⟩)
    rw [List.append_nil] at this
    rw [this, Token.scan]
    change Except.ok (e.tokens ++ []) = _
    rw [List.append_nil]
  have hne : e.tokens.isEmpty = false := by
    rw [List.isEmpty_eq_false_iff]
    exact e.tokens_ne_nil
  unfold parse
  split
  · rfl
  · rw [hscan, ← ofTokens_tokens]
    change (if e.tokens.isEmpty = true then _ else _) = _
    rw [hne]
    rfl

end Tree

end OpenCaptions.Expr
