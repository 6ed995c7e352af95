import OpenCaptions.Proofs.Expr.Parsing

/-!
The grammar of formulas. What the readers have read derives from it, so every word in a formula is the name of
a variable or of a function.
-/
namespace OpenCaptions

variable {α : Type}

/-- The names of variables. -/
def Variable.spellings : List (String × Variable) :=
  [("w", .frameWidth), ("W", .frameWidth), ("main_w", .frameWidth), ("h", .frameHeight), ("H", .frameHeight),
    ("main_h", .frameHeight), ("text_w", .textWidth), ("tw", .textWidth), ("text_h", .textHeight),
    ("th", .textHeight), ("t", .time)]

theorem Variable.ofName?_eq_some_iff {name : String} {v : Variable} :
    ofName? name = some v ↔ (name, v) ∈ spellings := by
  constructor
  · intro h
    unfold ofName? at h
    simp only [List.mem_cons, List.not_mem_nil, or_false] at h
    split_ifs at h with hname hname hname hname hname
    all_goals cases h
    · rcases hname with rfl | rfl | rfl <;> decide
    · rcases hname with rfl | rfl | rfl <;> decide
    · rcases hname with rfl | rfl <;> decide
    · rcases hname with rfl | rfl <;> decide
    · subst hname
      decide
  · have h : ∀ spelling ∈ spellings, ofName? spelling.1 = some spelling.2 := by decide
    exact h (name, v)

theorem Operator.isProduct_iff {op : Operator} : op.isProduct = true ↔ op = .mul ∨ op = .div := by
  cases op <;> decide

theorem Operator.isProduct_eq_false_iff {op : Operator} : op.isProduct = false ↔ op = .add ∨ op = .sub := by
  cases op <;> decide

namespace Expr

/-- The names of functions. -/
def Callee.spellings : List (String × Callee) :=
  [("if", .ternary .choose), ("lt", .binary .less), ("gt", .binary .greater), ("between", .ternary .between),
    ("min", .binary .smaller), ("max", .binary .larger)]

theorem Callee.ofName?_eq_some_iff {name : String} {callee : Callee} :
    ofName? name = some callee ↔ (name, callee) ∈ spellings := by
  constructor
  · intro h
    have hname := List.find?_some h
    rw [decide_eq_true_eq] at hname
    subst hname
    cases callee with
    | binary function => cases function <;> decide
    | ternary function => cases function <;> decide
  · have h : ∀ spelling ∈ spellings, ofName? spelling.1 = some spelling.2 := by decide
    exact h (name, callee)

inductive Phrase where
  | sum | product | operand | atom

/-- Tokens that a phrase derives as a formula, with at most `levels` operands inside each other. -/
inductive Derives : Phrase → (levels : Nat) → List (Token α) → Expr α → Prop
  | number {levels : Nat} (value : α) : Derives .atom levels [.number value] (.number value)
  | var {levels : Nat} {name : List Char} {v : Variable}
    (hv : (String.ofList name, v) ∈ Variable.spellings) : Derives .atom levels [.word name] (.var v)
  | enclosed {levels : Nat} {tokens : List (Token α)} {e : Expr α} (h : Derives .sum levels tokens e) :
    Derives .atom levels (.openParen :: tokens ++ [.closeParen]) e
  | apply2 {levels : Nat} {name : List Char} {function : BinaryFunction} {first second : List (Token α)}
    {a b : Expr α} (hf : (String.ofList name, .binary function) ∈ Callee.spellings)
    (ha : Derives .sum levels first a) (hb : Derives .sum levels second b) :
    Derives .atom levels (.word name :: .openParen :: (first ++ .comma :: second) ++ [.closeParen])
      (.apply2 function a b)
  | apply3 {levels : Nat} {name : List Char} {function : TernaryFunction}
    {first second third : List (Token α)} {a b c : Expr α}
    (hf : (String.ofList name, .ternary function) ∈ Callee.spellings)
    (ha : Derives .sum levels first a) (hb : Derives .sum levels second b) (hc : Derives .sum levels third c) :
    Derives .atom levels
      (.word name :: .openParen :: (first ++ .comma :: (second ++ .comma :: third)) ++ [.closeParen])
      (.apply3 function a b c)
  | atom {levels : Nat} {tokens : List (Token α)} {e : Expr α} (h : Derives .atom levels tokens e) :
    Derives .operand (levels + 1) tokens e
  | minus {levels : Nat} {tokens : List (Token α)} {e : Expr α} (h : Derives .operand levels tokens e) :
    Derives .operand (levels + 1) (.operator .sub :: tokens) (.negate e)
  | plus {levels : Nat} {tokens : List (Token α)} {e : Expr α} (h : Derives .operand levels tokens e) :
    Derives .operand (levels + 1) (.operator .add :: tokens) e
  | operand {levels : Nat} {tokens : List (Token α)} {e : Expr α} (h : Derives .operand levels tokens e) :
    Derives .product levels tokens e
  | factor {levels : Nat} {op : Operator} {left right : List (Token α)} {a b : Expr α}
    (hop : op = .mul ∨ op = .div) (ha : Derives .product levels left a) (hb : Derives .operand levels right b) :
    Derives .product levels (left ++ .operator op :: right) (.binary op a b)
  | product {levels : Nat} {tokens : List (Token α)} {e : Expr α} (h : Derives .product levels tokens e) :
    Derives .sum levels tokens e
  | summand {levels : Nat} {op : Operator} {left right : List (Token α)} {a b : Expr α}
    (hop : op = .add ∨ op = .sub) (ha : Derives .sum levels left a) (hb : Derives .product levels right b) :
    Derives .sum levels (left ++ .operator op :: right) (.binary op a b)

def IsKnown (name : List Char) : Prop :=
  (Variable.ofName? (String.ofList name)).isSome ∨ (Callee.ofName? (String.ofList name)).isSome

/-- Derived tokens have no words but known names. -/
theorem Derives.known {phrase : Phrase} {levels : Nat} {tokens : List (Token α)} {e : Expr α}
    (h : Derives phrase levels tokens e) : ∀ name, .word name ∈ tokens → IsKnown name := by
  induction h with
  | number value => simp
  | var hv =>
    intro name hm
    rw [List.mem_singleton, Token.word.injEq] at hm
    subst hm
    exact .inl (Option.isSome_iff_exists.2 ⟨_, Variable.ofName?_eq_some_iff.2 hv⟩)
  | enclosed _ ih =>
    intro name hm
    exact ih name (by simpa using hm)
  | apply2 hf _ _ iha ihb =>
    intro name hm
    simp only [List.cons_append, List.mem_cons, List.mem_append, Token.word.injEq, reduceCtorEq, false_or,
      List.not_mem_nil, or_false] at hm
    rcases hm with rfl | hm | hm
    · exact .inr (Option.isSome_iff_exists.2 ⟨_, Callee.ofName?_eq_some_iff.2 hf⟩)
    · exact iha name hm
    · exact ihb name hm
  | apply3 hf _ _ _ iha ihb ihc =>
    intro name hm
    simp only [List.cons_append, List.mem_cons, List.mem_append, Token.word.injEq, reduceCtorEq, false_or,
      List.not_mem_nil, or_false] at hm
    rcases hm with rfl | hm | hm | hm
    · exact .inr (Option.isSome_iff_exists.2 ⟨_, Callee.ofName?_eq_some_iff.2 hf⟩)
    · exact iha name hm
    · exact ihb name hm
    · exact ihc name hm
  | minus _ ih | plus _ ih =>
    intro name hm
    exact ih name (by simpa using hm)
  | atom _ ih | operand _ ih | product _ ih => exact ih
  | factor _ _ _ iha ihb | summand _ _ _ iha ihb =>
    intro name hm
    simp only [List.mem_append, List.mem_cons, reduceCtorEq, false_or] at hm
    exact hm.elim (iha name) (ihb name)

/-- A reader of phrases reads what derives from them, off the front of the tokens. -/
def ReadsOnly (derives : List (Token α) → Expr α → Prop) (read : ExprParser α) : Prop :=
  ∀ tokens e rest, outcome (read tokens) = .ok (e, rest) → ∃ used, tokens = used ++ rest ∧ derives used e

inductive DerivesArguments (levels : Nat) : List (Token α) → List (Expr α) → Prop
  | last {tokens : List (Token α)} {e : Expr α} (h : Derives .sum levels tokens e) :
    DerivesArguments levels tokens [e]
  | cons {tokens others : List (Token α)} {e : Expr α} {es : List (Expr α)} (h : Derives .sum levels tokens e)
    (hs : DerivesArguments levels others es) : DerivesArguments levels (tokens ++ .comma :: others) (e :: es)

variable {level : Operator → Bool} {operand : ExprParser α} {levels : Nat}

private theorem stops_or_operator (level : Operator → Bool) (tokens : List (Token α)) :
    Stops level tokens ∨ ∃ op rest, tokens = .operator op :: rest ∧ level op = true := by
  rcases tokens with - | ⟨token, rest⟩
  · left
    rintro op rest ⟨⟩
  · cases token with
    | operator op =>
      cases hop : level op with
      | true => exact .inr ⟨op, rest, rfl, hop⟩
      | false =>
        left
        rintro op' rest' ⟨⟩
        exact hop
    | _ =>
      left
      rintro op rest' ⟨⟩

/-- A chain goes on deriving, if each further operand keeps what is derived. -/
theorem derives_parseChain {derivesOperand derives : List (Token α) → Expr α → Prop}
    (hoperand : ReadsOnly derivesOperand operand)
    (hstep : ∀ op left right a b, level op = true → derives left a → derivesOperand right b →
      derives (left ++ .operator op :: right) (.binary op a b))
    {tokens before rest : List (Token α)} {e e' : Expr α} (he : derives before e)
    (h : outcome (parseChain level operand e tokens) = .ok (e', rest)) :
    ∃ used, tokens = used ++ rest ∧ derives (before ++ used) e' := by
  induction hn : tokens.length using Nat.strong_induction_on generalizing tokens before e with
  | h n ih =>
    rcases stops_or_operator level tokens with hstop | ⟨op, behind, rfl, hop⟩
    · rw [outcome_parseChain_stop hstop, Except.ok.injEq, Prod.mk.injEq] at h
      obtain ⟨rfl, rfl⟩ := h
      exact ⟨[], rfl, by rwa [List.append_nil]⟩
    · rw [outcome_parseChain_operator hop, Failure.bind_eq_ok] at h
      obtain ⟨⟨right, tail⟩, hright, h⟩ := h
      obtain ⟨used, rfl, hused⟩ := hoperand _ _ _ hright
      have hshorter : tail.length < n := by
        rw [← hn, List.length_cons, List.length_append]
        omega
      obtain ⟨used', rfl, hused'⟩ := ih _ hshorter (hstep op _ _ _ _ hop he hused) h rfl
      refine ⟨.operator op :: used ++ used', by simp, ?_⟩
      simpa using hused'

theorem derives_parseLevel {derivesOperand derives : List (Token α) → Expr α → Prop}
    (hoperand : ReadsOnly derivesOperand operand) (hfirst : ∀ tokens e, derivesOperand tokens e → derives tokens e)
    (hstep : ∀ op left right a b, level op = true → derives left a → derivesOperand right b →
      derives (left ++ .operator op :: right) (.binary op a b)) :
    ReadsOnly derives (parseLevel level operand) := by
  intro tokens e rest h
  rw [outcome_parseLevel, Failure.bind_eq_ok] at h
  obtain ⟨⟨first, tail⟩, hf, h⟩ := h
  obtain ⟨used, rfl, hused⟩ := hoperand _ _ _ hf
  obtain ⟨used', rfl, hused'⟩ := derives_parseChain hoperand hstep (hfirst _ _ hused) h
  exact ⟨used ++ used', by simp, hused'⟩

theorem derives_parseSum (hoperand : ReadsOnly (Derives .operand levels) operand) :
    ReadsOnly (Derives .sum levels) (parseSum operand) := by
  have hproduct : ReadsOnly (Derives .product levels) (parseLevel Operator.isProduct operand) :=
    derives_parseLevel hoperand (fun _ _ => .operand) fun op _ _ _ _ hop => .factor (Operator.isProduct_iff.1 hop)
  exact derives_parseLevel hproduct (fun _ _ => .product) fun op _ _ _ _ hop =>
    .summand (Operator.isProduct_eq_false_iff.1 (by simpa using hop))

theorem derives_parseArguments (hoperand : ReadsOnly (Derives .sum levels) operand)
    {tokens rest : List (Token α)} {es : List (Expr α)}
    (h : outcomes (parseArguments operand tokens) = .ok (es, rest)) :
    ∃ used, tokens = used ++ rest ∧ DerivesArguments levels used es := by
  induction hn : tokens.length using Nat.strong_induction_on generalizing tokens es with
  | h n ih =>
    rw [outcomes_parseArguments, Failure.bind_eq_ok] at h
    obtain ⟨⟨first, tail⟩, hf, h⟩ := h
    obtain ⟨used, rfl, hused⟩ := hoperand _ _ _ hf
    dsimp only at h
    split at h
    · rename_i behind
      cases ho : outcomes (parseArguments operand behind) with
      | error e =>
        rw [ho] at h
        cases h
      | ok others =>
        obtain ⟨others, left⟩ := others
        rw [ho] at h
        cases h
        have hshorter : behind.length < n := by
          rw [← hn, List.length_append, List.length_cons]
          omega
        obtain ⟨used', rfl, hused'⟩ := ih _ hshorter ho rfl
        exact ⟨used ++ .comma :: used', by simp, .cons hused hused'⟩
    · cases h
      exact ⟨used, rfl, .last hused⟩

theorem expectClose_eq_ok {tokens : List (Token α)} {behind : { rest : List (Token α) // rest.length < tokens.length }}
    (h : expectClose tokens = .ok behind) : tokens = .closeParen :: behind.1 := by
  unfold expectClose at h
  split at h
  · cases h
  · cases h
    rfl
  · cases h

private theorem exists_openParen {name : List Char} {callee : Callee} {behind : List (Token α)}
    {result : Expr α × List (Token α)}
    (hv : Variable.ofName? (String.ofList name) = none)
    (hc : Callee.ofName? (String.ofList name) = some callee)
    (h : outcome (parseAtom operand (.word name :: behind)) = .ok result) :
    ∃ inside, behind = .openParen :: inside := by
  simp only [parseAtom, hv, hc] at h
  rcases behind with - | ⟨token, inside⟩
  · cases h
  · cases token with
    | openParen => exact ⟨inside, rfl⟩
    | _ => cases h

private theorem derives_call {name : List Char} {callee : Callee} {used : List (Token α)}
    {es : List (Expr α)} {e : Expr α}
    (hc : (String.ofList name, callee) ∈ Callee.spellings) (hes : DerivesArguments levels used es)
    (he : callee.call? es = some e) :
    Derives .atom levels (.word name :: .openParen :: used ++ [.closeParen]) e := by
  unfold Callee.call? at he
  split at he
  · cases he
    cases hes with
    | cons ha hes =>
      cases hes with
      | last hb => exact .apply2 hc ha hb
      | cons _ hes => cases hes
  · cases he
    cases hes with
    | cons ha hes =>
      cases hes with
      | cons hb hes =>
        cases hes with
        | last hc' => exact .apply3 hc ha hb hc'
        | cons _ hes => cases hes
  · cases he

theorem derives_parseAtom (hoperand : ReadsOnly (Derives .sum levels) operand) :
    ReadsOnly (Derives .atom levels) (parseAtom operand) := by
  intro tokens e rest h
  rcases tokens with - | ⟨token, behind⟩
  · cases h
  cases token with
  | number value =>
    cases h
    exact ⟨[.number value], rfl, .number value⟩
  | word name =>
    cases hv : Variable.ofName? (String.ofList name) with
    | some v =>
      rw [outcome_parseAtom_variable operand hv, Except.ok.injEq, Prod.mk.injEq] at h
      obtain ⟨rfl, rfl⟩ := h
      exact ⟨[.word name], rfl, .var (Variable.ofName?_eq_some_iff.1 hv)⟩
    | none =>
      cases hc : Callee.ofName? (String.ofList name) with
      | none =>
        simp only [parseAtom, hv, hc] at h
        cases h
      | some callee =>
        obtain ⟨inside, rfl⟩ := exists_openParen hv hc h
        rw [outcome_parseAtom_call operand hv hc, Failure.bind_eq_ok] at h
        obtain ⟨⟨es, tail⟩, harguments, h⟩ := h
        obtain ⟨used, rfl, hused⟩ := derives_parseArguments hoperand harguments
        rw [Failure.bind_eq_ok] at h
        obtain ⟨left, hclose, h⟩ := h
        dsimp only at h
        split at h
        · rename_i he
          cases h
          have htail : tail = .closeParen :: left.1 := expectClose_eq_ok hclose
          exact ⟨.word name :: .openParen :: used ++ [.closeParen], by simpa using htail,
            derives_call (Callee.ofName?_eq_some_iff.1 hc) hused he⟩
        · cases h
  | openParen =>
    rw [outcome_parseAtom_openParen, Failure.bind_eq_ok] at h
    obtain ⟨⟨inner, tail⟩, hinner, h⟩ := h
    obtain ⟨used, rfl, hused⟩ := hoperand _ _ _ hinner
    cases hclose : expectClose tail with
    | error e =>
      rw [hclose] at h
      cases h
    | ok left =>
      rw [hclose] at h
      cases h
      exact ⟨.openParen :: used ++ [.closeParen], by simp [expectClose_eq_ok hclose], .enclosed hused⟩
  | operator op => cases h
  | closeParen => cases h
  | comma => cases h

theorem derives_parseOperand (levels : Nat) :
    ReadsOnly (Derives .operand levels) (parseOperand levels : ExprParser α) := by
  induction levels with
  | zero =>
    rintro tokens e rest ⟨⟩
  | succ levels ih =>
    have hatom := derives_parseAtom (derives_parseSum ih)
    intro tokens e rest h
    rcases tokens with - | ⟨token, behind⟩
    · cases h
    have hplain (h : outcome (parseAtom (parseSum (parseOperand levels)) (token :: behind)) = .ok (e, rest)) :
        ∃ used, token :: behind = used ++ rest ∧ Derives .operand (levels + 1) used e := by
      obtain ⟨used, htokens, hused⟩ := hatom _ _ _ h
      exact ⟨used, htokens, .atom hused⟩
    cases token with
    | operator op =>
      cases op with
      | sub =>
        rw [outcome_parseOperand_sub] at h
        cases ho : outcome (parseOperand levels behind) with
        | error e =>
          rw [ho] at h
          cases h
        | ok operand =>
          rw [ho] at h
          cases h
          obtain ⟨used, rfl, hused⟩ := ih _ _ _ ho
          exact ⟨.operator .sub :: used, rfl, .minus hused⟩
      | add =>
        rw [outcome_parseOperand_add] at h
        obtain ⟨used, rfl, hused⟩ := ih _ _ _ h
        exact ⟨.operator .add :: used, rfl, .plus hused⟩
      | mul => exact hplain h
      | div => exact hplain h
    | _ => exact hplain h

/-- What is read from a whole token list derives from it. -/
theorem derives_ofTokens {tokens : List (Token α)} {e : Expr α} (h : ofTokens tokens = .ok e) :
    Derives .sum deepestFormula tokens e := by
  unfold ofTokens at h
  cases hp : parseSum (parseOperand deepestFormula) tokens with
  | error err =>
    rw [hp] at h
    cases h
  | ok whole =>
    obtain ⟨used, htokens, hused⟩ := derives_parseSum (derives_parseOperand deepestFormula) tokens whole.expr whole.rest
      (by rw [hp]; rfl)
    rw [hp] at h
    dsimp only at h
    split at h
    · rename_i hrest
      obtain rfl := Except.ok.inj h
      have hall : tokens = used := by rw [htokens, hrest, List.append_nil]
      exact hall.symm ▸ hused
    · cases h

end Expr
end OpenCaptions
