import OpenCaptions.Proofs.Expr.Grammar
import OpenCaptions.Proofs.Expr.Rereading
import OpenCaptions.Proofs.Expr.Spelling

/-!
The language of formulas. What the grammar derives from the tokens of a text is what is read from it, and nothing
else is read.
-/
namespace OpenCaptions.Expr

open Text

variable {α : Type} {levels depth : Nat} {tokens : List (Token α)} {e : Expr α}

def Phrase.Reads : Phrase → List (Token α) → Expr α → Nat → Prop
  | .sum, tokens, e, depth => ReadsSum tokens e depth
  | .product, tokens, e, depth => ReadsProduct tokens e depth
  | .operand, tokens, e, depth => ReadsOperand tokens e depth
  | .atom, tokens, e, depth => ReadsOperand tokens e (depth + 1)

private theorem variable_of_callee {name : String} {callee : Callee} (h : Callee.ofName? name = some callee) :
    Variable.ofName? name = none := by
  have hname := List.find?_some h
  rw [decide_eq_true_eq] at hname
  rw [← hname]
  cases callee with
  | binary function => cases function <;> rfl
  | ternary function => cases function <;> rfl

/-- What derives is read, on the levels that it takes. -/
theorem Derives.reads {phrase : Phrase} (h : Derives phrase levels tokens e) :
    ∃ depth ≤ levels, phrase.Reads tokens e depth := by
  induction h with
  | number value => exact ⟨0, Nat.zero_le _, readsOperand_number value⟩
  | var hv => exact ⟨0, Nat.zero_le _, readsOperand_variable (Variable.ofName?_eq_some_iff.2 hv)⟩
  | enclosed _ ih =>
    obtain ⟨depth, hle, h⟩ := ih
    exact ⟨depth, hle, ReadsSum.enclosed h⟩
  | @apply2 _ name function _ _ a b hf _ _ iha ihb =>
    obtain ⟨da, hla, ha⟩ := iha
    obtain ⟨db, hlb, hb⟩ := ihb
    have hcallee := Callee.ofName?_eq_some_iff.2 hf
    refine ⟨max da db, Nat.max_le.2 ⟨hla, hlb⟩, ?_⟩
    refine readsOperand_call [a, b] (variable_of_callee hcallee) hcallee rfl fun n rest => ?_
    rw [List.append_assoc, List.cons_append, ReadsSum.argument ha, ReadsSum.lastArgument hb, within_map, within_within]
    rfl
  | @apply3 _ name function _ _ _ a b c hf _ _ _ iha ihb ihc =>
    obtain ⟨da, hla, ha⟩ := iha
    obtain ⟨db, hlb, hb⟩ := ihb
    obtain ⟨dc, hlc, hc⟩ := ihc
    have hcallee := Callee.ofName?_eq_some_iff.2 hf
    refine ⟨max da (max db dc), Nat.max_le.2 ⟨hla, Nat.max_le.2 ⟨hlb, hlc⟩⟩, ?_⟩
    refine readsOperand_call [a, b, c] (variable_of_callee hcallee) hcallee rfl fun n rest => ?_
    rw [List.append_assoc, List.cons_append, ReadsSum.argument ha, List.append_assoc, List.cons_append,
      ReadsSum.argument hb, ReadsSum.lastArgument hc, within_map, within_within, within_map, within_map,
      within_within, Nat.max_assoc]
    rfl
  | atom _ ih =>
    obtain ⟨depth, hle, h⟩ := ih
    exact ⟨depth + 1, Nat.succ_le_succ hle, h⟩
  | minus _ ih =>
    obtain ⟨depth, hle, h⟩ := ih
    exact ⟨depth + 1, Nat.succ_le_succ hle, ReadsOperand.negate h⟩
  | plus _ ih =>
    obtain ⟨depth, hle, h⟩ := ih
    exact ⟨depth + 1, Nat.succ_le_succ hle, ReadsOperand.plus h⟩
  | operand _ ih =>
    obtain ⟨depth, hle, h⟩ := ih
    exact ⟨depth, hle, ReadsOperand.product h⟩
  | factor hop _ _ iha ihb =>
    obtain ⟨da, hla, ha⟩ := iha
    obtain ⟨db, hlb, hb⟩ := ihb
    exact ⟨max da db, Nat.max_le.2 ⟨hla, hlb⟩, ReadsProduct.append (Operator.isProduct_iff.2 hop) ha hb⟩
  | product _ ih =>
    obtain ⟨depth, hle, h⟩ := ih
    exact ⟨depth, hle, ReadsProduct.sum h⟩
  | summand hop _ _ iha ihb =>
    obtain ⟨da, hla, ha⟩ := iha
    obtain ⟨db, hlb, hb⟩ := ihb
    exact ⟨max da db, Nat.max_le.2 ⟨hla, hlb⟩, ReadsSum.append (Operator.isProduct_eq_false_iff.2 hop) ha hb⟩

/-- A whole token list is read as exactly what derives from it. -/
theorem ofTokens_eq_ok_iff : ofTokens tokens = .ok e ↔ Derives .sum deepestFormula tokens e := by
  constructor
  · exact derives_ofTokens
  · intro h
    obtain ⟨depth, hle, hreads⟩ := h.reads
    rw [ReadsSum.ofTokens hreads, within, if_pos hle]

theorem Derives.ne_nil (h : Derives .sum deepestFormula tokens e) : tokens ≠ [] := by
  rintro rfl
  have hread := ofTokens_eq_ok_iff.2 h
  cases hread

private theorem utf8ByteSize_eq (source : List Char) : (String.ofList source).utf8ByteSize = Utf8.size source := by
  rw [String.utf8ByteSize_ofList]
  induction source with
  | nil => rfl
  | cons c rest ih => rw [String.utf8Len, Utf8.size_cons, ih, Nat.add_comm]

/-- A text is read as a formula exactly if it is not too long and spells tokens that derive the formula. -/
theorem parse_eq_ok_iff {source : List Char} {e : Expr Float} :
    parse source = .ok e ↔ (String.ofList source).utf8ByteSize ≤ 4096 ∧
      ∃ tokens, Token.Spells source tokens ∧ Derives .sum 64 tokens e := by
  have hlong : ¬ longestFormula < Utf8.size source ↔ (String.ofList source).utf8ByteSize ≤ 4096 := by
    rw [Nat.not_lt, utf8ByteSize_eq, longestFormula]
  unfold parse
  rw [Failure.guard_eq_ok, hlong, Failure.bind_eq_ok]
  refine and_congr_right fun _ => exists_congr fun tokens => ?_
  rw [Token.scan_eq_ok_iff, Failure.guard_eq_ok, List.isEmpty_iff, ofTokens_eq_ok_iff]
  exact and_congr_right fun _ => and_iff_right_of_imp Derives.ne_nil

/-- A text with signs, parentheses, a blank, operators of both levels and a call. -/
theorem parse_eq_ok_iff_mixed :
    parse "-(w-2)/+max(3, .5)".toList =
      .ok (div (.negate (sub (.var .frameWidth) (.number (Scalar.ofDecimal 2 0))))
        (larger (.number (Scalar.ofDecimal 3 0)) (.number (Scalar.ofDecimal 5 1))) : Expr Float) := by
  have hnumber (value : Float) (levels : Nat) : Derives .product (levels + 1) [.number value] (.number value) :=
    .operand (.atom (.number value))
  have hdividend : Derives .product 64
      [.operator .sub, .openParen, .word ['w'], .operator .sub, .number (Scalar.ofDecimal 2 0), .closeParen]
      (.negate (sub (.var .frameWidth) (.number (Scalar.ofDecimal 2 0)))) :=
    .operand (.minus (.atom (.enclosed
      (.summand (.inr rfl) (.product (.operand (.atom (.var (by decide))))) (hnumber _ 61)))))
  have hdivisor : Derives .operand 64
      [.operator .add, .word ['m', 'a', 'x'], .openParen, .number (Scalar.ofDecimal 3 0), .comma,
        .number (Scalar.ofDecimal 5 1), .closeParen]
      (larger (.number (Scalar.ofDecimal 3 0)) (.number (Scalar.ofDecimal 5 1))) :=
    .plus (.atom (.apply2 (by decide) (.product (hnumber _ 61)) (.product (hnumber _ 61))))
  have htwo : Token.Denotes ['2'] (Scalar.ofDecimal 2 0) := by
    simpa [Nat.ofDigitChars_cons] using @Token.Denotes.whole ['2'] (by simp) (by simp)
  have hthree : Token.Denotes ['3'] (Scalar.ofDecimal 3 0) := by
    simpa [Nat.ofDigitChars_cons] using @Token.Denotes.whole ['3'] (by simp) (by simp)
  have hhalf : Token.Denotes ['.', '5'] (Scalar.ofDecimal 5 1) := by
    simpa [Nat.ofDigitChars_cons] using @Token.Denotes.point [] ['5'] (by simp) (by simp) (by simp)
  refine parse_eq_ok_iff.2 ⟨by decide, _, ?_, .product (.factor (.inr rfl) hdividend hdivisor)⟩
  -- The words and numbers come with all that stands behind them, since each is as long as it can be.
  exact .mark (by decide) <| .mark (by decide) <|
    @Token.Spells.word 'w' [] "-2)/+max(3, .5)".toList _ (by decide) (by simp) (by simp [Token.IsLetter]) <|
    .mark (by decide) <|
    @Token.Spells.number ['2'] ")/+max(3, .5)".toList _ _ htwo (by simp [Token.IsFigure]) <|
    .mark (by decide) <| .mark (by decide) <| .mark (by decide) <|
    @Token.Spells.word 'm' ['a', 'x'] "(3, .5)".toList _ (by decide) (by simp [Token.IsLetter])
      (by simp [Token.IsLetter]) <|
    .mark (by decide) <|
    @Token.Spells.number ['3'] ", .5)".toList _ _ hthree (by simp [Token.IsFigure]) <|
    .mark (by decide) <| .blank (by decide) <|
    @Token.Spells.number ['.', '5'] [')'] _ _ hhalf (by simp [Token.IsFigure]) <|
    .mark (by decide) .nil

end OpenCaptions.Expr
