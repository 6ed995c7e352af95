import OpenCaptions.Expr.Eval
import OpenCaptions.Proofs.Expr.Literals

/-!
What a printed formula means when it is read again. Its tree differs only where a literal has a sign, which
comes back as a negation, and so it has the same value everywhere.
-/
namespace OpenCaptions.Expr

open Number Text

/-- A formula with the signs of its literals written as negations of their absolute values. -/
def signsOut : Expr Float → Expr Float
  | .number value => if hasSignBit value then .negate (.number value.abs) else .number value
  | .var name => .var name
  | .negate operand => .negate operand.signsOut
  | .binary operator left right => .binary operator left.signsOut right.signsOut
  | .apply2 function a b => .apply2 function a.signsOut b.signsOut
  | .apply3 function a b c => .apply3 function a.signsOut b.signsOut c.signsOut

private theorem reread_eq_signsOut {e : Expr Float} (h : e.Forall (·.isFinite = true)) : e.reread = e.signsOut := by
  induction e with
  | number value =>
    obtain ⟨hsigned, hread⟩ := Literal.sign_and_digits h
    have hmagnitude : Literal.magnitude value = value.abs := by rw [Literal.magnitude, hread, Option.getD_some]
    rw [reread, signsOut, hsigned, hmagnitude]
    split
    · rfl
    · rename_i hs
      have := Binary64.eq_signed_abs h
      rw [if_neg hs] at this
      rw [← this]
  | var name => rfl
  | negate operand ih => rw [reread, signsOut, ih h]
  | binary operator left right ihl ihr => rw [reread, signsOut, ihl h.1, ihr h.2]
  | apply2 function a b iha ihb => rw [reread, signsOut, iha h.1, ihb h.2]
  | apply3 function a b c iha ihb ihc => rw [reread, signsOut, iha h.1, ihb h.2.1, ihc h.2.2]

/-- Taking the signs out of the literals does not change the value. -/
theorem eval_signsOut {e : Expr Float} (h : e.Forall (·.isFinite = true)) (env : Env Float) :
    e.signsOut.eval env = e.eval env := by
  induction e with
  | number value =>
    have hvalue := Binary64.eq_signed_abs h
    unfold signsOut
    split
    · rename_i hs
      rw [if_pos hs] at hvalue
      exact hvalue.symm
    · rfl
  | var name => rfl
  | negate operand ih => rw [signsOut, eval, eval, ih h]
  | binary operator left right ihl ihr => rw [signsOut, eval, eval, ihl h.1, ihr h.2]
  | apply2 function a b iha ihb => rw [signsOut, eval, eval, iha h.1, ihb h.2]
  | apply3 function a b c iha ihb ihc => rw [signsOut, eval, eval, iha h.1, ihb h.2.1, ihc h.2.2]

/-- A printed formula with finite literals is read as the same tree, but for signs that come back as
negations, unless its text is too long or nests too deeply; what is read has the same value everywhere. -/
theorem printing_keeps_meaning {e : Expr Float} (h : e.Forall (·.isFinite = true)) :
    (parse e.chars =
      if longestFormula < Utf8.size e.chars then .error .tooLong
      else if e.levels ≤ deepestFormula then .ok e.signsOut
      else .error .tooDeep) ∧
    ∀ env, e.signsOut.eval env = e.eval env := by
  refine ⟨?_, eval_signsOut h⟩
  rw [parse_chars (h.imp fun _ => Literal.isLegible_of_isFinite), reread_eq_signsOut h]
  rfl

def signed : Expr Float :=
  .sub (.number (-2)) (.mul (.negate (.number (-0.0))) (.sub .time (.number (-1.5))))

theorem printing_keeps_signs :
    signed.Forall (·.isFinite = true) ∧
    (parse signed.chars =
      if longestFormula < Utf8.size signed.chars then .error .tooLong
      else if signed.levels ≤ deepestFormula then .ok signed.signsOut
      else .error .tooDeep) ∧
    ∀ env, signed.signsOut.eval env = signed.eval env := by
  have h : signed.Forall (·.isFinite = true) := by
    simp only [signed, sub, mul, time, Forall]
    decide
  exact ⟨h, printing_keeps_meaning h⟩

end OpenCaptions.Expr
