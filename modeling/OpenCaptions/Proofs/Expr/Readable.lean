import OpenCaptions.Proofs.Expr.Grammar
import OpenCaptions.Proofs.Expr.Literals

/-!
Which printed formulas can be read again. A literal that is not finite is printed as a word that no formula may
have; all other formulas are read, unless they are too long or nest too deeply.
-/
namespace OpenCaptions

open Number Text

def Token.HasStray (tokens : List (Token Float)) : Prop := ∃ name, .word name ∈ tokens ∧ ¬ Expr.IsKnown name

/-- A text that is scanned as tokens with a stray word among them, unless something holds. -/
def Token.Reveals (text : List Char) (p : Prop) : Prop :=
  ∃ tokens : List (Token Float), Token.Scans text tokens ∧ (p ∨ Token.HasStray tokens)

namespace Token

theorem HasStray.mono {tokens tokens' : List (Token Float)} (h : HasStray tokens) (hs : tokens ⊆ tokens') :
    HasStray tokens' := by
  obtain ⟨name, hm, hn⟩ := h
  exact ⟨name, hs hm, hn⟩

theorem Scans.reveals {text : List Char} {tokens : List (Token Float)} (h : Scans text tokens) :
    Reveals text True := ⟨tokens, h, .inl trivial⟩

theorem reveals_name {name : List Char} (h : isName name = true) : Reveals name True := (scans_word h).reveals

namespace Reveals

variable {s s' : List Char} {p q : Prop}

theorem imp (h : Reveals s p) (hpq : p → q) : Reveals s q := by
  obtain ⟨tokens, hscans, hp⟩ := h
  exact ⟨tokens, hscans, hp.imp_left hpq⟩

theorem append_cons {c : Char} {token : Token Float} (h : Reveals s p) (hc : ofChar? c = some token)
    (h' : Reveals s' q) : Reveals (s ++ c :: s') (p ∧ q) := by
  obtain ⟨before, hscans, hp⟩ := h
  obtain ⟨behind, hscans', hq⟩ := h'
  refine ⟨_, hscans.append_cons hc hscans', ?_⟩
  rcases hp with hp | hstray
  · rcases hq with hq | hstray
    · exact .inl ⟨hp, hq⟩
    · exact .inr (hstray.mono fun token hm => by simp [hm])
  · exact .inr (hstray.mono fun token hm => by simp [hm])

theorem parens (needed : Bool) (h : Reveals s p) : Reveals (Expr.parens needed s) p := by
  cases needed with
  | false => exact h
  | true =>
    have hopen := Scans.nil.reveals.append_cons (c := '(') rfl (h.append_cons (c := ')') rfl Scans.nil.reveals)
    exact hopen.imp fun h => h.2.1

end Reveals

end Token

namespace Numeral

/-- What is written for a float that is not finite is a stray word, maybe behind a minus. -/
theorem reveals_special (x : Float) : Token.Reveals (Numeral.special x) False := by
  have hword : ∀ name ∈ ["inf".toList, "NaN".toList], Token.Reveals name False := by
    intro name hm
    have hname : Token.isName name = true := by
      revert name
      decide
    refine ⟨_, Token.scans_word hname, .inr ⟨name, List.mem_singleton_self _, ?_⟩⟩
    simp only [List.mem_cons, List.not_mem_nil, or_false] at hm
    rcases hm with rfl | rfl
    · rintro (h | h) <;> cases h
    · rintro (h | h) <;> cases h
  unfold Numeral.special
  split
  · exact (Token.Scans.nil.reveals.append_cons (c := '-') rfl (hword "inf".toList (by decide))).imp And.right
  · exact hword "inf".toList (by decide)
  · exact hword "NaN".toList (by decide)

end Numeral

theorem Literal.reveals (x : Float) : Token.Reveals (Written.text x) (x.isFinite = true) := by
  cases hx : x.isFinite with
  | true => exact (Literal.scans (Literal.isLegible_of_isFinite hx)).reveals.imp fun _ => rfl
  | false =>
    have hspecial : Written.text x = Numeral.special x := by
      change Numeral.positional x = _
      unfold Numeral.positional Decimal.ofFloat?
      cases hb : Binary64.ofFloat x with
      | finite negative m e =>
        rw [Binary64.isFinite_iff.2 ⟨negative, m, e, hb⟩] at hx
        cases hx
      | _ => rfl
    rw [hspecial]
    exact (Numeral.reveals_special x).imp False.elim

namespace Expr

/-- A printed formula has a stray word, unless its literals are finite. -/
theorem reveals (e : Expr Float) : Token.Reveals e.chars (e.Forall (·.isFinite = true)) := by
  have hmark : Token.Reveals [] True := Token.Scans.nil.reveals
  induction e with
  | number value => exact Literal.reveals value
  | var name => exact (scans_chars (e := .var name) trivial).reveals
  | negate operand ih =>
    exact (hmark.append_cons (c := '-') rfl (ih.parens (operand.precedence < 4))).imp And.right
  | binary operator left right ihl ihr =>
    exact (ihl.parens (left.precedence < operator.precedence)).append_cons (ofChar?_symbol operator)
      (ihr.parens (right.precedence ≤ operator.precedence || right.isNegative))
  | apply2 function a b iha ihb =>
    have hname : Token.Reveals function.name.toList True := Token.reveals_name (by cases function <;> rfl)
    have hfirst := hname.append_cons (c := '(') rfl iha
    have hsecond := hfirst.append_cons (c := ',') rfl ihb
    exact (hsecond.append_cons (c := ')') rfl hmark).imp fun h => ⟨h.1.1.2, h.1.2⟩
  | apply3 function a b c iha ihb ihc =>
    have hname : Token.Reveals function.name.toList True := Token.reveals_name (by cases function <;> rfl)
    have hfirst := hname.append_cons (c := '(') rfl iha
    have hsecond := hfirst.append_cons (c := ',') rfl ihb
    have hthird := hsecond.append_cons (c := ',') rfl ihc
    exact (hthird.append_cons (c := ')') rfl hmark).imp fun h => ⟨h.1.1.1.2, h.1.1.2, h.1.2⟩

/-- The literals of a printed formula that can be read are finite. -/
theorem isFinite_of_parse {e e' : Expr Float} (h : parse e.chars = .ok e') : e.Forall (·.isFinite = true) := by
  obtain ⟨tokens, hscans, hfinite⟩ := e.reveals
  have hscan : Token.scan 0 e.chars = .ok tokens := by
    have := hscans 0 [] (by rintro c ⟨⟩)
    rw [List.append_nil] at this
    rw [this, Token.scan]
    exact congrArg Except.ok (List.append_nil tokens)
  have htokens : ofTokens tokens = .ok e' := by
    unfold parse at h
    rw [Failure.guard_eq_ok, hscan, Failure.bind_eq_ok] at h
    obtain ⟨-, scanned, hs, h⟩ := h
    obtain rfl := Except.ok.inj hs
    rw [Failure.guard_eq_ok] at h
    exact h.2
  refine hfinite.resolve_right ?_
  rintro ⟨name, hm, hn⟩
  exact hn ((derives_ofTokens htokens).known name hm)

def IsReadable (e : Expr Float) : Prop := ∃ e', parse (α := Float) e.chars = .ok e'

/-- Whether the text of a formula keeps to the limits and leaves room for more bytes. -/
structure Fits (e : Expr Float) (room : Nat) : Prop where
  size : Utf8.size e.chars + room ≤ longestFormula
  depth : e.levels ≤ deepestFormula

theorem Fits.mono {e : Expr Float} {room room' : Nat} (h : e.Fits room) (hr : room' ≤ room) : e.Fits room' :=
  ⟨(Nat.add_le_add_left hr _).trans h.size, h.depth⟩

/-- A printed formula can be read exactly if its literals are finite and it is neither too long nor nests too
deeply. -/
theorem isReadable_iff {e : Expr Float} : e.IsReadable ↔ e.Forall (·.isFinite = true) ∧ e.Fits 0 := by
  constructor
  · rintro ⟨e', h⟩
    have hfinite := isFinite_of_parse h
    rw [parse_chars (hfinite.imp fun _ => Literal.isLegible_of_isFinite)] at h
    split at h
    · cases h
    · rename_i hlong
      unfold within at h
      split at h
      · exact ⟨hfinite, Nat.le_of_not_lt hlong, ‹_›⟩
      · cases h
  · rintro ⟨hfinite, hlong, hdeep⟩
    refine ⟨e.reread, ?_⟩
    have hshort : ¬ longestFormula < Utf8.size e.chars := Nat.not_lt.2 hlong
    rw [parse_chars (hfinite.imp fun _ => Literal.isLegible_of_isFinite), if_neg hshort, within, if_pos hdeep]

end Expr

end OpenCaptions
