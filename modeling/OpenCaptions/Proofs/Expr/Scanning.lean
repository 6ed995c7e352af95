import OpenCaptions.Expr.Printer
import OpenCaptions.Expr.Token
import OpenCaptions.Proofs.Steps
import OpenCaptions.Proofs.Text.Cutting

/-!
Scanning a printed formula gives back its words. Between two words there is always a character that is a
token of its own, so no words run together.
-/
namespace OpenCaptions

namespace Token

def marks : List Char := ['+', '-', '*', '/', '(', ')', ',']

/-- A text that no word in front of it runs into. -/
def IsCut (rest : List Char) : Prop := ∀ c ∈ rest.head?, c ∈ marks

theorem isCut_cons {c : Char} (hc : c ∈ marks) (rest : List Char) : IsCut (c :: rest) := by
  intro c' h
  rwa [← Option.some.inj h]

theorem not_mark {p : Char → Bool} (hp : ∀ c ∈ marks, p c = false) {c : Char} (hc : p c = true) : c ∉ marks := by
  intro hm
  rw [hp c hm] at hc
  cases hc

theorem takeWhile_of_isCut {p : Char → Bool} (hp : ∀ c ∈ marks, p c = false) {s rest : List Char}
    (hs : ∀ c ∈ s, p c = true) (hrest : IsCut rest) :
    (s ++ rest).takeWhile p = s ∧ (s ++ rest).dropWhile p = rest :=
  Text.takeWhile_of_head? hs fun c hc => hp c (hrest c hc)

theorem isNumberChar_of_isWordStart {c : Char} (h : isWordStart c = true) : isNumberChar c = false := by
  rw [Bool.eq_false_iff]
  intro hn
  simp only [isWordStart, isNumberChar, Char.isAlpha, Char.isUpper, Char.isLower, Char.isDigit,
    Bool.or_eq_true, Bool.and_eq_true, decide_eq_true_eq, beq_iff_eq, ge_iff_le,
    UInt32.le_iff_toNat_le] at h hn
  rcases hn with ⟨-, hn⟩ | rfl
  · rcases h with (⟨h, -⟩ | ⟨h, -⟩) | rfl
    · simp at h hn
      omega
    · simp at h hn
      omega
    · simp at hn
  · simp at h

variable {α : Type}

theorem ofChar?_of_not_mark {c : Char} (hc : c ∉ marks) : (ofChar? c : Option (Token α)) = none := by
  unfold ofChar?
  split <;> first | rfl | exact absurd (by decide) hc

theorem mem_marks {c : Char} {token : Token α} (h : ofChar? c = some token) : c ∈ marks := by
  refine Decidable.byContradiction fun hc => ?_
  rw [ofChar?_of_not_mark hc] at h
  cases h

def isName : List Char → Bool
  | [] => false
  | c :: cs => isWordStart c && cs.all isWordChar

variable [Written α]

/-- A text that is always scanned as the same tokens, if what follows does not run into it. -/
def Scans (s : List Char) (tokens : List (Token α)) : Prop :=
  ∀ place rest, IsCut rest → scan place (s ++ rest) = (scan (place + s.length) rest).map (tokens ++ ·)

theorem Scans.nil : Scans [] ([] : List (Token α)) := by
  intro place rest _
  cases h : scan (α := α) place rest <;> simp [Except.map, h]

theorem scan_mark {c : Char} {token : Token α} (hc : ofChar? c = some token) (place : Nat) (rest : List Char) :
    scan place (c :: rest) = (scan (place + 1) rest).map (token :: ·) := by
  have hblank : ¬ (c = ' ' ∨ c = '\t') := by
    rintro (rfl | rfl) <;> cases hc
  rw [scan, if_neg hblank, hc]
  rfl

/-- Texts joined by a mark are scanned one after the other. -/
theorem Scans.append_cons {s s' : List Char} {tokens tokens' : List (Token α)} {c : Char} {token : Token α}
    (h : Scans s tokens) (hc : ofChar? c = some token) (h' : Scans s' tokens') :
    Scans (s ++ c :: s') (tokens ++ token :: tokens') := by
  intro place rest hrest
  rw [List.append_assoc, List.cons_append, h place _ (isCut_cons (mem_marks hc) _), scan_mark hc, h' _ _ hrest]
  have hlength : place + (s ++ c :: s').length = place + s.length + 1 + s'.length := by
    rw [List.length_append, List.length_cons]
    omega
  rw [hlength]
  cases scan (α := α) (place + s.length + 1 + s'.length) rest <;> simp [Except.map]

theorem forall_marks {p : Char → Bool} (h : marks.any p = false) : ∀ c ∈ marks, p c = false := by
  rw [List.any_eq_false] at h
  intro c hc
  exact Bool.eq_false_iff.2 (h c hc)

section Cases

variable {c : Char} {rest : List Char} {place : Nat}

theorem not_blank {p : Char → Bool} (hspace : p ' ' = false) (htab : p '\t' = false) (hc : p c = true) :
    ¬ (c = ' ' ∨ c = '\t') := by
  rintro (rfl | rfl)
  · rw [hspace] at hc
    cases hc
  · rw [htab] at hc
    cases hc

theorem scan_blank (hc : c = ' ' ∨ c = '\t') : scan (α := α) place (c :: rest) = scan (place + 1) rest := by
  rw [scan, if_pos hc]

theorem scan_number (hc : isNumberChar c = true) :
    scan place (c :: rest) =
      match Written.read? (c :: rest.takeWhile isNumberChar) with
      | none => .error (.badNumber (String.ofList (c :: rest.takeWhile isNumberChar)))
      | some value =>
        (scan (place + (c :: rest.takeWhile isNumberChar).length) (rest.dropWhile isNumberChar)).map
          (Token.number (α := α) value :: ·) := by
  have hmark : c ∉ marks := not_mark (forall_marks rfl) hc
  rw [scan, if_neg (not_blank rfl rfl hc), ofChar?_of_not_mark hmark]
  simp only [hc, if_true]
  rfl

theorem scan_word (hc : isWordStart c = true) :
    scan place (c :: rest) =
      (scan (place + (c :: rest.takeWhile isWordChar).length) (rest.dropWhile isWordChar)).map
        (Token.word (α := α) (c :: rest.takeWhile isWordChar) :: ·) := by
  have hmark : c ∉ marks := not_mark (forall_marks rfl) hc
  rw [scan, if_neg (not_blank rfl rfl hc), ofChar?_of_not_mark hmark]
  simp only [isNumberChar_of_isWordStart hc, Bool.false_eq_true, if_false, hc, if_true]
  rfl

end Cases

theorem scans_number {digits : List Char} {value : α} (hne : digits ≠ [])
    (hd : ∀ c ∈ digits, isNumberChar c = true) (hv : Written.read? digits = some value) :
    Scans digits [.number value] := by
  intro place rest hrest
  obtain ⟨c, cs, rfl⟩ := List.exists_cons_of_ne_nil hne
  rw [List.forall_mem_cons] at hd
  obtain ⟨htake, hdrop⟩ := takeWhile_of_isCut (forall_marks rfl) hd.2 hrest
  rw [List.cons_append, scan_number hd.1, htake, hdrop, hv]
  rfl

theorem scans_word {name : List Char} (h : isName name = true) :
    Scans name ([.word name] : List (Token α)) := by
  cases name with
  | nil => cases h
  | cons c cs =>
    intro place rest hrest
    rw [isName, Bool.and_eq_true, List.all_eq_true] at h
    obtain ⟨htake, hdrop⟩ := takeWhile_of_isCut (forall_marks rfl) h.2 hrest
    rw [List.cons_append, scan_word h.1, htake, hdrop]
    rfl

end Token

def Literal.isSigned {α : Type} [Written α] (value : α) : Bool := (Written.text value).head? = some '-'

namespace Literal

variable {α : Type} [Written α]

def digits (value : α) : List Char :=
  if isSigned value then (Written.text value).tail else Written.text value

def magnitude (value : α) : α := (Written.read? (digits value)).getD value

/-- A literal whose digits can be read. -/
structure IsLegible (value : α) : Prop where
  ne_nil : digits value ≠ []
  chars : ∀ c ∈ digits value, Token.isNumberChar c = true
  reads : (Written.read? (digits value) : Option α).isSome

theorem text_eq (value : α) :
    Written.text value = (if isSigned value then ['-'] else []) ++ digits value := by
  unfold digits isSigned
  cases h : Written.text value with
  | nil => rfl
  | cons c rest =>
    by_cases hc : c = '-'
    · subst hc
      simp
    · simp [hc]

def tokens (value : α) : List (Token α) :=
  if isSigned value then [.operator .sub, .number (magnitude value)] else [.number (magnitude value)]

theorem scans {value : α} (h : IsLegible value) : Token.Scans (Written.text value) (tokens value) := by
  have hread : Written.read? (digits value) = some (magnitude value) := by
    obtain ⟨m, hm⟩ := Option.isSome_iff_exists.1 h.reads
    rw [magnitude, hm, Option.getD_some]
  have hnumber := Token.scans_number h.ne_nil h.chars hread
  rw [text_eq, tokens]
  split
  · exact Token.Scans.nil.append_cons rfl hnumber
  · exact hnumber

end Literal

namespace Expr

variable {α : Type}

def Forall (p : α → Prop) : Expr α → Prop
  | .number value => p value
  | .var _ => True
  | .negate operand => operand.Forall p
  | .binary _ left right => left.Forall p ∧ right.Forall p
  | .apply2 _ a b => a.Forall p ∧ b.Forall p
  | .apply3 _ a b c => a.Forall p ∧ b.Forall p ∧ c.Forall p

def enclose (needed : Bool) (tokens : List (Token α)) : List (Token α) :=
  if needed then .openParen :: tokens ++ [.closeParen] else tokens

theorem ofChar?_symbol (operator : Operator) :
    Token.ofChar? operator.symbol = some (.operator operator : Token α) := by
  cases operator <;> rfl

variable [Written α]

theorem scans_parens {text : List Char} {tokens : List (Token α)} (needed : Bool)
    (h : Token.Scans text tokens) : Token.Scans (parens needed text) (enclose needed tokens) := by
  cases needed with
  | false => exact h
  | true => exact Token.Scans.nil.append_cons rfl (h.append_cons rfl .nil)

variable [Scalar α]

def tokens : Expr α → List (Token α)
  | .number value => Literal.tokens value
  | .var name => [.word name.name.toList]
  | .negate operand => .operator .sub :: enclose (operand.precedence < 4) operand.tokens
  | .binary operator left right =>
    let p := operator.precedence
    enclose (left.precedence < p) left.tokens ++
      .operator operator :: enclose (right.precedence ≤ p || right.isNegative) right.tokens
  | .apply2 function a b =>
    .word function.name.toList :: .openParen :: a.tokens ++ .comma :: b.tokens ++ [.closeParen]
  | .apply3 function a b c =>
    .word function.name.toList :: .openParen :: a.tokens ++ .comma :: b.tokens ++ .comma :: c.tokens ++
      [.closeParen]

/-- A printed formula is scanned as its tokens. -/
theorem scans_chars {e : Expr α} (h : e.Forall Literal.IsLegible) : Token.Scans e.chars e.tokens := by
  induction e with
  | number value => exact Literal.scans h
  | var name => exact Token.scans_word (by cases name <;> rfl)
  | negate operand ih => exact Token.Scans.nil.append_cons rfl (scans_parens _ (ih h))
  | binary operator left right ihl ihr =>
    exact (scans_parens _ (ihl h.1)).append_cons (ofChar?_symbol operator) (scans_parens _ (ihr h.2))
  | apply2 function a b iha ihb =>
    have hname : Token.Scans function.name.toList ([.word function.name.toList] : List (Token α)) :=
      Token.scans_word (by cases function <;> rfl)
    have hfirst := hname.append_cons (c := '(') rfl (iha h.1)
    have hsecond := hfirst.append_cons (c := ',') rfl (ihb h.2)
    exact hsecond.append_cons (c := ')') rfl .nil
  | apply3 function a b c iha ihb ihc =>
    have hname : Token.Scans function.name.toList ([.word function.name.toList] : List (Token α)) :=
      Token.scans_word (by cases function <;> rfl)
    have hfirst := hname.append_cons (c := '(') rfl (iha h.1)
    have hsecond := hfirst.append_cons (c := ',') rfl (ihb h.2.1)
    have hthird := hsecond.append_cons (c := ',') rfl (ihc h.2.2)
    exact hthird.append_cons (c := ')') rfl .nil

end Expr

end OpenCaptions
