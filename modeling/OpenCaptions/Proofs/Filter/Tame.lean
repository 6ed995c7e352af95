import OpenCaptions.Filter.Check
import OpenCaptions.Filter.Operation
import OpenCaptions.Proofs.Filter.Splitting
import OpenCaptions.Proofs.Number.Positional

/-!
Filters with the text that the builder gives them. Whatever a value holds, it is one piece for each of the
separators, so the text of the filters splits back into them.
-/
namespace OpenCaptions

def Expr.isFormulaChar (c : Char) : Bool :=
  c.isAlphanum || ['_', '-', '.', '(', ')', ',', '+', '*', '/'].contains c

private theorem Expr.isFormulaChar_of_mem_parens {text : List Char} (h : ∀ c ∈ text, isFormulaChar c = true)
    (needed : Bool) : ∀ c ∈ parens needed text, isFormulaChar c = true := by
  cases needed with
  | false => exact h
  | true =>
    intro c hm
    simp only [parens, if_true, List.mem_append, List.mem_cons, List.not_mem_nil, or_false] at hm
    rcases hm with (rfl | hm) | rfl
    · rfl
    · exact h c hm
    · rfl

theorem Expr.isFormulaChar_of_mem_chars (e : Expr Float) : ∀ c ∈ e.chars, isFormulaChar c = true := by
  induction e with
  | number value =>
    intro c hc
    rcases Number.Numeral.mem_positional hc with h | rfl | rfl
    · simp [isFormulaChar, h]
    · rfl
    · rfl
  | var name =>
    have hf : name.name.toList.all isFormulaChar = true := by cases name <;> rfl
    exact List.all_eq_true.1 hf
  | negate operand ih =>
    simp only [chars, List.forall_mem_cons]
    exact ⟨rfl, isFormulaChar_of_mem_parens ih _⟩
  | binary operator left right ihl ihr =>
    simp only [chars, List.forall_mem_append, List.forall_mem_cons]
    refine ⟨isFormulaChar_of_mem_parens ihl _, ?_, isFormulaChar_of_mem_parens ihr _⟩
    cases operator <;> rfl
  | apply2 function a b iha ihb =>
    have hf : function.name.toList.all isFormulaChar = true := by cases function <;> rfl
    simp only [chars, List.forall_mem_append, List.forall_mem_cons]
    exact ⟨⟨⟨List.all_eq_true.1 hf, rfl, iha⟩, rfl, ihb⟩, rfl, by simp⟩
  | apply3 function a b c iha ihb ihc =>
    have hf : function.name.toList.all isFormulaChar = true := by cases function <;> rfl
    simp only [chars, List.forall_mem_append, List.forall_mem_cons]
    exact ⟨⟨⟨⟨List.all_eq_true.1 hf, rfl, iha⟩, rfl, ihb⟩, rfl, ihc⟩, rfl, by simp⟩

namespace Filter

/-- Characters without a meaning of their own in a graph. -/
def isPlain (c : Char) : Bool := c.isAlphanum || ['#', '@', '.', '-', '_', '/'].contains c

/-- Whether text holds plain characters and closes the `depth` parentheses that are open and its own. -/
def isPlainText : Nat → List Char → Bool
  | depth, [] => depth == 0
  | depth, c :: rest =>
    if c = '(' then isPlainText (depth + 1) rest
    else if c = ')' then depth != 0 && isPlainText (depth - 1) rest
    else isPlain c && isPlainText depth rest

def isKey (key : List Char) : Bool := key != [] && key.all fun c => c.isLower || c == '_'

end Filter

/-- Whether a value keeps to itself between the separators of a graph. -/
def OptionValue.isTame : OptionValue Float → Bool
  | .quoted escaped => Filter.isSealed escaped.toList
  | .formula _ => true
  | value => Filter.isPlainText 0 value.content

structure Operation.IsTame (op : Operation Float) : Prop where
  known : op.name ∈ Filter.knownFilters
  keys : ∀ option ∈ op.options, Filter.isKey option.1.toList = true
  values : ∀ option ∈ op.options, option.2.isTame = true
  bare : op.options = [] → op.name = "null"

/-- A proper filter with the values between quotes that a repair would put there, and no bare colons in a
path. -/
structure Operation.IsQuoted (op : Operation Float) : Prop where
  tame : op.IsTame
  quoted : ∀ option ∈ op.options, option.1 ∈ ["text", "font"] → option.2.isQuoted = true
  file : ∀ option ∈ op.options, option.1 = "fontfile" → ∃ path, option.2 = .quoted path ∧
    Filter.guards (· == ':') false path.toList = true

namespace Filter

theorem isPlainText_of_forall {s : List Char} (h : ∀ c ∈ s, isPlain c = true) : isPlainText 0 s = true := by
  induction s with
  | nil => rfl
  | cons c s ih =>
    rw [List.forall_mem_cons] at h
    have ho : c ≠ '(' := by rintro rfl; cases h.1
    have hc : c ≠ ')' := by rintro rfl; cases h.1
    simp [isPlainText, ho, hc, h.1, ih h.2]

theorem Passes.of_isPlainText {sep : Char} (hs : isPlain sep = false) {depth : Nat} {w : List Char}
    (h : isPlainText depth w = true) : Passes sep ⟨false, false, depth⟩ {} w := by
  induction w generalizing depth with
  | nil =>
    have hd : depth = 0 := by simpa [isPlainText] using h
    subst hd
    exact .nil
  | cons c w ih =>
    unfold isPlainText at h
    split at h
    · rename_i hc
      subst hc
      exact Passes.openParen.cons (ih h)
    · split at h
      · rename_i hc
        subst hc
        simp only [Bool.and_eq_true, bne_iff_ne, ne_eq] at h
        obtain ⟨d, rfl⟩ : ∃ d, depth = d + 1 := Nat.exists_eq_succ_of_ne_zero h.1
        exact Passes.closeParen.cons (ih h.2)
      · rw [Bool.and_eq_true] at h
        have hsep : c ≠ sep := by
          rintro rfl
          rw [hs] at h
          cases h.1
        have hplain : c ∉ ['\\', '\'', '(', ')'] := by
          intro hm
          simp only [List.mem_cons, List.not_mem_nil, or_false] at hm
          rcases hm with rfl | rfl | rfl | rfl <;> cases h.1
        exact (Passes.plainChar hplain hsep).cons (ih h.2)

theorem isPlain_of_isLower {c : Char} (h : (c.isLower || c == '_') = true) : isPlain c = true := by
  rw [Bool.or_eq_true, beq_iff_eq] at h
  rcases h with h | rfl
  · simp [isPlain, Char.isAlphanum, Char.isAlpha, h]
  · rfl

theorem ne_nil_of_isKey {key : List Char} (h : isKey key = true) : key ≠ [] := by
  rw [isKey, Bool.and_eq_true, bne_iff_ne] at h
  exact h.1

theorem isPlain_of_isKey {key : List Char} (h : isKey key = true) : ∀ c ∈ key, isPlain c = true := by
  rw [isKey, Bool.and_eq_true, List.all_eq_true] at h
  exact fun c hc => isPlain_of_isLower (h.2 c hc)

theorem isKey_of_mem_knownFilters : ∀ name ∈ knownFilters, isKey name.toList = true := by decide

def separators : List Char := [';', ',', ':']

theorem isPlain_separator {sep : Char} (h : sep ∈ separators) : isPlain sep = false := by
  simp only [separators, List.mem_cons, List.not_mem_nil, or_false] at h
  rcases h with rfl | rfl | rfl <;> rfl

theorem Closed.of_plain {sep : Char} (hs : isPlain sep = false) {w : List Char}
    (h : ∀ c ∈ w, isPlain c = true) : Closed sep w :=
  .of_isPlainText hs (isPlainText_of_forall h)

end Filter

open OpenCaptions.Filter

theorem Expr.isSealed_chars (e : Expr Float) : isSealed e.chars = true := by
  refine guards_of_forall fun c hc => ?_
  have hc := e.isFormulaChar_of_mem_chars c hc
  constructor
  · rw [beq_eq_false_iff_ne]
    rintro rfl
    cases hc
  · rintro rfl
    cases hc

namespace OptionValue

variable {sep : Char}

theorem closed {value : OptionValue Float} (hs : sep ∈ separators) (h : value.isTame = true) :
    Closed sep value.chars := by
  cases value with
  | word text => exact Passes.of_isPlainText (isPlain_separator hs) h
  | number n => exact Passes.of_isPlainText (isPlain_separator hs) h
  | tint color opacity => exact Passes.of_isPlainText (isPlain_separator hs) h
  | quoted escaped => exact Closed.quoted h
  | formula e => exact Closed.quoted e.isSealed_chars

end OptionValue

namespace Operation

variable {sep : Char}

theorem closed_option {option : String × OptionValue Float} (hs : sep ∈ separators)
    (hk : isKey option.1.toList = true) (hv : option.2.isTame = true) :
    Closed sep (optionChars option) := by
  have heq : Closed sep ['='] := by
    refine .plain ?_
    simp only [separators, List.mem_cons, List.not_mem_nil, or_false] at hs
    rcases hs with rfl | rfl | rfl <;> simp
  exact (Closed.of_plain (isPlain_separator hs) (isPlain_of_isKey hk)).append (heq.append (option.2.closed hs hv))

theorem splitOnce?_optionChars {option : String × OptionValue Float} (hk : isKey option.1.toList = true) :
    Text.splitOnce? '=' (optionChars option) = some (option.1.toList, option.2.chars) := by
  refine Text.splitOnce?_append (fun hm => ?_) _
  cases isPlain_of_isKey hk '=' hm

namespace IsTame

variable {op : Operation Float}

theorem closed_options (h : op.IsTame) (hs : sep ∈ separators) :
    ∀ w ∈ op.options.map optionChars, Closed sep w := by
  simp only [List.forall_mem_map]
  exact fun option hm => closed_option hs (h.keys option hm) (h.values option hm)

theorem isPlain_name (h : op.IsTame) : ∀ c ∈ op.name.toList, isPlain c = true :=
  isPlain_of_isKey (isKey_of_mem_knownFilters op.name h.known)

theorem chars_ne_nil (h : op.IsTame) : op.chars ≠ [] := by
  have hn : op.name.toList ≠ [] := ne_nil_of_isKey (isKey_of_mem_knownFilters op.name h.known)
  unfold Operation.chars
  split <;> simp [hn]

theorem chars_of_nil (h : op.options = []) : op.chars = op.name.toList := by
  rw [Operation.chars, h]

theorem chars_eq (h : op.options ≠ []) :
    op.chars = op.name.toList ++ '=' :: Text.join [':'] (op.options.map optionChars) := by
  unfold Operation.chars
  split
  · contradiction
  · rfl

/-- The text of a filter is one piece between commas and between semicolons. -/
theorem closed_chars (h : op.IsTame) (hs : sep ∈ [';', ',']) : Closed sep op.chars := by
  have hsep : sep ∈ separators := List.mem_append_left [':'] hs
  have hname : Closed sep op.name.toList :=
    .of_plain (isPlain_separator hsep) h.isPlain_name
  by_cases ho : op.options = []
  · rw [chars_of_nil ho]
    exact hname
  · have hmarks : Closed sep ['='] ∧ ':' ∉ ['\\', '\'', '(', ')', sep] := by
      simp only [List.mem_cons, List.not_mem_nil, or_false] at hs
      rcases hs with rfl | rfl <;> exact ⟨.plain (by simp), by simp⟩
    rw [chars_eq ho]
    exact hname.append (hmarks.1.append (Closed.join hmarks.2 (h.closed_options hsep)))

theorem splitOnce?_chars (h : op.IsTame) (ho : op.options ≠ []) :
    Text.splitOnce? '=' op.chars =
      some (op.name.toList, Text.join [':'] (op.options.map optionChars)) := by
  rw [chars_eq ho]
  refine Text.splitOnce?_append (fun hm => ?_) _
  cases h.isPlain_name '=' hm

theorem splitTopLevel_options (h : op.IsTame) (ho : op.options ≠ []) :
    splitTopLevel ':' (Text.join [':'] (op.options.map optionChars)) =
      .ok (op.options.map optionChars) := by
  exact splitTopLevel_join (by decide) (by simpa using ho) (h.closed_options (by decide))

end IsTame

theorem joined_singleton (op : Operation Float) : joined [op] = op.text := rfl

/-- The text of filters in a row splits into them. -/
theorem splitTopLevel_joined {ops : List (Operation Float)} (hne : ops ≠ [])
    (h : ∀ op ∈ ops, op.IsTame) :
    splitTopLevel ',' (joined ops).toList = .ok (ops.map chars) := by
  rw [joined, String.toList_ofList]
  refine splitTopLevel_join (by decide) (by simpa using hne) ?_
  rw [List.forall_mem_map]
  exact fun op hm => (h op hm).closed_chars (by decide)

theorem closed_joined {ops : List (Operation Float)} (h : ∀ op ∈ ops, op.IsTame) :
    Closed ';' (joined ops).toList := by
  rw [joined, String.toList_ofList]
  refine Closed.join (by decide) ?_
  rw [List.forall_mem_map]
  exact fun op hm => (h op hm).closed_chars (by decide)

end Operation

end OpenCaptions
