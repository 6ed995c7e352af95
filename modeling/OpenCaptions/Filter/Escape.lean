/-!
Escapes for text between single quotes in a filter graph. Text is escaped exactly once; escaping it again
would double its backslashes.
-/
namespace OpenCaptions.Filter

/-- The characters that get a backslash. -/
def isSpecial (c : Char) : Bool :=
  c == '\\' || c == '"' || c == ':' || c == '\'' || c == '*'

def escape : List Char → List Char
  | [] => []
  | c :: rest => if isSpecial c then '\\' :: c :: escape rest else c :: escape rest

/-- Drops each backslash that stands before a character. -/
def unescape : List Char → List Char
  | '\\' :: c :: rest => c :: unescape rest
  | c :: rest => c :: unescape rest
  | [] => []

/-- Escapes a file path, with slashes for its backslashes. -/
def escapePath (path : List Char) : List Char :=
  escape (path.map fun c => if c = '\\' then '/' else c)

theorem unescape_escape (s : List Char) : unescape (escape s) = s := by
  induction s with
  | nil => rfl
  | cons c rest ih =>
    by_cases h : isSpecial c
    · simp [escape, h, unescape, ih]
    · have hc : c ≠ '\\' := by rintro rfl; exact h rfl
      simp only [escape, h, if_neg, Bool.false_eq_true, not_false_eq_true]
      rw [unescape, ih]
      rintro c' rest' rfl
      exact absurd rfl hc

end OpenCaptions.Filter
