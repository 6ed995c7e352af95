import OpenCaptions.Text.Split

/-!
Splitting graph text where a separator stands outside quotes and parentheses. A character behind an
unescaped backslash is plain text.
-/
namespace OpenCaptions.Filter

inductive SplitError where
  | unbalancedClose (offset : Nat)
  | unterminatedQuote
  | unbalancedOpen
deriving DecidableEq, Repr

def SplitError.message : SplitError → String
  | unbalancedClose offset => "unbalanced ')' at offset " ++ toString offset
  | unterminatedQuote => "unterminated quote"
  | unbalancedOpen => "unbalanced '('"

/-- What is open at a place of the text. -/
structure Nesting where
  /-- The character before is an unescaped backslash. -/
  escaped : Bool := false
  quoted : Bool := false
  depth : Nat := 0
deriving DecidableEq, Repr

def extendFirst (c : Char) : List (List Char) → List (List Char)
  | [] => [[c]]
  | part :: parts => (c :: part) :: parts

/-- The parts of a text that begins with `nesting` open, at the byte `offset`. -/
def splitFrom (sep : Char) (nesting : Nesting) (offset : Nat) :
    List Char → Except SplitError (List (List Char))
  | [] =>
    if nesting.quoted then .error .unterminatedQuote
    else if nesting.depth ≠ 0 then .error .unbalancedOpen
    else .ok [[]]
  | c :: rest =>
    let onward (nesting : Nesting) :=
      (splitFrom sep nesting (offset + c.utf8Size) rest).map (extendFirst c)
    if nesting.escaped then onward { nesting with escaped := false }
    else if c = '\\' then onward { nesting with escaped := true }
    else if c = '\'' then onward { nesting with quoted := !nesting.quoted }
    else if nesting.quoted then onward nesting
    else if c = '(' then onward { nesting with depth := nesting.depth + 1 }
    else if c = ')' then
      if nesting.depth = 0 then .error (.unbalancedClose offset)
      else onward { nesting with depth := nesting.depth - 1 }
    else if c = sep ∧ nesting.depth = 0 then
      (splitFrom sep nesting (offset + c.utf8Size) rest).map ([] :: ·)
    else onward nesting

/-- The parts between separators at the top level; at least one. -/
def splitTopLevel (sep : Char) (s : List Char) : Except SplitError (List (List Char)) :=
  splitFrom sep {} 0 s

/-- A labelled segment `[input]body[output]`, taken apart. -/
structure Labelled where
  input : List Char
  body : List Char
  output : List Char
deriving DecidableEq, Repr

/-- Takes a segment apart at its first and its last label. -/
def splitLabels? (segment : List Char) : Option Labelled := do
  let '[' :: rest := segment | none
  let (input, rest) ← Text.splitOnce? ']' rest
  if rest.getLast? ≠ some ']' then none
  let (body, output) ← Text.splitLast? (· == '[') rest.dropLast
  if input = [] ∨ output = [] ∨ '\'' ∈ output ∨ body = [] then none
  return ⟨input, body, output⟩

end OpenCaptions.Filter
