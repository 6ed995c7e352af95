import OpenCaptions.Filter.Graph
import OpenCaptions.Expr.Parser
import OpenCaptions.Text.Blank

/-!
The structural check of graph text: labelled segments that form one chain, known filters only, and for
drawn text an option `text` and formulas that can be read.
-/
namespace OpenCaptions.Filter

inductive Flaw where
  | emptyGraph
  | nesting (e : SplitError)
  | noLabels (segment : Nat)
  | brokenChain (segment : Nat) (input previous : List Char)
  | repeatedLabel (label : List Char)
  | unknownFilter (name : List Char)
  | missingValue (option : List Char)
  | badFormula (key formula : List Char) (e : SyntaxError)
  | missingText
deriving DecidableEq, Repr

def Flaw.message : Flaw → String
  | emptyGraph => "empty filter graph"
  | nesting e => e.message
  | noLabels segment => "segment " ++ toString segment ++ " is not of the form [in]filters[out]"
  | brokenChain segment input previous =>
    "segment " ++ toString segment ++ " reads [" ++ String.ofList input ++ "] but the chain is at [" ++
      String.ofList previous ++ "]"
  | repeatedLabel label => "label [" ++ String.ofList label ++ "] is used twice"
  | unknownFilter name => "unknown filter " ++ String.ofList (Text.quoted name)
  | missingValue option => "drawtext option " ++ String.ofList (Text.quoted option) ++ " has no value"
  | badFormula key formula e =>
    "drawtext " ++ String.ofList key ++ " expression " ++ String.ofList (Text.quoted formula) ++ ": " ++
      e.message
  | missingText => "drawtext without text"

def knownFilters : List String :=
  ["drawtext", "scale", "pad", "crop", "setsar", "null", "format", "fps"]

/-- Options of drawn text that hold formulas. -/
def formulaKeys : List String := ["x", "y", "alpha"]

/-- Splits graph text, with its own kind of error. -/
def split (sep : Char) (s : List Char) : Except Flaw (List (List Char)) :=
  (splitTopLevel sep s).mapError .nesting

def unquote (value : List Char) : List Char :=
  match value with
  | '\'' :: rest => if rest.getLast? = some '\'' then rest.dropLast else value
  | _ => value

/-- Checks the options of drawn text; true if one of them is the text. -/
def checkOptions : List (List Char) → Except Flaw Bool
  | [] => .ok false
  | option :: options =>
    match Text.splitOnce? '=' option with
    | none => .error (.missingValue option)
    | some (key, value) => do
      if String.ofList key ∈ formulaKeys then
        match Expr.parse (α := Float) (unquote value) with
        | .ok _ => pure ()
        | .error e => throw (.badFormula key (unquote value) e)
      let hasText ← checkOptions options
      return hasText || String.ofList key = "text"

def checkFilter (filter : List Char) : Except Flaw Unit := do
  let (name, options) := (Text.splitOnce? '=' filter).getD (filter, [])
  if String.ofList name ∉ knownFilters then throw (.unknownFilter name)
  if String.ofList name = "drawtext" then
    let hasText ← checkOptions (← split ':' options)
    if !hasText then throw .missingText

/-- Checks segments from number `i` on, behind a chain that has produced the labels `outputs`, the last
one first. -/
def checkSegments (i : Nat) (outputs : List (List Char)) : List (List Char) → Except Flaw Unit
  | [] => .ok ()
  | segment :: segments => do
    let some labelled := splitLabels? segment | throw (.noLabels i)
    match outputs with
    | previous :: _ =>
      if labelled.input ≠ previous then throw (.brokenChain i labelled.input previous)
    | [] => pure ()
    if labelled.output ∈ outputs ∨ labelled.output = labelled.input then
      throw (.repeatedLabel labelled.output)
    (← split ',' labelled.body).forM checkFilter
    checkSegments (i + 1) (labelled.output :: outputs) segments

def checkStructure (graph : List Char) : Except Flaw Unit := do
  if Text.isBlankText graph then throw .emptyGraph
  checkSegments 0 [] (← split ';' graph)

end OpenCaptions.Filter
