import OpenCaptions.Filter.Graph

/-!
Repairs of graph text: files of fonts become the standard font, and the values of `text` and `font` end
up between quotes. A repair looks for the first place that needs it, so each pass is a bounded number of
such repairs. An option inside the label at the end has no value to repair, and then there is no result.
-/
namespace OpenCaptions.Filter

/-- Splits a label at the end from what is before it. Text with a quote is no label. -/
def splitLabel (s : List Char) : List Char × List Char :=
  if s.getLast? = some ']' then
    match Text.splitLast? (· == '[') s.dropLast with
    | some (before, name) => if '\'' ∈ name then (s, []) else (before, '[' :: name ++ [']'])
    | none => (s, [])
  else (s, [])

/-- What precedes an unescaped character of a class, and the text from that character on. -/
def splitUnescaped? (p : Char → Bool) (escaped : Bool) :
    List Char → Option (List Char × List Char)
  | [] => none
  | c :: rest =>
    if p c && !escaped then some ([], c :: rest)
    else
      (splitUnescaped? p (c == '\\' && !escaped) rest).map fun (before, after) => (c :: before, after)

/-- Whether an odd number of unescaped quotes is open at the end. -/
def endsQuoted (escaped quoted : Bool) : List Char → Bool
  | [] => quoted
  | c :: rest =>
    endsQuoted (c == '\\' && !escaped) (if c == '\'' && !escaped then !quoted else quoted) rest

/-- What precedes an option outside quotes and what follows the `=` behind its key. An option stands
behind `=` or `:`. -/
def findOption? (key : List Char) (escaped quoted separated : Bool) :
    List Char → Option (List Char × List Char)
  | [] => none
  | c :: rest =>
    let onward (quoted : Bool) :=
      (findOption? key (c == '\\' && !escaped) quoted (c == '=' || c == ':') rest).map
        fun (before, value) => (c :: before, value)
    if c == '\'' && !escaped then onward !quoted
    else if !quoted && separated then
      match Text.dropPrefix? (key ++ ['=']) (c :: rest) with
      | some value => some ([], value)
      | none => onward quoted
    else onward quoted

/-- An option with the text around it. -/
structure Found where
  before : List Char
  /-- Text behind `key=` as far as the label at the end. -/
  value : List Char
  label : List Char

/-- The first option with a key, if there is one; an option inside the label is no result at all. -/
def find? (key : List Char) (s : List Char) : Option (Option Found) :=
  match findOption? key false false false s with
  | none => some none
  | some (before, value) =>
    let label := (splitLabel s).2
    if value.length < label.length then none
    else some (some ⟨before, value.take (value.length - label.length), label⟩)

def startsOption (s : List Char) : Bool :=
  let isKeyChar (c : Char) := c.isLower || c == '_'
  s.takeWhile isKeyChar != [] && (s.dropWhile isKeyChar).head? == some '='

/-- Splits text where the next option begins, at its colon. -/
def splitAtOption (escaped : Bool) : List Char → List Char × List Char
  | [] => ([], [])
  | c :: rest =>
    if c == ':' && !escaped && startsOption rest then ([], c :: rest)
    else
      let (before, after) := splitAtOption (c == '\\' && !escaped) rest
      (c :: before, after)

def splitBare (s : List Char) : List Char × List Char :=
  (splitUnescaped? (fun c => c == ':' || c == ',') false s).getD (s, [])

/-- What is behind a value: behind its closing quote if that comes before the next option. -/
def behindValue (s : List Char) : List Char :=
  match s with
  | '\'' :: inside =>
    let (value, rest) := splitAtOption false inside
    match splitUnescaped? (· == '\'') false value with
    | some (_, closing) => closing.drop 1 ++ rest
    | none => rest
  | _ => (splitBare s).2

def mostRepairs : Nat := 64

/-- Repeats a repair until it changes nothing or has run `n` times. -/
def repeatRepair (repair : List Char → Option (Option (List Char))) : Nat → List Char → Option (List Char)
  | 0, s => some s
  | n + 1, s =>
    match repair s with
    | none => none
    | some none => some s
    | some (some repaired) => repeatRepair repair n repaired

def fontFileKey : List Char := "fontfile".toList

def fontKey : List Char := "font".toList

def textKey : List Char := "text".toList

def standardFont : List Char := "font='Arial'".toList

def replaceFontFile (s : List Char) : Option (Option (List Char)) := do
  match ← find? fontFileKey s with
  | none => return none
  | some found => return some (found.before ++ standardFont ++ behindValue found.value ++ found.label)

/-- Closes the value of the first option with a key, if its opening quote is not closed before the
next option. -/
def closeValue? (key : List Char) (s : List Char) : Option (List Char) :=
  match find? key s with
  | some (some ⟨before, '\'' :: inside, label⟩) =>
    let (value, rest) := splitAtOption false inside
    match splitUnescaped? (· == '\'') false value with
    | some _ => none
    | none => some (before ++ key ++ '=' :: '\'' :: value ++ '\'' :: rest ++ label)
  | _ => none

/-- Closes one value while a quote is open at the end of the text. -/
def closeQuote (s : List Char) : Option (Option (List Char)) :=
  if endsQuoted false false s then some ((closeValue? textKey s).orElse fun _ => closeValue? fontKey s)
  else some none

/-- Escapes the quotes of a value that has none around it. -/
def escapeQuotes (escaped : Bool) : List Char → List Char
  | [] => []
  | c :: rest =>
    let rest' := escapeQuotes (c == '\\' && !escaped) rest
    if c == '\'' && !escaped then '\\' :: c :: rest' else c :: rest'

/-- The first option with a key, if its value does not start with a quote. -/
def findBare? (key : List Char) (s : List Char) : Option (Option Found) := do
  match ← find? key s with
  | some found => return if found.value.head? = some '\'' then none else some found
  | none => return none

def quoteValue (key : List Char) (found : Found) : List Char :=
  let (value, rest) := splitBare found.value
  found.before ++ key ++ '=' :: '\'' :: escapeQuotes false value ++ '\'' :: rest ++ found.label

def quoteBare (s : List Char) : Option (Option (List Char)) := do
  match ← findBare? textKey s with
  | some found => return some (quoteValue textKey found)
  | none =>
    match ← findBare? fontKey s with
    | some found => return some (quoteValue fontKey found)
    | none => return none

/-- Repairs the text of filters, with labels or without. -/
def sanitize? (segment : List Char) : Option (List Char) := do
  let s ← repeatRepair replaceFontFile mostRepairs segment
  let s ← repeatRepair closeQuote mostRepairs s
  repeatRepair quoteBare mostRepairs s

end OpenCaptions.Filter

namespace OpenCaptions

def FilterNode.sanitize? (node : FilterNode) : Option FilterNode :=
  (Filter.sanitize? node.body.toList).map fun body => { node with body := String.ofList body }

/-- A graph with repaired filters; labels and captions stay. -/
def FilterGraph.sanitize? (graph : FilterGraph) : Option FilterGraph :=
  (graph.nodes.mapM FilterNode.sanitize?).map FilterGraph.mk

end OpenCaptions
