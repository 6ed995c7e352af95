import OpenCaptions.Json.Basic
import OpenCaptions.Text.Utf8

/-!
The structure of JSON text with its leaves as they are written. Members that nobody asks for are
checked for their syntax and no further, so numbers beyond all floats or halves of a character pair
in them do no harm.
-/
namespace OpenCaptions.Json

/-- JSON text split into its parts; names and strings still hold their escapes. -/
inductive Tree where
  | null
  | bool (b : Bool)
  | number (text : List Char)
  | string (raw : List Char)
  | array (items : List Tree)
  | object (members : List (List Char × Tree))
deriving Inhabited

def isSpace (c : Char) : Bool := c == ' ' || c == '\t' || c == '\n' || c == '\r'

def isHexDigit (c : Char) : Bool :=
  c.isDigit || ('a' ≤ c && c ≤ 'f') || ('A' ≤ c && c ≤ 'F')

/-- Splits the inside of a string from what is behind its closing quote. -/
def scanString : List Char → Option (List Char × List Char)
  | [] => none
  | '"' :: rest => some ([], rest)
  | '\\' :: 'u' :: a :: b :: c :: d :: rest =>
    if [a, b, c, d].all isHexDigit then
      (scanString rest).map fun (raw, behind) => ('\\' :: 'u' :: a :: b :: c :: d :: raw, behind)
    else none
  | '\\' :: c :: rest =>
    if c ∈ ['"', '\\', '/', 'b', 'f', 'n', 'r', 't'] then
      (scanString rest).map fun (raw, behind) => ('\\' :: c :: raw, behind)
    else none
  | c :: rest =>
    if c < ' ' then none
    else (scanString rest).map fun (raw, behind) => (c :: raw, behind)

def scanDigits (s : List Char) : Option (List Char × List Char) :=
  let digits := s.takeWhile Char.isDigit
  if digits = [] then none else some (digits, s.dropWhile Char.isDigit)

/-- Splits a number from the front: no zeros before other digits, and digits around a point. -/
def scanNumber (s : List Char) : Option (List Char × List Char) := do
  let (sign, s) := match s with
    | '-' :: rest => (['-'], rest)
    | s => ([], s)
  let (whole, s) ← match s with
    | '0' :: rest => some (['0'], rest)
    | s => scanDigits s
  if whole = ['0'] ∧ (s.headD ' ').isDigit then none
  let (places, s) ← match s with
    | '.' :: rest => (scanDigits rest).map fun (digits, rest) => ('.' :: digits, rest)
    | s => some ([], s)
  let (exponent, s) ← match s with
    | mark :: rest =>
      if mark = 'e' ∨ mark = 'E' then
        let (sign, rest) := match rest with
          | '-' :: rest => (['-'], rest)
          | '+' :: rest => (['+'], rest)
          | rest => ([], rest)
        (scanDigits rest).map fun (digits, rest) => (mark :: sign ++ digits, rest)
      else some ([], s)
    | [] => some ([], s)
  return (sign ++ whole ++ places ++ exponent, s)

def skipSpace (s : List Char) : List Char := s.dropWhile isSpace

mutual

/-- Reads a value from the front; each value, item and member takes one unit of fuel. -/
def readTree : Nat → List Char → Option (Tree × List Char)
  | 0, _ => none
  | fuel + 1, s =>
    match skipSpace s with
    | 'n' :: 'u' :: 'l' :: 'l' :: rest => some (.null, rest)
    | 't' :: 'r' :: 'u' :: 'e' :: rest => some (.bool true, rest)
    | 'f' :: 'a' :: 'l' :: 's' :: 'e' :: rest => some (.bool false, rest)
    | '"' :: rest => (scanString rest).map fun (raw, rest) => (.string raw, rest)
    | '[' :: rest =>
      match skipSpace rest with
      | ']' :: rest => some (.array [], rest)
      | rest => (readItems fuel rest).map fun (items, rest) => (.array items, rest)
    | '\x7b' :: rest =>
      match skipSpace rest with
      | '\x7d' :: rest => some (.object [], rest)
      | rest => (readMembers fuel rest).map fun (members, rest) => (.object members, rest)
    | s => (scanNumber s).map fun (text, rest) => (.number text, rest)

def readItems : Nat → List Char → Option (List Tree × List Char)
  | 0, _ => none
  | fuel + 1, s => do
    let (item, rest) ← readTree fuel s
    match skipSpace rest with
    | ',' :: rest =>
      let (items, rest) ← readItems fuel rest
      return (item :: items, rest)
    | ']' :: rest => return ([item], rest)
    | _ => none

def readMembers : Nat → List Char → Option (List (List Char × Tree) × List Char)
  | 0, _ => none
  | fuel + 1, s =>
    match skipSpace s with
    | '"' :: rest => do
      let (name, rest) ← scanString rest
      match skipSpace rest with
      | ':' :: rest =>
        let (value, rest) ← readTree fuel rest
        match skipSpace rest with
        | ',' :: rest =>
          let (members, rest) ← readMembers fuel rest
          return ((name, value) :: members, rest)
        | '\x7d' :: rest => return ([(name, value)], rest)
        | _ => none
      | _ => none
    | _ => none

end

def Tree.read? (s : List Char) : Option Tree :=
  match readTree (s.length + 1) s with
  | some (tree, rest) => if skipSpace rest = [] then some tree else none
  | none => none

def hexValue (digits : List Char) : Nat :=
  digits.foldl (fun n c =>
    16 * n + if c.isDigit then c.toNat - 48 else (c.toNat ||| 32) - 87) 0

/-- Replaces escapes by what they stand for; a pair of halves is one character, a single half none. -/
def unescape : List Char → Option (List Char)
  | [] => some []
  | '\\' :: 'u' :: a :: b :: c :: d :: rest =>
    let high := hexValue [a, b, c, d]
    if 0xD800 ≤ high ∧ high < 0xDC00 then
      match rest with
      | '\\' :: 'u' :: a :: b :: c :: d :: rest =>
        let low := hexValue [a, b, c, d]
        if 0xDC00 ≤ low ∧ low < 0xE000 then
          (unescape rest).map
            (Char.ofNat (0x10000 + (high - 0xD800) * 0x400 + (low - 0xDC00)) :: ·)
        else none
      | _ => none
    else if 0xDC00 ≤ high ∧ high < 0xE000 then none
    else (unescape rest).map (Char.ofNat high :: ·)
  | '\\' :: c :: rest =>
    let meant := match c with
      | 'b' => '\x08'
      | 'f' => '\x0c'
      | 'n' => '\n'
      | 'r' => '\r'
      | 't' => '\t'
      | c => c
    (unescape rest).map (meant :: ·)
  | c :: rest => (unescape rest).map (c :: ·)

/-- What the characters of a tree stand for: text, or the bytes of a text in UTF-8. -/
inductive Charset where
  | text | bytes
deriving DecidableEq

def charsOfBytes (bytes : ByteArray) : List Char := bytes.toList.map fun b => Char.ofNat b.toNat

def Charset.decode? (charset : Charset) (raw : List Char) : Option (List Char) :=
  match charset with
  | .text => some raw
  | .bytes =>
    (Text.Utf8.decode? ⟨(raw.map fun c => UInt8.ofNat c.toNat).toArray⟩).map String.toList

def Charset.string? (charset : Charset) (raw : List Char) : Option String := do
  return String.ofList (← unescape (← charset.decode? raw))

/-- The value of a number's text: whole numbers as far as they fit, else the closest float. -/
def ofNumber? (text : List Char) : Option Json :=
  let (belowZero, body) := Number.Numeral.takeSign text
  match Number.Numeral.natOfDigits? body with
  | some digits => ofWhole belowZero digits
  | none => (Number.Numeral.readDecimal? belowZero body).bind ofWhole.ofDecimal

/-- Nesting that values may have. -/
def deepest : Nat := 127

mutual

/-- The value of a tree that nests at most `levels` deep. -/
def Tree.value? (charset : Charset) (levels : Nat) : Tree → Option Json
  | .null => some .null
  | .bool b => some (.bool b)
  | .number text => ofNumber? text
  | .string raw => (charset.string? raw).map .string
  | .array items =>
    if levels = 0 then none else (itemValues? charset (levels - 1) items).map .array
  | .object members =>
    if levels = 0 then none
    else (memberValues? charset (levels - 1) members).map fun values =>
      .object (Table.ofList values).entries

def itemValues? (charset : Charset) (levels : Nat) : List Tree → Option (List Json)
  | [] => some []
  | item :: items => do
    let value ← item.value? charset levels
    return value :: (← itemValues? charset levels items)

def memberValues? (charset : Charset) (levels : Nat) :
    List (List Char × Tree) → Option (List (String × Json))
  | [] => some []
  | (raw, member) :: members => do
    let name ← charset.string? raw
    let value ← member.value? charset levels
    return (name, value) :: (← memberValues? charset levels members)

end

/-- Reads a whole text as a value; of members of one name the last counts. -/
def parse? (s : List Char) : Option Json := do
  (← Tree.read? s).value? .text deepest

end OpenCaptions.Json
