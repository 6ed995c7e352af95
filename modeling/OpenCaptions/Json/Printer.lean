import OpenCaptions.Json.Basic
import OpenCaptions.Number.Numeral

/-!
JSON text, with two blanks for each level. Floats keep a point, and leave positional
notation for small and for large magnitudes.
-/
namespace OpenCaptions.Json

def escapedChar (c : Char) : List Char :=
  if c = '"' ∨ c = '\\' then ['\\', c]
  else if c = '\x08' then ['\\', 'b']
  else if c = '\t' then ['\\', 't']
  else if c = '\n' then ['\\', 'n']
  else if c = '\x0c' then ['\\', 'f']
  else if c = '\r' then ['\\', 'r']
  else if c < ' ' then
    ['\\', 'u', '0', '0', Nat.digitChar (c.toNat / 16), Nat.digitChar (c.toNat % 16)]
  else [c]

def stringText (s : String) : List Char :=
  '"' :: s.toList.flatMap escapedChar ++ ['"']

/-- Text of a finite decimal: positional while the point stands at most sixteen digits behind and
less than five zeros before the first digit, else with an exponent that has a sign. -/
def decimalText (d : Number.Decimal) : List Char :=
  let digits := Nat.toDigits 10 d.digits
  let point : Int := digits.length + d.exponent
  if d.digits = 0 ∨ (-5 < point ∧ point ≤ 16) then
    d.positional ++ if 0 ≤ d.exponent then ['.', '0'] else []
  else
    let sign := if d.negative then ['-'] else []
    let mantissa := match digits with
      | [] => []
      | [c] => [c]
      | c :: places => c :: '.' :: places
    let exponent := point - 1
    sign ++ mantissa ++ 'e' :: (if exponent < 0 then '-' else '+') :: Nat.toDigits 10 exponent.natAbs

/-- Text of a float, in which a tie goes to the even digit; what is not finite has none. -/
def floatText (x : Float) : List Char :=
  match Number.Decimal.ofFloat? .even x with
  | some d => decimalText d
  | none => "null".toList

def lineBreak (level : Nat) : List Char := '\n' :: List.replicate (2 * level) ' '

mutual

/-- Text of a value whose inner lines are indented by `level`. -/
def textAt (level : Nat) : Json → List Char
  | null => "null".toList
  | bool b => (if b then "true" else "false").toList
  | nat n => Nat.toDigits 10 n
  | negative n => '-' :: Nat.toDigits 10 n
  | float x => floatText x
  | string s => stringText s
  | array [] => ['[', ']']
  | array (item :: items) =>
    '[' :: lineBreak (level + 1) ++ textAt (level + 1) item ++ itemsText (level + 1) items ++
      lineBreak level ++ [']']
  | object [] => ['\x7b', '\x7d']
  | object ((name, value) :: members) =>
    '\x7b' :: lineBreak (level + 1) ++ stringText name ++ ':' :: ' ' :: textAt (level + 1) value ++
      membersText (level + 1) members ++ lineBreak level ++ ['\x7d']

def itemsText (level : Nat) : List Json → List Char
  | [] => []
  | item :: items => ',' :: lineBreak level ++ textAt level item ++ itemsText level items

def membersText (level : Nat) : List (String × Json) → List Char
  | [] => []
  | (name, value) :: members =>
    ',' :: lineBreak level ++ stringText name ++ ':' :: ' ' :: textAt level value ++
      membersText level members

end

def text (value : Json) : String := String.ofList (textAt 0 value)

/-- The text on one line. What is left of it is the same value, since no string holds a line break. -/
def compact (value : Json) : String := String.ofList ((textAt 0 value).filter (· ≠ '\n'))

end OpenCaptions.Json
