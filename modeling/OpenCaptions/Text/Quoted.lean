import OpenCaptions.Text.Visible

/-!
Quoted text for messages: the delimiter and the backslash are escaped, and so is every character that
cannot be shown.
-/
namespace OpenCaptions.Text

/-- One character between delimiters. -/
def escapedChar (delimiter c : Char) : List Char :=
  if c = '\x00' then ['\\', '0']
  else if c = '\t' then ['\\', 't']
  else if c = '\r' then ['\\', 'r']
  else if c = '\n' then ['\\', 'n']
  else if c = '\\' ∨ c = delimiter then ['\\', c]
  else if isVisible c then [c]
  else ['\\', 'u', '\x7b'] ++ Nat.toDigits 16 c.toNat ++ ['\x7d']

def quoted (s : List Char) : List Char :=
  '"' :: s.flatMap (escapedChar '"') ++ ['"']

def quotedChar (c : Char) : List Char :=
  '\'' :: escapedChar '\'' c ++ ['\'']

def quotedString (s : String) : String := String.ofList (quoted s.toList)

end OpenCaptions.Text
