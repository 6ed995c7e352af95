/-!
Cutting text at separators and joining it again.
-/
namespace OpenCaptions.Text

def splitOnce? (sep : Char) : List Char → Option (List Char × List Char)
  | [] => none
  | c :: rest =>
    if c = sep then some ([], rest)
    else (splitOnce? sep rest).map fun (before, after) => (c :: before, after)

/-- Text before and after the last character of a class. -/
def splitLast? (p : Char → Bool) : List Char → Option (List Char × List Char)
  | [] => none
  | c :: rest =>
    match splitLast? p rest with
    | some (before, after) => some (c :: before, after)
    | none => if p c then some ([], rest) else none

/-- The rest of `s` behind `front`, if `s` starts with it. -/
def dropPrefix? (front : List Char) (s : List Char) : Option (List Char) :=
  List.isPrefixOf? front s

/-- Text before and after the first occurrence of a nonempty `needle`. -/
def splitAtText? (needle : List Char) : List Char → Option (List Char × List Char)
  | [] => none
  | c :: rest =>
    match dropPrefix? needle (c :: rest) with
    | some after => some ([], after)
    | none => (splitAtText? needle rest).map fun (before, after) => (c :: before, after)

def contains (needle s : List Char) : Bool :=
  needle.isEmpty || (splitAtText? needle s).isSome

def join (sep : List Char) : List (List Char) → List Char
  | [] => []
  | [part] => part
  | part :: next :: parts => part ++ sep ++ join sep (next :: parts)

/-- The lines of a text: each ends at a line feed, and a carriage return right before it goes too. -/
def lines (s : List Char) : List (List Char) :=
  go [] s
where
  /-- Collects the current line in reverse. -/
  go (line : List Char) : List Char → List (List Char)
    | [] => if line = [] then [] else [line.reverse]
    | c :: rest =>
      if c = '\n' then
        (match line with
          | '\r' :: line => line.reverse
          | line => line.reverse) :: go [] rest
      else go (c :: line) rest

/-- The last `n` elements, all of them if there are fewer. -/
def lastN (n : Nat) (xs : List α) : List α := xs.drop (xs.length - n)

end OpenCaptions.Text
