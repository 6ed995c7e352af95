import OpenCaptions.Text.Split

/-!
The parts of a file path. Slashes separate names; a repeated slash, a slash at the end and a dot other
than one in front say nothing.
-/
namespace OpenCaptions.Path

def pieces (path : List Char) : List (List Char) := path.splitOn '/'

def ofPieces (pieces : List (List Char)) : List Char := Text.join ['/'] pieces

/-- Whether a piece stands for the directory it is in. -/
def isSilent (piece : List Char) : Bool := piece == [] || piece == ['.']

/-- Drops pieces that say nothing from the end, but never the first. -/
def significant (pieces : List (List Char)) : List (List Char) :=
  match pieces with
  | [] => []
  | first :: rest => first :: (rest.reverse.dropWhile isSilent).reverse

/-- The name at the end of a path, with the directory before it. A path that ends in two dots has
none. -/
def splitName? (path : List Char) : Option (List Char × List Char) :=
  let parts := significant (pieces path)
  match parts.getLast? with
  | none => none
  | some name =>
    if isSilent name ∨ name = ['.', '.'] then none
    else
      let directory := significant parts.dropLast
      some (if directory = [[]] then ['/'] else ofPieces directory, name)

def parent? (path : List Char) : Option (List Char) :=
  match significant (pieces path) with
  | [] => none
  | [[]] => none
  | parts =>
    let directory := significant parts.dropLast
    some (if directory = [[]] then ['/'] else ofPieces directory)

def append (directory name : List Char) : List Char :=
  if directory = [] ∨ directory.getLast? = some '/' then directory ++ name
  else directory ++ '/' :: name

/-- A file name without its extension, and the extension. A dot in front starts none. -/
def splitExtension (name : List Char) : List Char × Option (List Char) :=
  match Text.splitLast? (· == '.') name with
  | some ([], _) => (name, none)
  | some (stem, extension) => (stem, some extension)
  | none => (name, none)

def extension? (path : List Char) : Option (List Char) :=
  (splitName? path).bind fun (_, name) => (splitExtension name).2

def stem? (path : List Char) : Option (List Char) :=
  (splitName? path).map fun (_, name) => (splitExtension name).1

def withName (path name : List Char) : List Char :=
  match splitName? path with
  | some (directory, _) => append directory name
  | none => append path name

end OpenCaptions.Path
