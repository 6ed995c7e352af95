import OpenCaptions.Files.Path
import OpenCaptions.Text.Utf8

/-!
The files below a working directory. Paths are walked as a file system does: every name but the last
must be a directory, and above the working directory nothing is known. Names and whole paths have a
greatest length.
-/
namespace OpenCaptions

inductive FileError where
  | notFound
  | alreadyExists
  | notADirectory
  | isADirectory
  | tooLong
  /-- The path has a null character, which ends paths for the system. -/
  | nullInPath
  | notText
deriving DecidableEq, Repr

/-- The words of the system, with its number. -/
def FileError.message : FileError → String
  | notFound => "No such file or directory (os error 2)"
  | alreadyExists => "File exists (os error 17)"
  | notADirectory => "Not a directory (os error 20)"
  | isADirectory => "Is a directory (os error 21)"
  | tooLong => "File name too long (os error 36)"
  | nullInPath => "file name contained an unexpected NUL byte"
  | notText => "stream did not contain valid UTF-8"

-- Equality of contents is that of the core library, whatever else is imported.
attribute [local instance (high)] ByteArray.instDecidableEq

inductive FileEntry where
  | file (content : ByteArray)
  | directory
deriving DecidableEq

/-- Names from the working directory down. -/
abbrev Place := List String

/-- Files and directories by their place; the working directory itself has no entry. -/
structure FileStore where
  entries : List (Place × FileEntry)
deriving DecidableEq

/-- A computation that changes files and may fail. What it has changed by then stays. -/
abbrev FileM (ε : Type) := ExceptT ε (StateM FileStore)

/-- A change that leaves the files as they were if it fails. -/
def FileM.attempt {ε : Type} (change : FileStore → Except ε FileStore) : FileM ε Unit := fun files =>
  match change files with
  | .ok files => (.ok (), files)
  | .error e => (.error e, files)

namespace FileStore

def empty : FileStore := ⟨[]⟩

instance : Inhabited FileStore := ⟨empty⟩

def entry? (store : FileStore) (place : Place) : Option FileEntry :=
  if place = [] then some .directory else store.entries.lookup place

def put (store : FileStore) (place : Place) (entry : FileEntry) : FileStore :=
  ⟨(place, entry) :: store.entries.filter (·.1 ≠ place)⟩

def drop (store : FileStore) (place : Place) : FileStore :=
  ⟨store.entries.filter (·.1 ≠ place)⟩

/-- Most bytes of one name. -/
def nameLimit : Nat := 255

/-- Most bytes of a path. -/
def pathLimit : Nat := 4095

def piecesOf (path : String) : Except FileError (List (List Char)) :=
  if path = "" then .error .notFound
  else if '\x00' ∈ path.toList then .error .nullInPath
  else if pathLimit < path.utf8ByteSize then .error .tooLong
  else .ok (Path.pieces path.toList)

def nameOf (piece : List Char) : Except FileError String :=
  let name := String.ofList piece
  if nameLimit < name.utf8ByteSize then .error .tooLong else .ok name

/-- Where a walk has come to; `none` is a directory outside. -/
abbrev Location := Option Place

def step (store : FileStore) (here : Location) (piece : List Char) : Except FileError Location := do
  match here with
  | none =>
    if Path.isSilent piece ∨ piece = ['.', '.'] then return none
    discard (nameOf piece)
    throw .notFound
  | some place =>
    match store.entry? place with
    | none => throw .notFound
    | some (.file _) => throw .notADirectory
    | some .directory =>
      if Path.isSilent piece then return some place
      if piece = ['.', '.'] then return if place = [] then none else some place.dropLast
      let next := place ++ [← nameOf piece]
      if (store.entry? next).isSome then return some next else throw .notFound

/-- Where a path starts: outside if it starts with a slash. -/
def start (pieces : List (List Char)) : Location :=
  match pieces with
  | [] :: _ :: _ => none
  | _ => some []

def walk (store : FileStore) (pieces : List (List Char)) : Except FileError Location :=
  pieces.foldlM store.step (start pieces)

def locate (store : FileStore) (path : String) : Except FileError Location := do
  store.walk (← piecesOf path)

def contains (store : FileStore) (path : String) : Bool := (store.locate path).isOk

def read (store : FileStore) (path : String) : Except FileError ByteArray := do
  match ← store.locate path with
  | none => throw .isADirectory
  | some place =>
    match store.entry? place with
    | some (.file content) => return content
    | some .directory => throw .isADirectory
    | none => throw .notFound

def readText (store : FileStore) (path : String) : Except FileError String := do
  match Text.Utf8.decode? (← store.read path) with
  | some s => return s
  | none => throw .notText

def isFile (store : FileStore) (path : String) : Bool := (store.read path).isOk

/-- Whether there is a file with any bytes, or a directory. -/
def hasContent (store : FileStore) (path : String) : Bool :=
  match store.read path with
  | .ok content => 0 < content.size
  | .error e => e = .isADirectory

/-- Where a file of this path would be: an existing file, or a new name in an existing directory. -/
def target (store : FileStore) (path : String) : Except FileError Place := do
  let pieces ← piecesOf path
  let name := pieces.getLast?.getD []
  if Path.isSilent name ∨ name = ['.', '.'] then throw .isADirectory
  let place ← pieces.dropLast.foldlM store.step (start pieces)
  match place with
  | none => throw .notFound
  | some place =>
    match store.entry? place with
    | none => throw .notFound
    | some (.file _) => throw .notADirectory
    | some .directory =>
      let target := place ++ [← nameOf name]
      if store.entry? target = some .directory then throw .isADirectory
      return target

def write (store : FileStore) (path : String) (content : ByteArray) : Except FileError FileStore := do
  return store.put (← store.target path) (.file content)

def writeText (store : FileStore) (path : String) (content : String) : Except FileError FileStore :=
  store.write path (Text.Utf8.encode content)

def enter (here : Location) (piece : List Char) : FileM FileError Location := do
  let store ← get
  match store.step here piece, here with
  | .ok location, _ => return location
  | .error .notFound, some place =>
    let next := place ++ [String.ofList piece]
    set (store.put next .directory)
    return some next
  | .error e, _ => throw e

/-- Makes a directory with all that it is in. Directories that were made before a failure stay. -/
def makeDirectories (path : String) : FileM FileError Unit := do
  let pieces ← piecesOf path
  match ← pieces.foldlM enter (start pieces) with
  | none => return
  | some place =>
    match entry? (← get) place with
    | some (.file _) => throw .alreadyExists
    | _ => return

def makeParent (path : String) : FileM FileError Unit :=
  match Path.parent? path.toList with
  | none | some [] => return
  | some directory => makeDirectories (String.ofList directory)

def remove (store : FileStore) (path : String) : FileStore :=
  match store.locate path with
  | .ok (some place) =>
    match store.entry? place with
    | some (.file _) => store.drop place
    | _ => store
  | _ => store

end FileStore
end OpenCaptions
