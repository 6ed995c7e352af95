import OpenCaptions.Caption.Basic
import OpenCaptions.Files.Store
import OpenCaptions.Json.Printer
import OpenCaptions.Json.Record

/-!
Caption lists as JSON files.
-/
namespace OpenCaptions

/-- Why a file could not be taken over; the words say what was being done. -/
inductive LoadError where
  | unreadable (doing : String) (cause : FileError)
  | malformed (doing : String)
deriving DecidableEq, Repr

/-- What went wrong, down to its cause. -/
def LoadError.messages : LoadError → List String
  | unreadable doing cause => [doing, cause.message]
  | malformed doing => [doing]

/-- Reads a JSON file; `reading` and `parsing` say what fails. -/
def FileStore.readJson (store : FileStore) (path reading parsing : String) :
    Except LoadError Json.Tree :=
  match store.readText path with
  | .error cause => .error (.unreadable (reading ++ " " ++ path) cause)
  | .ok content =>
    match Json.Tree.read? content.toList with
    | none => .error (.malformed (parsing ++ " " ++ path))
    | some tree => .ok tree

def Json.Tree.itemsOf? {β : Type} (read : Json.Tree → Option β) : Json.Tree → Option (List β)
  | .array items => items.mapM read
  | _ => none

namespace Caption

/-- The fields of a caption; files from before kept the preset under another name. -/
def fields : List Json.FieldNames :=
  [["start"], ["end"], ["text"], ["presetId", "preset"], ["language"], ["autoGenerated"]]

def ofTree? (tree : Json.Tree) : Option (Caption Float) := do
  let [start, finish, text, presetId, language, autoGenerated] ← tree.slots? .text fields 4 | none
  return {
    start := ← Json.required? (Json.Tree.leaf? .text Json.float?) start
    finish := ← Json.required? (Json.Tree.leaf? .text Json.float?) finish
    text := ← Json.required? (Json.Tree.leaf? .text Json.string?) text
    presetId := ← Json.required? (Json.Tree.leaf? .text Json.string?) presetId
    language := ← Json.optional? (Json.Tree.leaf? .text (Json.nullable? Json.string?)) none language
    autoGenerated := ← Json.optional? (Json.Tree.leaf? .text Json.bool?) false autoGenerated }

def toJson (c : Caption Float) : Json :=
  let language := match c.language with
    | some language => [("language", Json.string language)]
    | none => []
  .object ([("start", .float c.start), ("end", .float c.finish), ("text", .string c.text),
    ("presetId", .string c.presetId)] ++ language ++ [("autoGenerated", .bool c.autoGenerated)])

def load (store : FileStore) (path : String) : Except LoadError (List (Caption Float)) := do
  let tree ← store.readJson path "reading captions from" "parsing captions in"
  match tree.itemsOf? ofTree? with
  | some captions => return captions
  | none => throw (.malformed ("parsing captions in " ++ path))

def save (path : String) (captions : List (Caption Float)) : FileM FileError Unit := do
  FileStore.makeParent path
  FileM.attempt (·.writeText path (Json.text (.array (captions.map toJson))))

end Caption
end OpenCaptions
