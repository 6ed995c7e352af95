import OpenCaptions.Preset.Record
import OpenCaptions.Caption.File
import OpenCaptions.Text.Quoted

/-!
The preset store: presets by their names, kept in step with a JSON file. Entries of the file that are no
presets are kept as they are and written back.
-/
namespace OpenCaptions

inductive StoreError where
  | file (cause : FileError)
  | writing (path : String) (cause : FileError)
  | taken (id : String)
  | unknown (id : String)
deriving DecidableEq, Repr

/-- What went wrong, down to its cause. -/
def StoreError.messages : StoreError → List String
  | file cause => [cause.message]
  | writing path cause => ["writing presets to " ++ path, cause.message]
  | taken id => ["preset " ++ Text.quotedString id ++ " already exists"]
  | unknown id => ["preset " ++ Text.quotedString id ++ " does not exist"]

structure PresetStore where
  /-- The file behind the store; none for a store in memory. -/
  path : Option String
  presets : Table Preset
  /-- Entries of the file that are no presets. -/
  unreadable : Table Json

namespace PresetStore

def ofTable (presets : Table Preset) : PresetStore := ⟨none, presets, ∅⟩

def toJson (store : PresetStore) : Json :=
  .object (store.unreadable.union (store.presets.map Preset.toJson)).entries

def save (store : PresetStore) : FileM StoreError Unit := do
  if let some path := store.path then
    (FileStore.makeParent path).adapt .file
    FileM.attempt fun files => (files.writeText path store.toJson.text).mapError (.writing path)

/-- The members of a preset file, if it is text that holds a JSON object. -/
def readEntries? (files : FileStore) (path : String) : Option (List (String × Json)) := do
  let content ← (files.readText path).toOption
  match ← Json.parse? content.toList with
  | .object members => return members
  | _ => none

def addEntry (store : PresetStore) (entry : String × Json) : PresetStore :=
  match Preset.ofJson? entry.2 with
  | some preset => { store with presets := store.presets.insert entry.1 preset }
  | none => { store with unreadable := store.unreadable.insert entry.1 entry.2 }

/-- Loads a file. A missing one is made with the built-in presets; next to one that is no object these
are used in memory only, and the file stays as it is. -/
def load (path : String) : FileM StoreError PresetStore := do
  let files ← get
  if files.contains path then
    match readEntries? files path with
    | some entries => return entries.foldl addEntry ⟨some path, ∅, ∅⟩
    | none => return ofTable Preset.builtin
  else
    let store : PresetStore := ⟨some path, Preset.builtin, ∅⟩
    store.save
    return store

/-- What a change leaves: its result, the store and the files. -/
abbrev Change (β : Type) := Except StoreError β × PresetStore × FileStore

/-- Saves a changed store; the change stays in memory even if that fails. -/
def saved {β : Type} (store : PresetStore) (files : FileStore) (result : β) : Change β :=
  let (outcome, files) := store.save.run files
  (outcome.map fun () => result, store, files)

def insert (store : PresetStore) (files : FileStore) (id : String) (preset : Preset) : Change Unit :=
  if store.presets.contains id then (.error (.taken id), store, files)
  else saved { store with
    unreadable := store.unreadable.erase id
    presets := store.presets.insert id preset } files ()

def update (store : PresetStore) (files : FileStore) (id : String) (preset : Preset) : Change Unit :=
  if store.presets.contains id then
    saved { store with presets := store.presets.insert id preset } files ()
  else (.error (.unknown id), store, files)

def remove (store : PresetStore) (files : FileStore) (id : String) : Change Preset :=
  match store.presets.get? id with
  | some preset => saved { store with presets := store.presets.erase id } files preset
  | none => (.error (.unknown id), store, files)

end PresetStore
end OpenCaptions
