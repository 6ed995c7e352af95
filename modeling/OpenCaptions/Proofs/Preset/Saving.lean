import OpenCaptions.Proofs.Preset.Reloading

/-!
Saving a preset store. Without a path nothing happens; else the file holds the text of the store afterwards, or the
error is one of the file's.
-/
namespace OpenCaptions

def StoreError.isFile : StoreError → Bool
  | file _ => true
  | writing _ _ => true
  | taken _ => false
  | unknown _ => false

namespace PresetStore

open Failure

variable {store store' : PresetStore} {files files' : FileStore} {path : String}

theorem save_run_of_none (hpath : store.path = none) (files : FileStore) : store.save.run files = (.ok (), files) := by
  unfold save
  rw [hpath]
  rfl

/-- With a path, its directory is made first, and the file is written last. -/
theorem save_run (hpath : store.path = some path) (files : FileStore) : store.save.run files =
    match (FileStore.makeParent path).run files with
    | (.error e, files) => (.error (.file e), files)
    | (.ok (), files) =>
      match files.writeText path store.toJson.text with
      | .ok files => (.ok (), files)
      | .error e => (.error (.writing path e), files) := by
  have hattempt (between : FileStore) : (FileM.attempt fun files =>
      (files.writeText path store.toJson.text).mapError (StoreError.writing path)).run between =
      match between.writeText path store.toJson.text with
      | .ok files => (.ok (), files)
      | .error e => (.error (.writing path e), between) := by
    rw [FileM.run_attempt]
    cases between.writeText path store.toJson.text <;> rfl
  have hadapt : ((FileStore.makeParent path).adapt StoreError.file).run files =
    (((FileStore.makeParent path).run files).1.mapError .file, ((FileStore.makeParent path).run files).2) := rfl
  unfold save
  rw [hpath]
  change (((FileStore.makeParent path).adapt StoreError.file) >>= _).run files = _
  rw [State.run_bind, hadapt]
  cases (FileStore.makeParent path).run files with
  | mk outcome between =>
    cases outcome with
    | error e => rfl
    | ok => exact hattempt between

/-- After a save the file holds the text of the store. -/
theorem readText_of_save (hpath : store.path = some path) (h : store.save.run files = (.ok (), files')) :
    files'.readText path = .ok store.toJson.text := by
  rw [save_run hpath] at h
  split at h
  · cases h
  · rename_i between _
    cases hwrite : between.writeText path store.toJson.text with
    | error e =>
      rw [hwrite] at h
      cases h
    | ok written =>
      rw [hwrite] at h
      cases h
      exact FileStore.readText_of_writeText hwrite

/-- A save fails for a file only. -/
theorem only_isFile_save (store : PresetStore) (files : FileStore) :
    Only (fun e => e.isFile = true) (store.save.run files).1 := by
  cases hpath : store.path with
  | none =>
    rw [save_run_of_none hpath]
    exact Only.ok ()
  | some path =>
    rw [save_run hpath]
    split
    · exact Only.error rfl
    · split
      · exact Only.ok ()
      · exact Only.error rfl

def holding (text : String) : FileStore := ⟨[(["presets.json"], .file (Text.Utf8.encode text))]⟩

theorem readText_holding (text : String) : (holding text).readText "presets.json" = .ok text := by
  have hwrite : FileStore.empty.writeText "presets.json" text = .ok (holding text) := rfl
  exact FileStore.readText_of_writeText hwrite

theorem save_empty (hpath : store.path = some "presets.json") :
    store.save.run .empty = (.ok (), holding store.toJson.text) := by
  rw [save_run hpath]
  rfl

theorem save_holding (hpath : store.path = some "presets.json") (text : String) :
    store.save.run (holding text) = (.ok (), holding store.toJson.text) := by
  rw [save_run hpath]
  rfl

end PresetStore

end OpenCaptions
