import OpenCaptions.Preset.Store
import OpenCaptions.Proofs.Files.Writing
import OpenCaptions.Proofs.Preset.Records

/-!
A preset store and its file. What a sound store has written is loaded as the same store, and whatever is loaded from a
file of entries is sound.
-/
namespace OpenCaptions.PresetStore

open Failure

variable {store : PresetStore} {files files' : FileStore} {path id : String}

theorem eq_of_parts {store store' : PresetStore} (hpath : store.path = store'.path)
    (hpresets : store.presets = store'.presets) (hunreadable : store.unreadable = store'.unreadable) : store = store' := by
  cases store
  cases store'
  cases hpath
  cases hpresets
  cases hunreadable
  rfl

def initial (path : String) : PresetStore := ⟨some path, Preset.builtin, ∅⟩

/-- What a load comes to. -/
theorem load_run (path : String) (files : FileStore) : (load path).run files =
    if files.contains path then
      match readEntries? files path with
      | some entries => (.ok (entries.foldl addEntry ⟨some path, ∅, ∅⟩), files)
      | none => (.ok (ofTable Preset.builtin), files)
    else (((initial path).save.run files).1.map fun () => initial path, ((initial path).save.run files).2) := by
  unfold load
  change (if files.contains path = true then
      (match readEntries? files path with
        | some entries => pure (entries.foldl addEntry ⟨some path, ∅, ∅⟩)
        | none => pure (ofTable Preset.builtin))
    else do
      (initial path).save
      pure (initial path) : FileM StoreError PresetStore).run files = _
  split
  · split <;> rfl
  · rw [State.run_bind]
    cases (initial path).save.run files with
    | mk outcome files' => cases outcome <;> rfl

theorem load_of_missing (hmissing : files.contains path = false) (hload : (load path).run files = (.ok store, files')) :
    store = initial path := by
  rw [load_run, hmissing, if_neg Bool.false_ne_true] at hload
  obtain ⟨-, -, hstore⟩ := Failure.map_eq_ok.1 (Prod.mk.inj hload).1
  exact hstore.symm

section Entries

variable {entries : List (String × Json)}

theorem get?_addEntry (store : PresetStore) (entry : String × Json) (id : String) :
    (addEntry store entry).presets.get? id =
        (if id = entry.1 then Preset.ofJson? entry.2 else none).or (store.presets.get? id) ∧
      (addEntry store entry).unreadable.get? id =
        (if id = entry.1 ∧ (Preset.ofJson? entry.2).isNone then some entry.2 else none).or
          (store.unreadable.get? id) := by
  unfold addEntry
  cases Preset.ofJson? entry.2 with
  | some p => by_cases hid : id = entry.1 <;> simp [Table.get?_insert, hid]
  | none => by_cases hid : id = entry.1 <;> simp [Table.get?_insert, hid]

/-- What is found in a store made of entries. -/
theorem get?_foldl_addEntry (hne : (entries.map (·.1)).Nodup) (store : PresetStore) (id : String) :
    (entries.foldl addEntry store).presets.get? id =
        ((entries.lookup id).bind Preset.ofJson?).or (store.presets.get? id) ∧
      (entries.foldl addEntry store).unreadable.get? id =
        ((entries.lookup id).filter fun value => (Preset.ofJson? value).isNone).or (store.unreadable.get? id) := by
  induction entries generalizing store with
  | nil => exact ⟨rfl, rfl⟩
  | cons entry entries ih =>
    rw [List.map_cons, List.nodup_cons] at hne
    obtain ⟨hpresets, hunreadable⟩ := ih hne.2 (addEntry store entry)
    obtain ⟨hpreset, hvalue⟩ := get?_addEntry store entry id
    rw [List.foldl_cons, hpresets, hunreadable, hpreset, hvalue, Entries.lookup_cons]
    by_cases hid : id = entry.1
    · rw [hid, Entries.lookup_eq_none hne.1]
      simp [Option.filter_some]
    · simp [hid]

theorem path_foldl_addEntry (entries : List (String × Json)) (store : PresetStore) :
    (entries.foldl addEntry store).path = store.path := by
  induction entries generalizing store with
  | nil => rfl
  | cons entry entries ih =>
    rw [List.foldl_cons, ih, addEntry]
    split <;> rfl

end Entries

/-- A store whose file can hold all of it: presets within their ranges, and beside them entries that are none. -/
structure Sound (path : String) (store : PresetStore) : Prop where
  path_eq : store.path = some path
  inRange {id : String} {p : Preset} (h : store.presets.get? id = some p) : p.InRange
  unreadable {id : String} {value : Json} (h : store.unreadable.get? id = some value) :
    Preset.ofJson? value = none ∧ Json.Readable (Json.deepest - 1) value
  disjoint (id : String) : store.presets.get? id = none ∨ store.unreadable.get? id = none

theorem sound_initial (path : String) : (initial path).Sound path where
  path_eq := rfl
  inRange h := (Preset.isStored_builtin h).toInRange
  unreadable h := by cases h
  disjoint _ := .inr rfl

def written (store : PresetStore) : Table Json := store.unreadable.union (store.presets.map Preset.toJson)

theorem get?_written (store : PresetStore) (id : String) :
    store.written.get? id = ((store.presets.get? id).map Preset.toJson).or (store.unreadable.get? id) := by
  rw [written, Table.get?_union, Table.get?_map]

theorem readable_toJson (h : store.Sound path) : Json.Readable Json.deepest store.toJson := by
  refine .object store.written.sorted fun entry hentry => ?_
  have hget : store.written.get? entry.1 = some entry.2 :=
    (Entries.lookup_eq_some_iff store.written.sorted).2 hentry
  rw [get?_written, Option.or_eq_some_iff, Option.map_eq_some_iff] at hget
  rcases hget with ⟨p, hp, hvalue⟩ | ⟨-, hvalue⟩
  · rw [← hvalue]
    exact Preset.readable_toJson (h.inRange hp) _
  · exact (h.unreadable hvalue).2

theorem readEntries?_eq_some {content : String} {members : List (String × Json)}
    (hfile : files.readText path = .ok content) (hparse : Json.parse? content.toList = some (.object members)) :
    readEntries? files path = some members := by
  simp [readEntries?, hfile, hparse, Except.toOption]

/-- The entries of a text that a sound store has written. -/
theorem readEntries?_written (h : store.Sound path) (hfile : files.readText path = .ok store.toJson.text) :
    readEntries? files path = some store.written.entries :=
  readEntries?_eq_some hfile (Json.parse?_text (readable_toJson h))

theorem exists_of_readEntries? {entries : List (String × Json)} (hread : readEntries? files path = some entries) :
    ∃ content, files.readText path = .ok content ∧ Json.parse? content.toList = some (.object entries) := by
  rw [readEntries?, Option.bind_eq_bind, Option.bind_eq_some_iff] at hread
  obtain ⟨content, hfile, hread⟩ := hread
  rw [Option.bind_eq_bind, Option.bind_eq_some_iff] at hread
  obtain ⟨value, hparse, hmembers⟩ := hread
  have hcontent : files.readText path = .ok content := by
    cases htext : files.readText path with
    | error e =>
      rw [htext] at hfile
      cases hfile
    | ok text =>
      rw [htext] at hfile
      cases hfile
      rfl
  cases value with
  | object members =>
    cases hmembers
    exact ⟨content, hcontent, hparse⟩
  | _ => cases hmembers

/-- The entries of a file are in order of their names, and text can hold each of them. -/
theorem readable_of_readEntries? {entries : List (String × Json)} (hread : readEntries? files path = some entries) :
    entries.Pairwise (·.1 < ·.1) ∧ ∀ entry ∈ entries, Json.Readable (Json.deepest - 1) entry.2 := by
  obtain ⟨content, -, hparse⟩ := exists_of_readEntries? hread
  cases Json.readable_of_parse? hparse with
  | object hs h => exact ⟨hs, h⟩

/-- A file with entries is loaded entry by entry. -/
theorem load_entries {entries : List (String × Json)} (hread : readEntries? files path = some entries) :
    (load path).run files = (.ok (entries.foldl addEntry ⟨some path, ∅, ∅⟩), files) := by
  obtain ⟨content, hfile, -⟩ := exists_of_readEntries? hread
  rw [load_run, if_pos (FileStore.contains_of_readText hfile), hread]

/-- Presets that are loaded are as files keep them. -/
theorem isStored_of_entries {entries : List (String × Json)} (hread : readEntries? files path = some entries) {p : Preset}
    (h : (entries.foldl addEntry ⟨some path, ∅, ∅⟩).presets.get? id = some p) : p.IsStored := by
  obtain ⟨hs, -⟩ := readable_of_readEntries? hread
  rw [(get?_foldl_addEntry (Entries.nodup_names hs) _ id).1, Table.get?_empty, Option.or_none,
    Option.bind_eq_some_iff] at h
  obtain ⟨value, -, hp⟩ := h
  exact Preset.isStored_of_ofJson? hp

/-- What is loaded from the entries of a file is sound. -/
theorem sound_of_entries {entries : List (String × Json)} (hread : readEntries? files path = some entries) :
    (entries.foldl addEntry ⟨some path, ∅, ∅⟩).Sound path := by
  obtain ⟨hs, hreadable⟩ := readable_of_readEntries? hread
  have hget := get?_foldl_addEntry (Entries.nodup_names hs) ⟨some path, ∅, ∅⟩
  simp only [Table.get?_empty, Option.or_none] at hget
  refine ⟨path_foldl_addEntry entries _, fun h => (isStored_of_entries hread h).toInRange, fun {id value} h => ?_,
    fun id => ?_⟩
  · rw [(hget id).2, Option.filter_eq_some_iff, Option.isNone_iff_eq_none] at h
    exact ⟨h.2, hreadable (id, value) (Entries.mem_of_lookup h.1)⟩
  · rw [(hget id).1, (hget id).2]
    cases entries.lookup id with
    | none => exact .inl rfl
    | some value =>
      cases hp : Preset.ofJson? value with
      | none => exact .inl (by simp [hp])
      | some p => exact .inr (by simp [hp])

/-- A sound store whose presets are kept is loaded as it was written. -/
theorem load_written (h : store.Sound path) (hstored : ∀ id p, store.presets.get? id = some p → p.IsStored)
    (hfile : files.readText path = .ok store.toJson.text) : (load path).run files = (.ok store, files) := by
  have hread := readEntries?_written h hfile
  have hget := get?_foldl_addEntry (Entries.nodup_names store.written.sorted) ⟨some path, ∅, ∅⟩
  simp only [Table.get?_empty, Option.or_none] at hget
  have hlookup (id : String) : store.written.entries.lookup id = _ := get?_written store id
  have hpresets : (store.written.entries.foldl addEntry ⟨some path, ∅, ∅⟩).presets = store.presets := by
    refine Table.ext_get? fun id => ?_
    rw [(hget id).1, hlookup]
    cases hp : store.presets.get? id with
    | some p => simp [Preset.ofJson?_toJson (hstored id p hp)]
    | none =>
      cases hvalue : store.unreadable.get? id with
      | none => rfl
      | some value => simpa using (h.unreadable hvalue).1
  have hunreadable : (store.written.entries.foldl addEntry ⟨some path, ∅, ∅⟩).unreadable = store.unreadable := by
    refine Table.ext_get? fun id => ?_
    rw [(hget id).2, hlookup]
    cases hp : store.presets.get? id with
    | some p =>
      have hnone := (h.disjoint id).resolve_left (by simp [hp])
      simp [Preset.ofJson?_toJson (hstored id p hp), hnone]
    | none =>
      cases hvalue : store.unreadable.get? id with
      | none => rfl
      | some value => simp [(h.unreadable hvalue).1]
  have hstore : store.written.entries.foldl addEntry ⟨some path, ∅, ∅⟩ = store := by
    have hpath := path_foldl_addEntry store.written.entries ⟨some path, ∅, ∅⟩
    exact eq_of_parts (hpath.trans h.path_eq.symm) hpresets hunreadable
  rw [load_entries hread, hstore]

end OpenCaptions.PresetStore
