import OpenCaptions.Proofs.Preset.Calls

/-!
A preset store and its file agree. From a load on, each call has the result that it has on a plain map, no name is both
readable and unreadable, and after each call that was not refused the file is loaded as the store.
-/
namespace OpenCaptions.PresetStore

open Failure

variable {path : String} {store store' : PresetStore} {files files' : FileStore}

/-- The stores and files after a load on a path that was missing or held an object, and any calls with presets that files
keep. Nobody else is at the files, and no write fails. -/
inductive Reaches (path : String) : PresetStore → FileStore → Prop
  | load {files files' : FileStore} {store : PresetStore}
    (hstart : files.contains path = false ∨ ∃ entries, readEntries? files path = some entries)
    (hload : (load path).run files = (.ok store, files')) : Reaches path store files'
  | call {store store' : PresetStore} {files files' : FileStore} {answer : Except StoreError (Option Preset)}
    (h : Reaches path store files) (call : PresetCall) (hpreset : ∀ p ∈ call.preset?, p.IsStored)
    (hrun : call.run store files = (answer, store', files')) (hwrites : Only (fun e => e.isFile = false) answer) :
    Reaches path store' files'

/-- What a call comes to if no write fails. -/
theorem run_cases {call : PresetCall} {answer : Except StoreError (Option Preset)}
    (hrun : call.run store files = (answer, store', files')) (hwrites : Only (fun e => e.isFile = false) answer) :
    (∃ e, call.change store = .error e ∧ answer = .error e ∧ store' = store ∧ files' = files) ∨
      ∃ result, call.change store = .ok (result, store') ∧ answer = .ok result ∧
        store'.save.run files = (.ok (), files') := by
  rw [PresetCall.run_eq] at hrun
  cases hchange : call.change store with
  | error e =>
    rw [hchange] at hrun
    cases hrun
    exact .inl ⟨e, rfl, rfl, rfl, rfl⟩
  | ok changed =>
    obtain ⟨result, changed⟩ := changed
    rw [hchange] at hrun
    cases hsave : changed.save.run files with
    | mk outcome saved =>
      have hfile := only_isFile_save changed files
      simp only [PresetStore.saved, hsave] at hrun hfile
      cases outcome with
      | error e =>
        cases hrun
        have := hfile e rfl
        have := hwrites e rfl
        simp_all
      | ok =>
        cases hrun
        exact .inr ⟨result, rfl, rfl, hsave⟩

theorem run_of_change {call : PresetCall} {result : Option Preset} (hchange : call.change store = .ok (result, store'))
    (hsave : store'.save.run files = (.ok (), files')) : call.run store files = (.ok result, store', files') := by
  simp only [PresetCall.run_eq, hchange, PresetStore.saved, hsave]
  rfl

/-- A store that was loaded is sound, and so it stays; its presets are as files keep them. -/
theorem Reaches.sound (h : Reaches path store files) :
    store.Sound path ∧ ∀ id p, store.presets.get? id = some p → p.IsStored := by
  induction h with
  | load hstart hload =>
    rcases hstart with hmissing | ⟨entries, hread⟩
    · rw [load_of_missing hmissing hload]
      exact ⟨sound_initial path, fun _ _ => Preset.isStored_builtin⟩
    · rw [load_entries hread] at hload
      cases hload
      exact ⟨sound_of_entries hread, fun _ _ => isStored_of_entries hread⟩
  | call _ call hpreset hrun hwrites ih =>
    rcases run_cases hrun hwrites with ⟨e, -, -, rfl, rfl⟩ | ⟨result, hchange, -, -⟩
    · exact ih
    · exact ⟨PresetCall.sound_change hchange ih.1 fun p hp => (hpreset p hp).toInRange,
        PresetCall.forall_presets_change hchange ih.2 hpreset⟩

/-- Store and file agree. -/
theorem agrees_with_file (h : Reaches path store files) :
    (∀ id, store.presets.contains id = false ∨ store.unreadable.contains id = false) ∧
      ∀ call : PresetCall, (∀ p ∈ call.preset?, p.IsStored) →
        ∀ answer store' files', call.run store files = (answer, store', files') →
          Only (fun e => e.isFile = false) answer →
          (answer, store'.presets.get?) = call.onMap store.presets.get? ∧
            (∀ e, answer = .error e → store' = store ∧ files' = files) ∧
            ∀ result, answer = .ok result → (load path).run files' = (.ok store', files') := by
  obtain ⟨hsound, hstored⟩ := h.sound
  refine ⟨fun id => ?_, fun call hpreset answer store' files' hrun hwrites => ?_⟩
  · exact (hsound.disjoint id).imp (fun h => by rw [Table.contains, h]; rfl) fun h => by rw [Table.contains, h]; rfl
  · rw [PresetCall.onMap_eq]
    rcases run_cases hrun hwrites with ⟨e, hchange, rfl, rfl, rfl⟩ | ⟨result, hchange, rfl, hsave⟩
    · rw [hchange]
      refine ⟨rfl, fun _ _ => ⟨rfl, rfl⟩, fun result hresult => ?_⟩
      cases hresult
    · rw [hchange]
      have hsound' := PresetCall.sound_change hchange hsound fun p hp => (hpreset p hp).toInRange
      refine ⟨rfl, fun e he => ?_, fun _ _ => ?_⟩
      · cases he
      · exact load_written hsound' (PresetCall.forall_presets_change hchange hstored hpreset)
          (readText_of_save hsound'.path_eq hsave)

/-- A missing file is made, a preset is put in, and the file is loaded as the store. -/
theorem agrees_with_file_inserted : ∃ store files store' files',
    (load "presets.json").run .empty = (.ok store, files) ∧
      (PresetCall.insert "mine" {}).run store files = (.ok none, store', files') ∧
      (load "presets.json").run files' = (.ok store', files') := by
  let made := initial "presets.json"
  let changed : PresetStore :=
    { made with
      unreadable := made.unreadable.erase "mine"
      presets := made.presets.insert "mine" {} }
  have hload : (load "presets.json").run .empty = (.ok made, holding made.toJson.text) := by
    rw [load_run, if_neg (by decide), save_empty rfl]
    rfl
  have hrun : (PresetCall.insert "mine" {}).run made (holding made.toJson.text) =
      (.ok none, changed, holding changed.toJson.text) :=
    run_of_change (by rw [PresetCall.change, if_neg (by decide)]) (save_holding rfl _)
  have hstored : ∀ p ∈ (PresetCall.insert "mine" {}).preset?, p.IsStored := by
    rintro p ⟨⟩
    exact ⟨⟨by decide, by decide, by decide⟩, by decide⟩
  have hagrees := (agrees_with_file (.load (.inl rfl) hload)).2 _ hstored _ _ _ hrun (Only.ok none)
  exact ⟨_, _, _, _, hload, hrun, hagrees.2.2 none rfl⟩

end OpenCaptions.PresetStore
