import OpenCaptions.Proofs.Preset.Calls

/-!
Calls on a preset store that return an error. A call that is refused for its name leaves all as it is. A call whose save
fails has changed the store by then, and nothing takes the change back.
-/
namespace OpenCaptions

namespace PresetCall

variable {call : PresetCall} {store store' : PresetStore} {files files' : FileStore} {result : Option Preset}
  {e : StoreError}

private theorem isFile_of_change (h : call.change store = .error e) : e.isFile = false := by
  cases call with
  | insert id p =>
    rw [change] at h
    split at h
    · cases h
      rfl
    · cases h
  | update id p =>
    rw [change] at h
    split at h
    · cases h
    · cases h
      rfl
  | remove id =>
    rw [change] at h
    split at h
    · cases h
    · cases h
      rfl

/-- A call returns an error because it is refused, or because its change could not be saved. -/
theorem run_eq_error (h : call.run store files = (.error e, store', files')) :
    (e.isFile = false ∧ call.change store = .error e ∧ store' = store ∧ files' = files) ∨
      (e.isFile = true ∧ store'.save.run files = (.error e, files') ∧
        ∃ result, call.change store = .ok (result, store')) := by
  rw [run_eq] at h
  cases hchange : call.change store with
  | error e' =>
    rw [hchange] at h
    cases h
    exact .inl ⟨isFile_of_change hchange, rfl, rfl, rfl⟩
  | ok changed =>
    obtain ⟨result, changed⟩ := changed
    rw [hchange] at h
    have hfile := PresetStore.only_isFile_save changed files
    cases hsave : changed.save.run files with
    | mk outcome saved =>
      simp only [PresetStore.saved, hsave] at h hfile
      cases outcome with
      | error e' =>
        cases h
        exact .inr ⟨hfile e rfl, hsave, result, rfl⟩
      | ok => cases h

def again (store : PresetStore) : PresetCall → Except StoreError (Option Preset × PresetStore)
  | insert id _ => .error (.taken id)
  | update _ _ => .ok (none, store)
  | remove id => .error (.unknown id)

/-- A change made twice is refused the second time, unless it is an update. -/
theorem change_change (h : call.change store = .ok (result, store')) : call.change store' = call.again store' := by
  cases call with
  | insert id p =>
    rw [change] at h
    split at h
    · cases h
    · cases h
      rw [change, again, Table.contains, Table.get?_insert, if_pos rfl]
      rfl
  | update id p =>
    rw [change] at h
    split at h
    · cases h
      have hput : (store.presets.insert id p).insert id p = store.presets.insert id p :=
        Table.insert_eq_self_iff.2 (by rw [Table.get?_insert, if_pos rfl])
      rw [change, again, Table.contains, Table.get?_insert, if_pos rfl, hput]
      rfl
    · cases h
  | remove id =>
    rw [change] at h
    split at h
    · cases h
      rw [change, again, Table.get?_erase, if_pos rfl]
    · cases h

/-- A change is none if it is an update to the preset that is there. -/
theorem change_eq_self_iff (h : call.change store = .ok (result, store')) :
    store' = store ↔ ∃ id p, call = .update id p ∧ store.presets.get? id = some p := by
  cases call with
  | insert id p =>
    rw [change] at h
    split at h
    · cases h
    · rename_i hcontains
      cases h
      simp only [reduceCtorEq, false_and, exists_false, iff_false]
      intro heq
      have hget := Table.insert_eq_self_iff.1 (congrArg PresetStore.presets heq)
      exact hcontains (Table.contains_iff.2 ⟨p, hget⟩)
  | update id p =>
    rw [change] at h
    split at h
    · cases h
      constructor
      · intro heq
        exact ⟨id, p, rfl, Table.insert_eq_self_iff.1 (congrArg PresetStore.presets heq)⟩
      · rintro ⟨id, p, ⟨⟩, hget⟩
        rw [Table.insert_eq_self_iff.2 hget]
    · cases h
  | remove id =>
    rw [change] at h
    split at h
    · rename_i p hget
      cases h
      simp only [reduceCtorEq, false_and, exists_false, iff_false]
      intro heq
      have hpresets := congrArg (fun store : PresetStore => store.presets.get? id) heq
      simp only [Table.get?_erase, if_pos, hget] at hpresets
      cases hpresets
    · cases h

/-- What a call that returns an error leaves. Refused for its name, it leaves store and files as they were, and a store in
memory knows no other errors. Failed over a file, it leaves the store with the whole change, so that the same call
is refused the next time unless it is an update. -/
theorem failed_call_leaves (h : call.run store files = (.error e, store', files')) :
    (e.isFile = false → store' = store ∧ files' = files) ∧ (store.path = none → e.isFile = false) ∧
      (e.isFile = true →
        (∃ result, call.change store = .ok (result, store')) ∧ call.change store' = call.again store') ∧
      (store' = store ↔
        e.isFile = false ∨ ∃ id p, call = .update id p ∧ store.presets.get? id = some p) := by
  rcases run_eq_error h with ⟨hname, -, hstore, hfiles⟩ | ⟨hfile, hsave, result, hchange⟩
  · rw [hname]
    refine ⟨fun _ => ⟨hstore, hfiles⟩, fun _ => rfl, fun hfile => ?_, ?_⟩
    · cases hfile
    · simp [hstore]
  · rw [hfile]
    refine ⟨fun hname => ?_, fun hpath => ?_, fun _ => ⟨⟨result, hchange⟩, change_change hchange⟩, ?_⟩
    · cases hname
    · rw [PresetStore.save_run_of_none ((change_keeps hchange).1.trans hpath)] at hsave
      cases hsave
    · simpa using change_eq_self_iff hchange

/-- A preset that is put in where the directory cannot be made stays in memory, and putting it in again is refused. -/
theorem failed_call_leaves_blocked :
    let store : PresetStore := ⟨some "f/presets.json", ∅, ∅⟩
    let files : FileStore := ⟨[(["f"], .file ByteArray.empty)]⟩
    ∃ store', (insert "mine" {}).run store files = (.error (.file .alreadyExists), store', files) ∧
      (insert "mine" {}).change store' = .error (.taken "mine") := by
  intro store files
  have hrun : (insert "mine" {}).run store files =
      (.error (.file .alreadyExists), ⟨some "f/presets.json", Table.insert ∅ "mine" {}, ∅⟩, files) := rfl
  exact ⟨_, hrun, ((failed_call_leaves hrun).2.2.1 rfl).2⟩

/-- An error does not mean that nothing has changed. -/
theorem failed_insert_changes :
    let store : PresetStore := ⟨some "f/presets.json", ∅, ∅⟩
    let files : FileStore := ⟨[(["f"], .file ByteArray.empty)]⟩
    let change := store.insert files "mine" {}
    change.1 = .error (.file .alreadyExists) ∧ change.2.1.presets.get? "mine" = some {} ∧
      store.presets.get? "mine" = none :=
  ⟨rfl, rfl, rfl⟩

end PresetCall

end OpenCaptions
