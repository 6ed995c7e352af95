import OpenCaptions.Proofs.Preset.Saving

/-!
Calls that change a preset store. A call is refused, which leaves everything as it is, or it changes the presets like a
plain map and saves the store.
-/
namespace OpenCaptions

inductive PresetCall where
  | insert (id : String) (p : Preset)
  | update (id : String) (p : Preset)
  | remove (id : String)

namespace PresetCall

open Failure

def name : PresetCall → String
  | insert id _ => id
  | update id _ => id
  | remove id => id

def preset? : PresetCall → Option Preset
  | insert _ p => some p
  | update _ p => some p
  | remove _ => none

def withResult {β γ : Type} (form : β → γ) (change : PresetStore.Change β) : PresetStore.Change γ :=
  (change.1.map form, change.2)

/-- The call on a store and its files. A preset that is taken out is the result. -/
def run (store : PresetStore) (files : FileStore) : PresetCall → PresetStore.Change (Option Preset)
  | insert id p => withResult (fun () => none) (store.insert files id p)
  | update id p => withResult (fun () => none) (store.update files id p)
  | remove id => withResult some (store.remove files id)

def onMap (map : String → Option Preset) : PresetCall → Except StoreError (Option Preset) × (String → Option Preset)
  | insert id p =>
    if (map id).isSome then (.error (.taken id), map) else (.ok none, Function.update map id (some p))
  | update id p =>
    if (map id).isSome then (.ok none, Function.update map id (some p)) else (.error (.unknown id), map)
  | remove id =>
    match map id with
    | some p => (.ok (some p), Function.update map id none)
    | none => (.error (.unknown id), map)

/-- What a call does in memory: it is refused, or has a result and changes the store. -/
def change (store : PresetStore) : PresetCall → Except StoreError (Option Preset × PresetStore)
  | insert id p =>
    if store.presets.contains id then .error (.taken id)
    else .ok (none, { store with unreadable := store.unreadable.erase id, presets := store.presets.insert id p })
  | update id p =>
    if store.presets.contains id then .ok (none, { store with presets := store.presets.insert id p })
    else .error (.unknown id)
  | remove id =>
    match store.presets.get? id with
    | some p => .ok (some p, { store with presets := store.presets.erase id })
    | none => .error (.unknown id)

variable {call : PresetCall} {store store' : PresetStore} {result : Option Preset} {e : StoreError} {path : String}

private theorem withResult_saved {β γ : Type} (form : β → γ) (store : PresetStore) (files : FileStore) (result : β) :
    withResult form (store.saved files result) = store.saved files (form result) := by
  cases h : store.save.run files with
  | mk outcome files' =>
    cases outcome <;> simp [withResult, PresetStore.saved, h, Except.map]

/-- A call that is not refused is saved. -/
theorem run_eq (call : PresetCall) (store : PresetStore) (files : FileStore) :
    call.run store files = match call.change store with
      | .ok (result, store') => store'.saved files result
      | .error e => (.error e, store, files) := by
  cases call with
  | insert id p =>
    rw [run, change, PresetStore.insert]
    cases store.presets.contains id with
    | true => rfl
    | false => exact withResult_saved _ _ _ _
  | update id p =>
    rw [run, change, PresetStore.update]
    cases store.presets.contains id with
    | true => exact withResult_saved _ _ _ _
    | false => rfl
  | remove id =>
    rw [run, change, PresetStore.remove]
    cases store.presets.get? id with
    | some p => exact withResult_saved _ _ _ _
    | none => rfl

/-- In memory a call does what it does on the plain map of the presets. -/
theorem onMap_eq (call : PresetCall) (store : PresetStore) :
    call.onMap store.presets.get? = match call.change store with
      | .ok (result, store') => (.ok result, store'.presets.get?)
      | .error e => (.error e, store.presets.get?) := by
  cases call with
  | insert id p =>
    rw [onMap, change, Table.contains]
    cases (store.presets.get? id).isSome with
    | true => rfl
    | false => exact congrArg (Prod.mk _) (Table.get?_insert_eq_update _ _ _).symm
  | update id p =>
    rw [onMap, change, Table.contains]
    cases (store.presets.get? id).isSome with
    | true => exact congrArg (Prod.mk _) (Table.get?_insert_eq_update _ _ _).symm
    | false => rfl
  | remove id =>
    rw [onMap, change]
    cases store.presets.get? id with
    | some p => exact congrArg (Prod.mk _) (Table.get?_erase_eq_update _ _).symm
    | none => rfl

/-- The stores that a call can leave. -/
theorem change_eq_ok (h : call.change store = .ok (result, store')) :
    (∃ p, call.preset? = some p ∧
      store' = { store with unreadable := store.unreadable.erase call.name, presets := store.presets.insert call.name p }) ∨
    (∃ p, call.preset? = some p ∧ store.presets.contains call.name = true ∧
      store' = { store with presets := store.presets.insert call.name p }) ∨
    store' = { store with presets := store.presets.erase call.name } := by
  cases call with
  | insert id p =>
    rw [change] at h
    split at h
    · cases h
    · cases h
      exact .inl ⟨p, rfl, rfl⟩
  | update id p =>
    rw [change] at h
    split at h
    · rename_i hcontains
      cases h
      exact .inr (.inl ⟨p, rfl, hcontains, rfl⟩)
    · cases h
  | remove id =>
    rw [change] at h
    split at h
    · cases h
      exact .inr (.inr rfl)
    · cases h

/-- Names that a call is not about keep what they have. -/
theorem change_keeps (h : call.change store = .ok (result, store')) :
    store'.path = store.path ∧ ∀ id, id ≠ call.name →
      store'.presets.get? id = store.presets.get? id ∧ store'.unreadable.get? id = store.unreadable.get? id := by
  rcases change_eq_ok h with ⟨p, -, rfl⟩ | ⟨p, -, -, rfl⟩ | rfl
  · exact ⟨rfl, fun id hid => by simp [Table.get?_insert, Table.get?_erase, hid]⟩
  · exact ⟨rfl, fun id hid => by simp [Table.get?_insert, hid]⟩
  · exact ⟨rfl, fun id hid => by simp [Table.get?_erase, hid]⟩

/-- What all presets of a store and the one put in have, all presets have afterwards. -/
theorem forall_presets_change {P : Preset → Prop} (h : call.change store = .ok (result, store'))
    (hstore : ∀ id p, store.presets.get? id = some p → P p) (hcall : ∀ p ∈ call.preset?, P p) (id : String) (p : Preset)
    (hp : store'.presets.get? id = some p) : P p := by
  rcases change_eq_ok h with ⟨p', hp', rfl⟩ | ⟨p', hp', -, rfl⟩ | rfl
  · rw [Table.get?_insert] at hp
    split at hp
    · cases hp
      exact hcall p hp'
    · exact hstore id p hp
  · rw [Table.get?_insert] at hp
    split at hp
    · cases hp
      exact hcall p hp'
    · exact hstore id p hp
  · rw [Table.get?_erase] at hp
    split at hp
    · cases hp
    · exact hstore id p hp

/-- A sound store stays sound. -/
theorem sound_change (h : call.change store = .ok (result, store')) (hstore : store.Sound path)
    (hcall : ∀ p ∈ call.preset?, p.InRange) : store'.Sound path := by
  have hinRange := forall_presets_change h (fun _ _ => hstore.inRange) hcall
  refine ⟨(change_keeps h).1.trans hstore.path_eq, fun {id p} => hinRange id p, fun {id value} hvalue => ?_, fun id => ?_⟩
  · rcases change_eq_ok h with ⟨p', -, rfl⟩ | ⟨p', -, -, rfl⟩ | rfl
    · rw [Table.get?_erase] at hvalue
      split at hvalue
      · cases hvalue
      · exact hstore.unreadable hvalue
    · exact hstore.unreadable hvalue
    · exact hstore.unreadable hvalue
  · by_cases hid : id = call.name
    · subst hid
      rcases change_eq_ok h with ⟨p', -, rfl⟩ | ⟨p', -, hcontains, rfl⟩ | rfl
      · exact .inr (by simp [Table.get?_erase])
      · obtain ⟨p, hp⟩ := Table.contains_iff.1 hcontains
        exact .inr ((hstore.disjoint call.name).resolve_left (by simp [hp]))
      · exact .inl (by simp [Table.get?_erase])
    · obtain ⟨hpresets, hunreadable⟩ := (change_keeps h).2 id hid
      rw [hpresets, hunreadable]
      exact hstore.disjoint id

end PresetCall

end OpenCaptions
