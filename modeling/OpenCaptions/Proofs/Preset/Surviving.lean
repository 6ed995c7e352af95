import OpenCaptions.Proofs.Preset.Agreement

/-!
Entries of a preset file survive. Whatever is loaded, called and saved, a file that is no object is left as it is, and
in any other the entries that no call is about stay: those that are no presets to the letter, and presets as presets.
-/
namespace OpenCaptions.PresetStore

open Failure

variable {path : String} {named : List String} {store : PresetStore} {stores : List PresetStore}
  {before after : List (String × Json)}

/-- Courses of loads, saves and calls on one path, with all stores that there were and the names that calls were about.
No write fails. -/
inductive Course (path : String) (start : FileStore) : List String → List PresetStore → FileStore → Prop
  | start : Course path start [] [] start
  | load {named : List String} {stores : List PresetStore} {files files' : FileStore} {store : PresetStore}
    (h : Course path start named stores files) (hload : (load path).run files = (.ok store, files')) :
    Course path start named (store :: stores) files'
  | save {named : List String} {stores : List PresetStore} {files files' : FileStore} {store : PresetStore}
    (h : Course path start named stores files) (hstore : store ∈ stores)
    (hsave : store.save.run files = (.ok (), files')) : Course path start named stores files'
  | call {named : List String} {stores : List PresetStore} {files files' : FileStore} {store store' : PresetStore}
    {answer : Except StoreError (Option Preset)} (h : Course path start named stores files) (hstore : store ∈ stores)
    (call : PresetCall) (hpreset : ∀ p ∈ call.preset?, p.InRange)
    (hrun : call.run store files = (answer, store', files')) (hwrites : Only (fun e => e.isFile = false) answer) :
    Course path start (call.name :: named) (store' :: stores) files'

/-- Under other names than `named` the entries `after` have what the entries `before` had: the same value if that is no
preset, else a value of the same preset. -/
def Survives (named : List String) (before after : List (String × Json)) : Prop :=
  ∀ id ∉ named, ∀ value, before.lookup id = some value →
    (Preset.ofJson? value = none → after.lookup id = some value) ∧
      ∀ p, Preset.ofJson? value = some p → ∃ value', after.lookup id = some value' ∧ Preset.ofJson? value' = some p

def Holds (named : List String) (before : List (String × Json)) (store : PresetStore) : Prop :=
  ∀ id ∉ named, ∀ value, before.lookup id = some value →
    (Preset.ofJson? value = none → store.unreadable.get? id = some value) ∧
      ∀ p, Preset.ofJson? value = some p → store.presets.get? id = some p

theorem Survives.refl (before : List (String × Json)) : Survives [] before before :=
  fun _ _ value h => ⟨fun _ => h, fun _ hp => ⟨value, h, hp⟩⟩

theorem Survives.cons (h : Survives named before after) (name : String) : Survives (name :: named) before after :=
  fun id hid => h id fun hmem => hid (List.mem_cons_of_mem _ hmem)

theorem Holds.cons (h : Holds named before store) (name : String) : Holds (name :: named) before store :=
  fun id hid => h id fun hmem => hid (List.mem_cons_of_mem _ hmem)

/-- What survives in a file is loaded. -/
theorem Survives.holds {files : FileStore} (h : Survives named before after)
    (hread : readEntries? files path = some after) :
    Holds named before (after.foldl addEntry ⟨some path, ∅, ∅⟩) := by
  obtain ⟨hs, -⟩ := readable_of_readEntries? hread
  intro id hid value hvalue
  obtain ⟨hpresets, hunreadable⟩ := get?_foldl_addEntry (Entries.nodup_names hs) ⟨some path, ∅, ∅⟩ id
  obtain ⟨hsame, hpreset⟩ := h id hid value hvalue
  refine ⟨fun hnone => ?_, fun p hp => ?_⟩
  · rw [hunreadable, hsame hnone]
    simp [hnone]
  · obtain ⟨value', hvalue', hp'⟩ := hpreset p hp
    rw [hpresets, hvalue']
    simp [hp']

/-- What a store holds survives in the entries that it writes. -/
theorem Holds.survives (h : Holds named before store) (hsound : store.Sound path) :
    Survives named before store.written.entries := by
  intro id hid value hvalue
  obtain ⟨hunreadable, hpresets⟩ := h id hid value hvalue
  have hlookup : store.written.entries.lookup id = _ := get?_written store id
  refine ⟨fun hnone => ?_, fun p hp => ⟨p.toJson, ?_, Preset.ofJson?_toJson (Preset.isStored_of_ofJson? hp)⟩⟩
  · have hvalue' := hunreadable hnone
    have hpreset := (hsound.disjoint id).resolve_right (by simp [hvalue'])
    rw [hlookup, hpreset, hvalue']
    rfl
  · rw [hlookup, hpresets p hp]
    rfl

/-- A call leaves what a store holds under other names. -/
theorem Holds.change {call : PresetCall} {result : Option Preset} {store' : PresetStore} (h : Holds named before store)
    (hchange : call.change store = .ok (result, store')) : Holds (call.name :: named) before store' := by
  intro id hid value hvalue
  rw [List.mem_cons, not_or] at hid
  obtain ⟨hpresets, hunreadable⟩ := (PresetCall.change_keeps hchange).2 id hid.1
  rw [hpresets, hunreadable]
  exact h id hid.2 value hvalue

/-- On a file that is no object a course changes nothing: no store has a path to write to. -/
theorem Course.untouched {start files : FileStore} (h : Course path start named stores files)
    (hcontains : start.contains path = true) (hread : readEntries? start path = none) :
    files = start ∧ ∀ store ∈ stores, store.path = none := by
  induction h with
  | start => exact ⟨rfl, fun _ hstore => absurd hstore List.not_mem_nil⟩
  | load _ hload ih =>
    obtain ⟨rfl, hpaths⟩ := ih
    rw [load_run, if_pos hcontains, hread] at hload
    cases hload
    exact ⟨rfl, List.forall_mem_cons.2 ⟨rfl, hpaths⟩⟩
  | save _ hstore hsave ih =>
    obtain ⟨rfl, hpaths⟩ := ih
    rw [save_run_of_none (hpaths _ hstore)] at hsave
    cases hsave
    exact ⟨rfl, hpaths⟩
  | call _ hstore call _ hrun hwrites ih =>
    obtain ⟨rfl, hpaths⟩ := ih
    rcases run_cases hrun hwrites with ⟨e, -, -, rfl, rfl⟩ | ⟨result, hchange, -, hsave⟩
    · exact ⟨rfl, List.forall_mem_cons.2 ⟨hpaths _ hstore, hpaths⟩⟩
    · have hpath := (PresetCall.change_keeps hchange).1.trans (hpaths _ hstore)
      rw [save_run_of_none hpath] at hsave
      cases hsave
      exact ⟨rfl, List.forall_mem_cons.2 ⟨hpath, hpaths⟩⟩

/-- On a file with entries each store holds what survives in the file. -/
theorem Course.holds {start files : FileStore} (h : Course path start named stores files)
    (hread : readEntries? start path = some before) :
    (∃ after, readEntries? files path = some after ∧ Survives named before after) ∧
      ∀ store ∈ stores, store.Sound path ∧ Holds named before store := by
  induction h with
  | start => exact ⟨⟨before, hread, .refl before⟩, fun _ hstore => absurd hstore List.not_mem_nil⟩
  | load _ hload ih =>
    obtain ⟨⟨after, hafter, hsurvives⟩, hstores⟩ := ih
    rw [load_entries hafter] at hload
    cases hload
    exact ⟨⟨after, hafter, hsurvives⟩,
      List.forall_mem_cons.2 ⟨⟨sound_of_entries hafter, hsurvives.holds hafter⟩, hstores⟩⟩
  | save _ hstore hsave ih =>
    obtain ⟨hsound, hholds⟩ := ih.2 _ hstore
    have hwritten := readEntries?_written hsound (readText_of_save hsound.path_eq hsave)
    exact ⟨⟨_, hwritten, hholds.survives hsound⟩, ih.2⟩
  | call _ hstore call hpreset hrun hwrites ih =>
    obtain ⟨⟨after, hafter, hsurvives⟩, hstores⟩ := ih
    obtain ⟨hsound, hholds⟩ := hstores _ hstore
    have hothers := fun store hstore => (hstores store hstore).imp_right fun h => h.cons call.name
    -- A refused call leaves file and store, and any other writes what its store holds.
    rcases run_cases hrun hwrites with ⟨e, -, -, rfl, rfl⟩ | ⟨result, hchange, -, hsave⟩
    · exact ⟨⟨after, hafter, hsurvives.cons call.name⟩, List.forall_mem_cons.2 ⟨⟨hsound, hholds.cons call.name⟩, hothers⟩⟩
    · have hsound' := PresetCall.sound_change hchange hsound hpreset
      have hholds' := hholds.change hchange
      have hwritten := readEntries?_written hsound' (readText_of_save hsound'.path_eq hsave)
      exact ⟨⟨_, hwritten, hholds'.survives hsound'⟩, List.forall_mem_cons.2 ⟨⟨hsound', hholds'⟩, hothers⟩⟩

/-- What is in a preset file survives every course. -/
theorem user_entries_survive {start files : FileStore} (hcontains : start.contains path = true)
    (h : Course path start named stores files) :
    (readEntries? start path = none → files = start) ∧
      ∀ before, readEntries? start path = some before →
        ∃ after, readEntries? files path = some after ∧
          ∀ id ∉ named, ∀ value, before.lookup id = some value →
            (Preset.ofJson? value = none → after.lookup id = some value) ∧
              ∀ p, Preset.ofJson? value = some p →
                ∃ value', after.lookup id = some value' ∧ Preset.ofJson? value' = some p :=
  ⟨fun hnone => (h.untouched hcontains hnone).1, fun _ hread => (h.holds hread).1⟩

/-- An entry that is no preset is still there after another was put in. -/
theorem user_entries_survive_broken : ∃ start stores files after,
    readEntries? start "presets.json" = some [("broken", .object [("size", .string "big")])] ∧
      Course "presets.json" start ["mine"] stores files ∧ readEntries? files "presets.json" = some after ∧
      after.lookup "broken" = some (.object [("size", .string "big")]) := by
  let broken : Json := .object [("size", .string "big")]
  let start := holding (Json.object [("broken", broken)]).text
  let loaded : PresetStore := ⟨some "presets.json", ∅, Table.insert ∅ "broken" broken⟩
  let changed : PresetStore :=
    { loaded with
      unreadable := loaded.unreadable.erase "mine"
      presets := Table.insert ∅ "mine" {} }
  have hnone : Preset.ofJson? broken = none := rfl
  have hreadable : Json.Readable Json.deepest (.object [("broken", broken)]) := by
    refine .object (by simp) (List.forall_mem_singleton.2 ?_)
    exact .object (by simp) (List.forall_mem_singleton.2 (.string "big"))
  have hread : readEntries? start "presets.json" = some [("broken", broken)] :=
    readEntries?_eq_some (readText_holding _) (Json.parse?_text hreadable)
  have hload : (load "presets.json").run start = (.ok loaded, start) := by
    rw [load_entries hread, List.foldl_cons, List.foldl_nil, addEntry, hnone]
  have hrun : (PresetCall.insert "mine" {}).run loaded start = (.ok none, changed, holding changed.toJson.text) :=
    run_of_change (by rw [PresetCall.change, if_neg (by decide)]) (save_holding rfl _)
  have hrange : ∀ p ∈ (PresetCall.insert "mine" {}).preset?, p.InRange := by
    rintro p ⟨⟩
    exact ⟨by decide, by decide, by decide⟩
  have hcourse := Course.call (.load .start hload) List.mem_cons_self _ hrange hrun (Only.ok none)
  have hcontains := FileStore.contains_of_readText (readText_holding (Json.object [("broken", broken)]).text)
  obtain ⟨after, hafter, hsurvives⟩ := (user_entries_survive hcontains hcourse).2 _ hread
  exact ⟨_, _, _, after, hread, hcourse, hafter, (hsurvives "broken" (by decide) broken rfl).1 hnone⟩

end OpenCaptions.PresetStore
