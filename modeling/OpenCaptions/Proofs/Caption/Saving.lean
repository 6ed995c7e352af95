import OpenCaptions.Caption.File
import OpenCaptions.Proofs.Files.Writing
import OpenCaptions.Proofs.Json.Records

/-!
Caption files. A saved list is loaded as it was, with every text and every time, and it still is where some of its
captions have their preset under the name that older files give it.
-/
namespace OpenCaptions

theorem Json.itemsOf?_toTree {β : Type} {read : Json.Tree → Option β} {values : List β} {items : List Json}
    (h : List.Forall₂ (fun value item => read item.toTree = some value) values items) :
    (Json.array items).toTree.itemsOf? read = some values := by
  rw [Json.toTree, Json.Tree.itemsOf?]
  induction h with
  | nil => rfl
  | cons hvalue hvalues ih =>
    rw [Json.itemTrees, List.mapM_cons, hvalue, ih]
    rfl

namespace Caption

variable {c : Caption Float} {captions : List (Caption Float)} {item : Json} {items : List Json} {path : String}
  {files files' : FileStore}

/-- A caption as files have it: as it is saved, or with its preset under the name from before. -/
inductive Stored (c : Caption Float) : Json → Prop
  | saved : Stored c c.toJson
  | legacy : Stored c (c.toJson.rename "presetId" "preset")

/-- Times that a file can hold. -/
structure HasFiniteTimes (c : Caption Float) : Prop where
  start : c.start.isFinite = true
  finish : c.finish.isFinite = true

def slots (c : Caption Float) : Json.Slots Json :=
  [some (.float c.start), some (.float c.finish), some (.string c.text), some (.string c.presetId),
    c.language.map .string, some (.bool c.autoGenerated)]

theorem Stored.slots?_eq (h : Stored c item) :
    item.toTree.slots? .text fields 4 = some (c.slots.map (·.map Json.toTree)) := by
  obtain ⟨start, finish, text, presetId, language, autoGenerated⟩ := c
  cases h with
  | saved =>
    rw [toJson, Json.slots?_toTree]
    cases language <;> rfl
  | legacy =>
    rw [toJson, Json.rename, Json.slots?_toTree]
    cases language <;> rfl

theorem printable_toJson (h : c.HasFiniteTimes) : c.toJson.Printable := by
  obtain ⟨start, finish, text, presetId, language, autoGenerated⟩ := c
  refine .object ?_
  cases language
  all_goals
    simp only [List.append_nil, List.cons_append, List.nil_append, List.forall_mem_cons, List.not_mem_nil,
      false_implies, implies_true, and_true]
  case none => exact ⟨.float h.start, .float h.finish, .string _, .string _, .bool _⟩
  case some => exact ⟨.float h.start, .float h.finish, .string _, .string _, .string _, .bool _⟩

theorem Stored.printable (hstored : Stored c item) (h : c.HasFiniteTimes) : Json.Printable item := by
  cases hstored with
  | saved => exact printable_toJson h
  | legacy => exact (printable_toJson h).rename _ _

/-- A caption is read back from each of its forms in files. -/
theorem Stored.ofTree?_eq (hstored : Stored c item) (h : c.HasFiniteTimes) : ofTree? item.toTree = some c := by
  have hlanguage : Json.optional? (Json.Tree.leaf? .text (Json.nullable? Json.string?)) none
      ((c.language.map .string).map Json.toTree) = some c.language := by
    cases c.language with
    | none => rfl
    | some language => exact Json.leaf?_toTree (.string language) _
  rw [ofTree?, hstored.slots?_eq, Option.bind_eq_bind, Option.bind_some]
  refine Option.bind_eq_some_iff.2 ⟨c.start, Json.leaf?_toTree (.float h.start) _, ?_⟩
  refine Option.bind_eq_some_iff.2 ⟨c.finish, Json.leaf?_toTree (.float h.finish) _, ?_⟩
  refine Option.bind_eq_some_iff.2 ⟨c.text, Json.leaf?_toTree (.string _) _, ?_⟩
  refine Option.bind_eq_some_iff.2 ⟨c.presetId, Json.leaf?_toTree (.string _) _, ?_⟩
  refine Option.bind_eq_some_iff.2 ⟨c.language, hlanguage, ?_⟩
  exact Option.bind_eq_some_iff.2 ⟨c.autoGenerated, Json.leaf?_toTree (.bool _) _, rfl⟩

/-- A list is loaded from the text of its captions, each of them in one form or the other. -/
theorem load_of_readText (hstored : List.Forall₂ Stored captions items) (h : ∀ c ∈ captions, c.HasFiniteTimes)
    (hfile : files.readText path = .ok (Json.text (.array items))) : load files path = .ok captions := by
  have hpairs : List.Forall₂ (fun c item => c.HasFiniteTimes ∧ Stored c item) captions items :=
    (List.forall₂_and_left captions items).2 ⟨h, hstored⟩
  have hprintable : ∀ item ∈ items, item.Printable :=
    forall_mem_of_forall₂ hpairs fun _ _ hc => hc.2.printable hc.1
  have htree := Json.read?_text (.array hprintable)
  have hitems := Json.itemsOf?_toTree (hpairs.imp fun _ _ hc => hc.2.ofTree?_eq hc.1)
  rw [load, FileStore.readJson, hfile]
  simp only [htree, Failure.bind_eq_ok]
  exact ⟨_, rfl, by rw [hitems]; rfl⟩

theorem readText_of_save (h : (save path captions).run files = (.ok (), files')) :
    files'.readText path = .ok (Json.text (.array (captions.map toJson))) := by
  obtain ⟨_, between, -, hwrite⟩ := State.run_bind_eq_ok.1 h
  exact FileStore.readText_of_writeText (FileM.attempt_eq_ok.1 hwrite)

private theorem outcome_save (path : String) (captions : List (Caption Float)) (files : FileStore) :
    ((save path captions).run files).1 = ((save path []).run files).1 := by
  rw [save, save, State.run_bind, State.run_bind]
  cases (FileStore.makeParent path).run files with
  | mk outcome between =>
    cases outcome with
    | error e => rfl
    | ok => exact between.outcome_writeText path _ _

/-- Loading undoes saving, also where the preset is under its former name in any of the saved captions. Whether saving
succeeds is up to the files alone. -/
theorem loading_undoes_saving (h : ∀ c ∈ captions, c.HasFiniteTimes) (path : String) :
    (∀ files, ((save path captions).run files).1 = ((save path []).run files).1) ∧
      (∀ files files', (save path captions).run files = (.ok (), files') →
        files'.readText path = .ok (Json.text (.array (captions.map toJson))) ∧ load files' path = .ok captions) ∧
      ∀ items, List.Forall₂ Stored captions items →
        ∀ files, files.readText path = .ok (Json.text (.array items)) → load files path = .ok captions := by
  refine ⟨outcome_save path captions, fun files files' hsave => ?_, fun items hitems files hfile => ?_⟩
  · have hfile := readText_of_save hsave
    have hstored : List.Forall₂ Stored captions (captions.map toJson) :=
      List.forall₂_map_right_iff.2 (List.forall₂_same.2 fun _ _ => .saved)
    exact ⟨hfile, load_of_readText hstored h hfile⟩
  · exact load_of_readText hitems h hfile

def holding (text : String) : FileStore := ⟨[(["captions.json"], .file (Text.Utf8.encode text))]⟩

/-- A list with an empty language and with captions that speak of presets. It is saved, and then one of the captions
has its preset under the former name. -/
theorem loading_undoes_saving_mixed :
    let first : Caption Float := ⟨0.1, 0.5, "\"preset\": \\\n", "", some "", true⟩
    let second : Caption Float := ⟨2.5, 1e22, "Hello: world", "presetId", none, false⟩
    let former : List Json := [first.toJson, second.toJson.rename "presetId" "preset"]
    ∃ saved edited, (∀ c ∈ [first, second], c.HasFiniteTimes) ∧ List.Forall₂ Stored [first, second] former ∧
      (save "captions.json" [first, second]).run .empty = (.ok (), saved) ∧
      load saved "captions.json" = .ok [first, second] ∧
      edited.readText "captions.json" = .ok (Json.text (.array former)) ∧
      load edited "captions.json" = .ok [first, second] := by
  intro first second former
  have hfinite : ∀ c ∈ [first, second], c.HasFiniteTimes := by
    simp only [List.forall_mem_cons, List.not_mem_nil, false_implies, implies_true, and_true]
    exact ⟨⟨by decide, by decide⟩, ⟨by decide, by decide⟩⟩
  have hformer : List.Forall₂ Stored [first, second] former := .cons .saved (.cons .legacy .nil)
  have hwrite (text : String) : FileStore.empty.writeText "captions.json" text = .ok (holding text) := rfl
  have hsave : (save "captions.json" [first, second]).run .empty =
      (.ok (), holding (Json.text (.array [first.toJson, second.toJson]))) :=
    State.run_bind_eq_ok.2 ⟨(), .empty, rfl, FileM.attempt_eq_ok.2 (hwrite _)⟩
  have hedited := FileStore.readText_of_writeText (hwrite (Json.text (.array former)))
  obtain ⟨-, hsaved, hrenamed⟩ := loading_undoes_saving hfinite "captions.json"
  exact ⟨_, _, hfinite, hformer, hsave, (hsaved _ _ hsave).2, hedited, hrenamed _ hformer _ hedited⟩

end Caption

end OpenCaptions
