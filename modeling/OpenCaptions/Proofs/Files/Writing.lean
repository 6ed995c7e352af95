import OpenCaptions.Files.Store
import OpenCaptions.Proofs.Steps

/-!
Files that are written. A file that could be written is there afterwards, under the same path and with the same
content.
-/
namespace OpenCaptions

theorem Text.Utf8.decode?_encode (s : String) : Text.Utf8.decode? (Text.Utf8.encode s) = some s := by
  simp only [Text.Utf8.decode?, Text.Utf8.encode, String.fromUTF8?, String.toUTF8_eq_toByteArray]
  exact dif_pos s.isValidUTF8

theorem FileM.run_attempt {ε : Type} (change : FileStore → Except ε FileStore) (files : FileStore) :
    (FileM.attempt change).run files = match change files with
      | .ok files' => (.ok (), files')
      | .error e => (.error e, files) := rfl

theorem FileM.attempt_eq_ok {ε : Type} {change : FileStore → Except ε FileStore} {files files' : FileStore} :
    (FileM.attempt change).run files = (.ok (), files') ↔ change files = .ok files' := by
  rw [FileM.run_attempt]
  cases change files with
  | error e => exact ⟨nofun, nofun⟩
  | ok written => exact ⟨fun h => congrArg Except.ok (Prod.mk.inj h).2, fun h => congrArg _ (Except.ok.inj h)⟩

namespace FileStore

open Failure

variable {store store' : FileStore} {place : Place} {entry : FileEntry} {path : String} {content : ByteArray}

private theorem lookup_filter_ne {other : Place} (hne : other ≠ place) (entries : List (Place × FileEntry)) :
    (entries.filter (·.1 ≠ place)).lookup other = entries.lookup other := by
  induction entries with
  | nil => rfl
  | cons first rest ih =>
    rw [List.filter_cons]
    by_cases hfirst : first.1 = place
    · rw [if_neg (by simpa using hfirst), ih, List.lookup_cons, beq_false_of_ne (hfirst ▸ hne)]
    · rw [if_pos (by simpa using hfirst), List.lookup_cons, List.lookup_cons, ih]

/-- What is put in a place is there, and all else is as before. -/
theorem entry?_put (hplace : place ≠ []) (other : Place) :
    FileStore.entry? (store.put place entry) other = if other = place then some entry else store.entry? other := by
  unfold entry?
  by_cases hother : other = place
  · rw [if_pos hother, if_neg (hother ▸ hplace), put, List.lookup_cons, hother, beq_self_eq_true]
  · rw [if_neg hother]
    split
    · rfl
    · rw [put, List.lookup_cons, beq_false_of_ne hother]
      exact lookup_filter_ne hother store.entries

theorem step_some_eq_ok_iff {here : Place} {piece : List Char} {next : Location} :
    store.step (some here) piece = .ok next ↔ store.entry? here = some .directory ∧
      (if Path.isSilent piece then next = some here
      else if piece = ['.', '.'] then next = if here = [] then none else some here.dropLast
      else ∃ name, nameOf piece = .ok name ∧ (store.entry? (here ++ [name])).isSome ∧ next = some (here ++ [name])) := by
  unfold step
  dsimp only
  cases hentry : store.entry? here with
  | none => simp [throw_ne_ok]
  | some entry =>
    cases entry with
    | file content => simp [throw_ne_ok]
    | directory =>
      simp only [true_and]
      split
      · rw [pure_eq_ok, eq_comm]
      · split
        · rw [pure_eq_ok, eq_comm]
        · rw [bind_eq_ok]
          refine exists_congr fun name => and_congr_right fun _ => ?_
          split
          · rename_i hsome
            rw [pure_eq_ok, eq_comm]
            simp [hsome]
          · rename_i hsome
            simp [hsome, throw_ne_ok]

private theorem isSome_entry?_put (hplace : place ≠ []) {other : Place} (h : (store.entry? other).isSome) :
    (FileStore.entry? (store.put place entry) other).isSome := by
  rw [entry?_put hplace]
  split
  · rfl
  · exact h

section Putting

variable (hplace : place ≠ []) (hfile : store.entry? place ≠ some .directory)
include hplace hfile

/-- Putting a file where no directory is blocks no way. -/
theorem step_put {here next : Location} {piece : List Char} (h : store.step here piece = .ok next) :
    (store.put place (.file content)).step here piece = .ok next := by
  cases here with
  | none => exact h
  | some here =>
    rw [step_some_eq_ok_iff] at h ⊢
    obtain ⟨hhere, hnext⟩ := h
    have hne : here ≠ place := fun heq => hfile (heq ▸ hhere)
    have hsame : FileStore.entry? (store.put place (.file content)) here = some .directory := by
      rw [entry?_put hplace, if_neg hne, hhere]
    refine ⟨hsame, ?_⟩
    split at hnext
    · rwa [if_pos ‹_›]
    · rw [if_neg ‹_›]
      split at hnext
      · rwa [if_pos ‹_›]
      · rw [if_neg ‹_›]
        obtain ⟨name, hname, hsome, rfl⟩ := hnext
        exact ⟨name, hname, isSome_entry?_put hplace hsome, rfl⟩

theorem foldlM_step_put {pieces : List (List Char)} {here next : Location}
    (h : pieces.foldlM store.step here = .ok next) :
    pieces.foldlM (store.put place (.file content)).step here = .ok next := by
  induction pieces generalizing here with
  | nil => exact h
  | cons piece pieces ih =>
    rw [List.foldlM_cons, bind_eq_ok] at h ⊢
    obtain ⟨between, hstep, hrest⟩ := h
    exact ⟨between, step_put hplace hfile hstep, ih hrest⟩

end Putting

private theorem exists_of_target_eq_ok {target : Place} (h : store.target path = .ok target) :
    ∃ before piece here name, piecesOf path = .ok (before ++ [piece]) ∧
      ¬ (Path.isSilent piece ∨ piece = ['.', '.']) ∧
      before.foldlM store.step (start (before ++ [piece])) = .ok (some here) ∧
      store.entry? here = some .directory ∧ nameOf piece = .ok name ∧ target = here ++ [name] ∧
      store.entry? target ≠ some .directory := by
  unfold FileStore.target at h
  rw [bind_eq_ok] at h
  obtain ⟨pieces, hpieces, h⟩ := h
  dsimp only at h
  rw [guard_eq_ok, bind_eq_ok] at h
  obtain ⟨hpiece, place, hwalk, h⟩ := h
  rcases List.eq_nil_or_concat pieces with rfl | ⟨before, piece, rfl⟩
  · exact absurd (.inl rfl) hpiece
  · rw [List.concat_eq_append] at hpieces
    simp only [List.concat_eq_append, List.getLast?_append, List.getLast?_singleton, Option.some_or, Option.getD_some,
      List.dropLast_concat] at hpiece hwalk h
    split at h
    · exact absurd h throw_ne_ok
    · rename_i here
      split at h
      · exact absurd h throw_ne_ok
      · exact absurd h throw_ne_ok
      · rename_i hdirectory
        rw [bind_eq_ok] at h
        obtain ⟨name, hname, h⟩ := h
        rw [guard_eq_ok, pure_eq_ok] at h
        obtain ⟨hfile, rfl⟩ := h
        exact ⟨before, piece, here, name, hpieces, hpiece, hwalk, hdirectory, hname, rfl, hfile⟩

/-- What was written is read. -/
theorem read_of_write (h : store.write path content = .ok store') : store'.read path = .ok content := by
  rw [write, bind_eq_ok] at h
  obtain ⟨target, htarget, hput⟩ := h
  rw [pure_eq_ok] at hput
  subst hput
  obtain ⟨before, piece, here, name, hpieces, hpiece, hwalk, hdirectory, hname, rfl, hfile⟩ :=
    exists_of_target_eq_ok htarget
  rw [not_or] at hpiece
  have hne : here ++ [name] ≠ [] := by simp
  have hcontent : FileStore.entry? (store.put (here ++ [name]) (.file content)) (here ++ [name]) = some (.file content) := by
    rw [entry?_put hne, if_pos rfl]
  have hhere : FileStore.entry? (store.put (here ++ [name]) (.file content)) here = some .directory := by
    rw [entry?_put hne, if_neg (by simp), hdirectory]
  have hstep : (store.put (here ++ [name]) (.file content)).step (some here) piece = .ok (some (here ++ [name])) := by
    rw [step_some_eq_ok_iff, if_neg hpiece.1, if_neg hpiece.2]
    exact ⟨hhere, name, hname, by rw [hcontent]; rfl, rfl⟩
  have hlocate : (store.put (here ++ [name]) (.file content)).locate path = .ok (some (here ++ [name])) := by
    rw [locate, bind_eq_ok]
    refine ⟨before ++ [piece], hpieces, ?_⟩
    rw [FileStore.walk, List.foldlM_append, bind_eq_ok]
    refine ⟨some here, foldlM_step_put hne hfile hwalk, ?_⟩
    rw [List.foldlM_cons, bind_eq_ok]
    exact ⟨_, hstep, rfl⟩
  rw [read, bind_eq_ok]
  exact ⟨some (here ++ [name]), hlocate, by dsimp only; rw [hcontent]; rfl⟩

theorem contains_of_read (h : store.read path = .ok content) : store.contains path = true := by
  rw [read, bind_eq_ok] at h
  obtain ⟨here, hlocate, -⟩ := h
  rw [contains, hlocate]
  rfl

theorem readText_of_writeText {text : String} (h : store.writeText path text = .ok store') :
    store'.readText path = .ok text := by
  rw [readText, bind_eq_ok]
  exact ⟨_, read_of_write h, by rw [Text.Utf8.decode?_encode]; rfl⟩

/-- Whether a text can be written does not depend on the text. -/
theorem outcome_writeText (store : FileStore) (path text text' : String) :
    ((FileM.attempt (·.writeText path text)).run store).1 = ((FileM.attempt (·.writeText path text')).run store).1 := by
  simp only [FileM.run_attempt, writeText, write]
  cases store.target path <;> rfl

theorem contains_of_readText {text : String} (h : store.readText path = .ok text) : store.contains path = true := by
  rw [readText, bind_eq_ok] at h
  obtain ⟨content, hread, -⟩ := h
  exact contains_of_read hread

end FileStore

end OpenCaptions
