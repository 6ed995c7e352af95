import Mathlib
import OpenCaptions.Table

/-!
Tables by what they have for each name. Every operation is a plain change of the look-ups, and two tables with the
same look-ups are the same.
-/
namespace OpenCaptions

namespace Entries

variable {β : Type} {entries entries' : List (String × β)} {name : String} {value : β}

theorem lookup_cons (name : String) (entry : String × β) (rest : List (String × β)) :
    (entry :: rest).lookup name = if name = entry.1 then some entry.2 else rest.lookup name := by
  rw [List.lookup_cons]
  by_cases h : name = entry.1
  · rw [if_pos h, beq_iff_eq.2 h]
  · rw [if_neg h, beq_false_of_ne h]

theorem lookup_insert (name : String) (value : β) (entries : List (String × β)) (other : String) :
    (insert name value entries).lookup other = if other = name then some value else entries.lookup other := by
  induction entries with
  | nil => rw [insert, lookup_cons]
  | cons first rest ih =>
    unfold insert
    split
    · rw [lookup_cons]
    · split
      · rename_i heq
        subst heq
        rw [lookup_cons, lookup_cons]
        split <;> rfl
      · rename_i hne
        rw [lookup_cons, lookup_cons, ih]
        by_cases hfirst : other = first.1
        · have hother : other ≠ name := fun h => hne (h ▸ hfirst)
          rw [if_pos hfirst, if_neg hother, if_pos hfirst]
        · rw [if_neg hfirst, if_neg hfirst]

theorem mem_of_lookup (h : entries.lookup name = some value) : (name, value) ∈ entries := by
  obtain ⟨before, after, heq, -⟩ := List.lookup_eq_some_iff.1 h
  rw [heq]
  exact List.mem_append_right _ List.mem_cons_self

theorem lookup_eq_none (h : name ∉ entries.map (·.1)) : entries.lookup name = none := by
  rw [Option.eq_none_iff_forall_not_mem]
  exact fun value hvalue => h (List.mem_map_of_mem (f := (·.1)) (mem_of_lookup hvalue))

/-- In order of their names, an entry is found under its name. -/
theorem lookup_eq_some_iff (hs : entries.Pairwise (·.1 < ·.1)) :
    entries.lookup name = some value ↔ (name, value) ∈ entries := by
  refine ⟨mem_of_lookup, fun h => ?_⟩
  induction entries with
  | nil => cases h
  | cons first rest ih =>
    obtain ⟨habove, hrest⟩ := List.pairwise_cons.1 hs
    rw [lookup_cons]
    rcases List.mem_cons.1 h with rfl | h
    · exact if_pos rfl
    · rw [if_neg (fun heq => String.lt_irrefl _ (heq ▸ habove _ h)), ih hrest h]

theorem nodup_names (hs : entries.Pairwise (·.1 < ·.1)) : (entries.map (·.1)).Nodup := by
  rw [List.Nodup, List.pairwise_map]
  exact hs.imp fun {a b} hlt (heq : a.1 = b.1) => String.lt_irrefl b.1 (heq ▸ hlt)

/-- Entries in order of their names are determined by what is found. -/
theorem eq_of_lookup (hs : entries.Pairwise (·.1 < ·.1)) (hs' : entries'.Pairwise (·.1 < ·.1))
    (h : ∀ name, entries.lookup name = entries'.lookup name) : entries = entries' := by
  have hmem (entry : String × β) : entry ∈ entries ↔ entry ∈ entries' := by
    rw [← Prod.mk.eta (p := entry), ← lookup_eq_some_iff hs, ← lookup_eq_some_iff hs', h]
  have hnodup {l : List (String × β)} (hl : l.Pairwise (·.1 < ·.1)) : l.Nodup :=
    hl.imp fun {a b} hlt (heq : a = b) => String.lt_irrefl b.1 (heq ▸ hlt)
  have hperm : entries.Perm entries' := (List.perm_ext_iff_of_nodup (hnodup hs) (hnodup hs')).2 hmem
  exact hperm.eq_of_pairwise (fun _ _ _ _ hab hba => absurd (String.lt_trans hab hba) (String.lt_irrefl _)) hs hs'

end Entries

namespace Table

variable {β γ : Type} {t u : Table β} {name other : String}

theorem ext_get? (h : ∀ name, t.get? name = u.get? name) : t = u := by
  obtain ⟨entries, hs⟩ := t
  obtain ⟨entries', hs'⟩ := u
  obtain rfl := Entries.eq_of_lookup hs hs' h
  rfl

@[simp] theorem get?_empty (name : String) : (∅ : Table β).get? name = none := rfl

theorem contains_iff : t.contains name = true ↔ ∃ value, t.get? name = some value := Option.isSome_iff_exists

theorem get?_insert (t : Table β) (name : String) (value : β) (other : String) :
    (t.insert name value).get? other = if other = name then some value else t.get? other :=
  Entries.lookup_insert name value t.entries other

theorem get?_erase (t : Table β) (name other : String) :
    (t.erase name).get? other = if other = name then none else t.get? other := by
  obtain ⟨entries, hs⟩ := t
  change (entries.filter (·.1 ≠ name)).lookup other = if other = name then none else entries.lookup other
  clear hs
  induction entries with
  | nil => simp
  | cons first rest ih =>
    rw [List.filter_cons]
    by_cases hfirst : first.1 = name
    · rw [if_neg (by simpa using hfirst), ih, Entries.lookup_cons, hfirst]
      split <;> rfl
    · rw [if_pos (by simpa using hfirst), Entries.lookup_cons, Entries.lookup_cons, ih]
      by_cases hother : other = first.1
      · rw [if_pos hother, if_neg (hother ▸ hfirst), if_pos hother]
      · rw [if_neg hother, if_neg hother]

theorem get?_insert_eq_update (t : Table β) (name : String) (value : β) :
    (t.insert name value).get? = Function.update t.get? name (some value) := by
  funext other
  rw [get?_insert, Function.update_apply]

theorem get?_erase_eq_update (t : Table β) (name : String) :
    (t.erase name).get? = Function.update t.get? name none := by
  funext other
  rw [get?_erase, Function.update_apply]

theorem insert_eq_self_iff {t : Table β} {name : String} {value : β} :
    t.insert name value = t ↔ t.get? name = some value := by
  constructor
  · intro h
    rw [← h, get?_insert, if_pos rfl]
  · intro h
    refine ext_get? fun other => ?_
    rw [get?_insert]
    split
    · rename_i hother
      rw [hother, h]
    · rfl

theorem get?_map (f : β → γ) (t : Table β) (name : String) : (t.map f).get? name = (t.get? name).map f := by
  obtain ⟨entries, hs⟩ := t
  change (entries.map fun entry => (entry.1, f entry.2)).lookup name = (entries.lookup name).map f
  clear hs
  induction entries with
  | nil => rfl
  | cons first rest ih =>
    rw [List.map_cons, Entries.lookup_cons, Entries.lookup_cons, ih]
    split <;> rfl

/-- Entries of different names that are put in one after the other are all found. -/
theorem get?_foldl_insert (t : Table β) {entries : List (String × β)} (hne : (entries.map (·.1)).Nodup)
    (name : String) :
    (entries.foldl (fun t entry => t.insert entry.1 entry.2) t).get? name =
      (entries.lookup name).or (t.get? name) := by
  induction entries generalizing t with
  | nil => rfl
  | cons first rest ih =>
    rw [List.map_cons, List.nodup_cons] at hne
    rw [List.foldl_cons, ih _ hne.2, get?_insert, Entries.lookup_cons]
    by_cases hname : name = first.1
    · rw [if_pos hname, if_pos hname, hname, Entries.lookup_eq_none hne.1]
      rfl
    · rw [if_neg hname, if_neg hname]

theorem get?_ofList {entries : List (String × β)} (hne : (entries.map (·.1)).Nodup) (name : String) :
    (ofList entries).get? name = entries.lookup name :=
  (get?_foldl_insert _ hne name).trans Option.or_none

theorem get?_union (onto t : Table β) (name : String) : (onto.union t).get? name = (t.get? name).or (onto.get? name) :=
  get?_foldl_insert onto (Entries.nodup_names t.sorted) name

private theorem mem_of_mem_foldl_insert {t : Table β} {entries : List (String × β)} {entry : String × β}
    (h : entry ∈ (entries.foldl (fun t entry => t.insert entry.1 entry.2) t).entries) :
    entry ∈ entries ∨ entry ∈ t.entries := by
  induction entries generalizing t with
  | nil => exact .inr h
  | cons first rest ih =>
    rcases ih h with h | h
    · exact .inl (List.mem_cons_of_mem _ h)
    · rcases Entries.mem_insert h with rfl | h
      · exact .inl List.mem_cons_self
      · exact .inr h

theorem mem_of_mem_ofList {entries : List (String × β)} {entry : String × β} (h : entry ∈ (ofList entries).entries) :
    entry ∈ entries :=
  (mem_of_mem_foldl_insert h).resolve_right List.not_mem_nil

/-- Entries that are in order already stay as they are. -/
theorem entries_ofList {entries : List (String × β)} (hs : entries.Pairwise (·.1 < ·.1)) :
    (ofList entries).entries = entries := by
  exact Entries.eq_of_lookup (ofList entries).sorted hs (get?_ofList (Entries.nodup_names hs))

end Table

end OpenCaptions
