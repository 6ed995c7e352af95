/-!
Tables from names to values. The entries are kept in ascending order of their names, so two tables with
the same look-ups are equal.
-/
namespace OpenCaptions

namespace Entries

variable {β : Type}

/-- Puts an entry in its place; an entry of the same name is replaced. -/
def insert (name : String) (value : β) : List (String × β) → List (String × β)
  | [] => [(name, value)]
  | entry :: rest =>
    if name < entry.1 then (name, value) :: entry :: rest
    else if name = entry.1 then (name, value) :: rest
    else entry :: insert name value rest

theorem mem_insert {name : String} {value : β} {entries : List (String × β)} {entry : String × β}
    (h : entry ∈ insert name value entries) : entry = (name, value) ∨ entry ∈ entries := by
  induction entries with
  | nil => simpa [insert] using h
  | cons first rest ih =>
    unfold insert at h
    split at h
    · simpa using h
    · split at h
      · rcases List.mem_cons.1 h with h | h
        · exact .inl h
        · exact .inr (List.mem_cons_of_mem _ h)
      · rcases List.mem_cons.1 h with h | h
        · exact .inr (h ▸ List.mem_cons_self)
        · exact (ih h).imp id (List.mem_cons_of_mem _)

theorem sorted_insert (name : String) (value : β) {entries : List (String × β)}
    (h : entries.Pairwise (·.1 < ·.1)) : (insert name value entries).Pairwise (·.1 < ·.1) := by
  induction entries with
  | nil => simp [insert]
  | cons first rest ih =>
    have ⟨below, tail⟩ := List.pairwise_cons.1 h
    unfold insert
    split
    · rename_i hlt
      refine List.pairwise_cons.2 ⟨fun entry he => ?_, h⟩
      rcases List.mem_cons.1 he with rfl | he
      · exact hlt
      · exact String.lt_trans hlt (below entry he)
    · split
      · rename_i heq
        exact List.pairwise_cons.2 ⟨fun entry he => heq ▸ below entry he, tail⟩
      · rename_i hlt hne
        refine List.pairwise_cons.2 ⟨fun entry he => ?_, ih tail⟩
        rcases mem_insert he with rfl | he
        · exact Std.lt_of_le_of_ne (String.not_lt.1 hlt) (Ne.symm hne)
        · exact below entry he

end Entries

/-- Entries in ascending order of their names. -/
structure Table (β : Type) where
  entries : List (String × β)
  sorted : entries.Pairwise (·.1 < ·.1)

namespace Table

variable {β γ : Type}

def empty : Table β := ⟨[], .nil⟩

instance : EmptyCollection (Table β) := ⟨empty⟩

instance : Inhabited (Table β) := ⟨empty⟩

def get? (t : Table β) (name : String) : Option β := t.entries.lookup name

def contains (t : Table β) (name : String) : Bool := (t.get? name).isSome

def insert (t : Table β) (name : String) (value : β) : Table β :=
  ⟨Entries.insert name value t.entries, Entries.sorted_insert name value t.sorted⟩

def erase (t : Table β) (name : String) : Table β :=
  ⟨t.entries.filter (·.1 ≠ name), t.sorted.filter _⟩

/-- Of several values for one name the last counts. -/
def ofList (entries : List (String × β)) : Table β :=
  entries.foldl (fun t entry => t.insert entry.1 entry.2) empty

def names (t : Table β) : List String := t.entries.map (·.1)

def size (t : Table β) : Nat := t.entries.length

def map (f : β → γ) (t : Table β) : Table γ :=
  ⟨t.entries.map fun entry => (entry.1, f entry.2), t.sorted.map _ fun _ _ h => h⟩

def union (onto t : Table β) : Table β :=
  t.entries.foldl (fun whole entry => whole.insert entry.1 entry.2) onto

end Table
end OpenCaptions
