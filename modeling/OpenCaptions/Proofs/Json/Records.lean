import OpenCaptions.Json.Record
import OpenCaptions.Proofs.Json.Rereading

/-!
Records in JSON. Where each field has one spelling, the slots of an object are what is found under the names. A record
that was printed has the slots of its members, and its leaves are read back.
-/
namespace OpenCaptions.Json

variable {β : Type} {names : List String} {found : String → Option β} {name : String} {value : β}

def single (names : List String) : List FieldNames := names.map ([·])

private theorem findIdx?_single (name : String) (names : List String) :
    (single names).findIdx? (name ∈ ·) = names.findIdx? (name = ·) := by
  rw [single, List.findIdx?_map]
  congr 1
  funext other
  simp

private theorem fillSlot_single (hnodup : names.Nodup) (hfree : found name = none) :
    fillSlot (single names) (names.map found) name value =
      some (names.map (Function.update found name (some value))) := by
  rw [fillSlot, findIdx?_single]
  cases hi : names.findIdx? (name = ·) with
  | none =>
    have hne : ∀ other ∈ names, other ≠ name := by
      simpa [eq_comm] using List.findIdx?_eq_none_iff.1 hi
    have hsame : names.map found = names.map (Function.update found name (some value)) :=
      List.map_congr_left fun other hother => (Function.update_of_ne (hne other hother) _ _).symm
    exact congrArg some hsame
  | some i =>
    obtain ⟨hlt, hname, -⟩ := List.findIdx?_eq_some_iff_getElem.1 hi
    obtain rfl : name = names[i] := by simpa using hname
    have hslot : (names.map found)[i]? = some none := by simp [hlt, hfree]
    have hset : (names.map found).set i (some value) = names.map (Function.update found names[i] (some value)) := by
      refine List.ext_getElem (by simp) fun j hj hj' => ?_
      simp only [List.getElem_set, List.getElem_map, Function.update_apply, hnodup.getElem_inj_iff, eq_comm]
    simp only [hslot, hset]

/-- The slots of an object are what is found under the names. -/
theorem slotsOfMembers?_single (hnodup : names.Nodup) {members : List (String × β)}
    (hmembers : (members.map (·.1)).Nodup) :
    slotsOfMembers? (single names) members = some (names.map (members.lookup ·)) := by
  suffices h : ∀ found : String → Option β, (∀ member ∈ members, found member.1 = none) →
      members.foldlM (fun slots member => fillSlot (single names) slots member.1 member.2) (names.map found) =
        some (names.map fun name => (found name).or (members.lookup name)) by
    have hempty : (single names).map (fun _ => (none : Option β)) = names.map fun _ => none := List.map_map
    rw [slotsOfMembers?, hempty]
    simpa using h (fun _ => none) fun _ _ => rfl
  induction members with
  | nil => simp
  | cons member members ih =>
    intro found hfree
    rw [List.forall_mem_cons] at hfree
    rw [List.map_cons, List.nodup_cons] at hmembers
    have hrest : ∀ other ∈ members, Function.update found member.1 (some member.2) other.1 = none := by
      intro other hother
      have hne : other.1 ≠ member.1 := fun heq => hmembers.1 (heq ▸ List.mem_map_of_mem (f := (·.1)) hother)
      rw [Function.update_of_ne hne]
      exact hfree.2 other hother
    rw [List.foldlM_cons, fillSlot_single hnodup hfree.1, Option.bind_eq_bind, Option.bind_some, ih hmembers.2 _ hrest]
    congr 1
    refine List.map_congr_left fun name _ => ?_
    rw [Entries.lookup_cons, Function.update_apply]
    by_cases hname : name = member.1
    · rw [if_pos hname, if_pos hname, hname, hfree.1]
      rfl
    · rw [if_neg hname, if_neg hname]

/-- The slots of an object's structure are those of the structures of its members. -/
theorem slots?_toTree (fields : List FieldNames) (least : Nat) (members : List (String × Json)) :
    (object members).toTree.slots? .text fields least =
      slotsOfMembers? fields (members.map fun member => (member.1, member.2.toTree)) := by
  have hnames : (memberTrees members).mapM (fun member => do return (← Charset.text.string? member.1, member.2)) =
      some (members.map fun member => (member.1, member.2.toTree)) := by
    induction members with
    | nil => rfl
    | cons member members ih =>
      rw [memberTrees, List.mapM_cons, ih, string?_escaped]
      rfl
  exact congrArg (· >>= slotsOfMembers? fields) hnames

theorem leaf?_toTree {value : Json} (h : Readable deepest value) (read : Json → Option β) :
    Tree.leaf? .text read value.toTree = read value := by
  rw [Tree.leaf?, value?_toTree h]
  rfl

def rename (old new : String) : Json → Json
  | object members => object (members.map fun member => (if member.1 = old then new else member.1, member.2))
  | value => value

theorem Printable.rename {value : Json} (h : Printable value) (old new : String) :
    Printable (value.rename old new) := by
  cases h with
  | object h => exact .object (List.forall_mem_map.2 h)
  | null => exact .null
  | bool b => exact .bool b
  | nat n => exact .nat n
  | negative n => exact .negative n
  | float h => exact .float h
  | string s => exact .string s
  | array h => exact .array h

end OpenCaptions.Json
