import OpenCaptions.Json.Tree

/-!
Records in JSON. A record is an object with known names, of which other names are skipped and no known
one may come twice, or an array with the fields in their declared order.
-/
namespace OpenCaptions.Json

/-- The spellings of one field. -/
abbrev FieldNames := List String

/-- The values found for each field, in declared order. -/
abbrev Slots (β : Type) := List (Option β)

/-- Fills the slot of the field with this name, if there is one and it is free. -/
def fillSlot {β : Type} (fields : List FieldNames) (slots : Slots β) (name : String) (value : β) :
    Option (Slots β) :=
  match fields.findIdx? (name ∈ ·) with
  | none => some slots
  | some i =>
    match slots[i]? with
    | some none => some (slots.set i (some value))
    | _ => none

/-- Slots of a record written as an object. -/
def slotsOfMembers? {β : Type} (fields : List FieldNames) (members : List (String × β)) :
    Option (Slots β) :=
  members.foldlM (fun slots (name, value) => fillSlot fields slots name value)
    (fields.map fun _ => none)

def slotsOfItems? {β : Type} (fields : List FieldNames) (least : Nat) (items : List β) :
    Option (Slots β) :=
  if items.length < least ∨ fields.length < items.length then none
  else some (items.map some ++ List.replicate (fields.length - items.length) none)

def Tree.slots? (charset : Charset) (fields : List FieldNames) (least : Nat) :
    Tree → Option (Slots Tree)
  | .object members => do
    let named ← members.mapM fun (raw, member) => do return (← charset.string? raw, member)
    slotsOfMembers? fields named
  | .array items => slotsOfItems? fields least items
  | _ => none

def slots? (fields : List FieldNames) (least : Nat) : Json → Option (Slots Json)
  | .object members => slotsOfMembers? fields members
  | .array items => slotsOfItems? fields least items
  | _ => none

def Tree.leaf? {β : Type} (charset : Charset) (read : Json → Option β) (tree : Tree) : Option β := do
  read (← tree.value? charset deepest)

def required? {β γ : Type} (read : β → Option γ) : Option β → Option γ
  | some value => read value
  | none => none

def optional? {β γ : Type} (read : β → Option γ) (default : γ) : Option β → Option γ
  | some value => read value
  | none => some default

end OpenCaptions.Json
