import OpenCaptions.Preset.Record
import OpenCaptions.Proofs.Json.Records
import OpenCaptions.Proofs.Json.Rereading
import OpenCaptions.Proofs.Number.Clamping

/-!
Presets in JSON. What is read is within the ranges that files keep, and a preset within them is written as a record
that is read as the same preset.
-/
namespace OpenCaptions

theorem Animation.ofName_name (animation : Animation) : Animation.ofName animation.name = animation := by
  cases animation <;> rfl

namespace Preset

structure InRange (p : Preset) : Prop where
  size_lt : p.size < word32
  opacity_lt : p.backgroundOpacity < 256
  outlineSize_lt : p.outlineSize < word32

/-- Sizes and a percentage as files keep them. -/
structure IsStored (p : Preset) : Prop extends p.InRange where
  opacity_le : p.backgroundOpacity ≤ 100

variable {p : Preset}

def names : List String :=
  ["font", "size", "color", "x", "y", "animation", "background", "bgColor", "bgOpacity", "outline", "outlineColor",
    "outlineSize"]

theorem slots?_toJson (p : Preset) : Json.slots? fields 0 p.toJson = some (p.toMembers.map fun member => some member.2) := by
  have hnames : names.Nodup := by decide
  have hnodup : (p.toMembers.map (·.1)).Nodup := hnames
  have hslots := Json.slotsOfMembers?_single hnames (Entries.nodup_names (Table.ofList p.toMembers).sorted)
  have hfound : names.map ((Table.ofList p.toMembers).entries.lookup ·) = p.toMembers.map fun member => some member.2 :=
    (List.map_congr_left fun name _ => Table.get?_ofList hnodup name).trans rfl
  rw [hfound] at hslots
  exact hslots

private theorem clampedNat?_nat {n limit : Nat} (hn : n < word32) (h : n ≤ limit) :
    clampedNat? limit (.nat n) = some n := by
  have hnearest := Number.nearestNat_nearest (hn.trans (by decide)) limit
  rw [Nat.min_eq_left h] at hnearest
  exact congrArg some hnearest

/-- A stored preset is read back. -/
theorem ofJson?_toJson (h : p.IsStored) : ofJson? p.toJson = some p := by
  have hsize := clampedNat?_nat h.size_lt (Nat.le_sub_one_of_lt h.size_lt)
  have hopacity := clampedNat?_nat (Nat.lt_of_le_of_lt h.opacity_le (by decide)) h.opacity_le
  have houtline := clampedNat?_nat h.outlineSize_lt (Nat.le_sub_one_of_lt h.outlineSize_lt)
  rw [ofJson?, slots?_toJson, Option.bind_eq_bind, Option.bind_some]
  refine Option.bind_eq_some_iff.2 ⟨p.font, rfl, ?_⟩
  refine Option.bind_eq_some_iff.2 ⟨p.size, hsize, ?_⟩
  refine Option.bind_eq_some_iff.2 ⟨p.color, rfl, ?_⟩
  refine Option.bind_eq_some_iff.2 ⟨p.x, rfl, ?_⟩
  refine Option.bind_eq_some_iff.2 ⟨p.y, rfl, ?_⟩
  refine Option.bind_eq_some_iff.2 ⟨p.animation, congrArg some p.animation.ofName_name, ?_⟩
  refine Option.bind_eq_some_iff.2 ⟨p.background, rfl, ?_⟩
  refine Option.bind_eq_some_iff.2 ⟨p.backgroundColor, rfl, ?_⟩
  refine Option.bind_eq_some_iff.2 ⟨p.backgroundOpacity, hopacity, ?_⟩
  refine Option.bind_eq_some_iff.2 ⟨p.outline, rfl, ?_⟩
  refine Option.bind_eq_some_iff.2 ⟨p.outlineColor, rfl, ?_⟩
  exact Option.bind_eq_some_iff.2 ⟨p.outlineSize, houtline, rfl⟩

private theorem optional?_clampedNat?_le {limit default n : Nat} (hdefault : default ≤ limit) {slot : Option Json}
    (h : Json.optional? (clampedNat? limit) default slot = some n) : n ≤ limit := by
  cases slot with
  | none =>
    cases h
    exact hdefault
  | some value =>
    obtain ⟨x, -, rfl⟩ := Option.map_eq_some_iff.1 h
    exact Number.nearestNat_le x limit

/-- Whatever is read is within the ranges. -/
theorem isStored_of_ofJson? {value : Json} (h : ofJson? value = some p) : p.IsStored := by
  obtain ⟨slots, -, h⟩ := Option.bind_eq_some_iff.1 h
  split at h
  · obtain ⟨font, -, h⟩ := Option.bind_eq_some_iff.1 h
    obtain ⟨size, hsize, h⟩ := Option.bind_eq_some_iff.1 h
    obtain ⟨color, -, h⟩ := Option.bind_eq_some_iff.1 h
    obtain ⟨x, -, h⟩ := Option.bind_eq_some_iff.1 h
    obtain ⟨y, -, h⟩ := Option.bind_eq_some_iff.1 h
    obtain ⟨animation, -, h⟩ := Option.bind_eq_some_iff.1 h
    obtain ⟨background, -, h⟩ := Option.bind_eq_some_iff.1 h
    obtain ⟨backgroundColor, -, h⟩ := Option.bind_eq_some_iff.1 h
    obtain ⟨opacity, hopacity, h⟩ := Option.bind_eq_some_iff.1 h
    obtain ⟨outline, -, h⟩ := Option.bind_eq_some_iff.1 h
    obtain ⟨outlineColor, -, h⟩ := Option.bind_eq_some_iff.1 h
    obtain ⟨outlineSize, houtline, h⟩ := Option.bind_eq_some_iff.1 h
    cases h
    have hsize := optional?_clampedNat?_le (by decide) hsize
    have hopacity := optional?_clampedNat?_le (by decide) hopacity
    have houtline := optional?_clampedNat?_le (by decide) houtline
    exact ⟨⟨Nat.lt_of_le_of_lt hsize (by decide), Nat.lt_of_le_of_lt hopacity (by decide),
      Nat.lt_of_le_of_lt houtline (by decide)⟩, hopacity⟩
  · cases h

theorem readable_toJson (h : p.InRange) (levels : Nat) : Json.Readable (levels + 1) p.toJson := by
  have hmembers : ∀ member ∈ p.toMembers, Json.Readable levels member.2 := by
    simp only [toMembers, List.forall_mem_cons, List.not_mem_nil, false_implies, implies_true, and_true]
    exact ⟨.string _, .nat (h.size_lt.trans (by decide)), .string _, .string _, .string _, .string _, .bool _, .string _,
      .nat (h.opacity_lt.trans (by decide)), .bool _, .string _, .nat (h.outlineSize_lt.trans (by decide))⟩
  exact .object (Table.ofList p.toMembers).sorted fun member hmember => hmembers member (Table.mem_of_mem_ofList hmember)

theorem isStored_builtin {id : String} (h : builtin.get? id = some p) : p.IsStored := by
  have hmem := Table.mem_of_mem_ofList (Entries.mem_of_lookup h)
  simp only [List.mem_cons, Prod.mk.injEq, List.not_mem_nil, or_false] at hmem
  rcases hmem with ⟨-, rfl⟩ | ⟨-, rfl⟩ | ⟨-, rfl⟩ <;> exact ⟨⟨by decide, by decide, by decide⟩, by decide⟩

end Preset

end OpenCaptions
