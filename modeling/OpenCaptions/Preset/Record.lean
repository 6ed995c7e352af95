import OpenCaptions.Preset.Basic
import OpenCaptions.Json.Record

/-!
Presets in JSON. Absent fields take their defaults; sizes may be any numbers and are rounded and clamped.
-/
namespace OpenCaptions.Preset

def fields : List Json.FieldNames :=
  [["font"], ["size"], ["color"], ["x"], ["y"], ["animation"], ["background"], ["bgColor"],
    ["bgOpacity"], ["outline"], ["outlineColor"], ["outlineSize"]]

def clampedNat? (limit : Nat) (value : Json) : Option Nat :=
  value.float?.map fun x => Number.nearestNat x limit

/-- Reads a kind of animation: its name, or an object with the name and nothing else. -/
def animation? : Json → Option Animation
  | .string name => some (.ofName name)
  | .object [(name, .null)] => some (.ofName name)
  | _ => none

def ofJson? (value : Json) : Option Preset := do
  let [font, size, color, x, y, animation, background, backgroundColor, backgroundOpacity, outline,
    outlineColor, outlineSize] ← Json.slots? fields 0 value | none
  let d : Preset := {}
  return {
    font := ← Json.optional? Json.string? d.font font
    size := ← Json.optional? (clampedNat? (word32 - 1)) d.size size
    color := ← Json.optional? Json.string? d.color color
    x := ← Json.optional? Json.string? d.x x
    y := ← Json.optional? Json.string? d.y y
    animation := ← Json.optional? animation? d.animation animation
    background := ← Json.optional? Json.bool? d.background background
    backgroundColor := ← Json.optional? Json.string? d.backgroundColor backgroundColor
    backgroundOpacity := ← Json.optional? (clampedNat? 100) d.backgroundOpacity backgroundOpacity
    outline := ← Json.optional? Json.bool? d.outline outline
    outlineColor := ← Json.optional? Json.string? d.outlineColor outlineColor
    outlineSize := ← Json.optional? (clampedNat? (word32 - 1)) d.outlineSize outlineSize }

def toMembers (p : Preset) : List (String × Json) :=
  [("font", .string p.font), ("size", .nat p.size), ("color", .string p.color), ("x", .string p.x),
    ("y", .string p.y), ("animation", .string p.animation.name), ("background", .bool p.background),
    ("bgColor", .string p.backgroundColor), ("bgOpacity", .nat p.backgroundOpacity),
    ("outline", .bool p.outline), ("outlineColor", .string p.outlineColor),
    ("outlineSize", .nat p.outlineSize)]

def toJson (p : Preset) : Json := .object (Table.ofList p.toMembers).entries

end OpenCaptions.Preset
