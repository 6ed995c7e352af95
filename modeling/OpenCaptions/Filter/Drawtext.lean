import OpenCaptions.Filter.Operation
import OpenCaptions.Filter.Escape
import OpenCaptions.Preset.Style

/-!
The filters that draw one caption: passes for the outline, then the text itself. Where the animation
cannot be computed, a plain filter takes their place.
-/
namespace OpenCaptions

variable {α : Type}

/-- Why a caption is drawn plainly. -/
inductive DrawError (α : Type) where
  | timing (e : CaptionError α)
  | badFade (fade : α)
deriving DecidableEq, Repr

def DrawError.message [Written α] : DrawError α → String
  | timing e => e.message
  | badFade fade =>
    "fade duration " ++ String.ofList (Written.text fade) ++ " is not a finite, non-negative number"

/-- The filters of a caption, and why they are the plain ones if they are. -/
structure Drawing (α : Type) where
  operations : List (Operation α)
  degraded : Option (DrawError α)
deriving DecidableEq, Repr

namespace Drawtext

def textOption (text : String) : String × OptionValue α :=
  ("text", .quoted (String.ofList (Filter.escape text.toList)))

def fontOption : FontChoice → String × OptionValue α
  | .file path _ => ("fontfile", .quoted path)
  | .standard name => ("font", .quoted name)

def plain (c : Caption α) (style : Style α) : Operation α :=
  ⟨"drawtext", [textOption c.text, ("font", .quoted defaultFont), ("fontsize", .number style.size),
    ("fontcolor", .word style.color), ("x", .formula style.x), ("y", .formula style.y)]⟩

/-- One pass in a color at a place, with options before the opacity. -/
def pass (c : Caption α) (style : Style α) (color : String) (x y : Expr α)
    (box : List (String × OptionValue α)) (opacity : Expr α) : Operation α :=
  ⟨"drawtext", [textOption c.text, fontOption style.font, ("fontsize", .number style.size),
    ("fontcolor", .word color), ("x", .formula x), ("y", .formula y)] ++ box ++
    [("alpha", .formula opacity)]⟩

variable [Scalar α]

def offset (e : Expr α) (distance : α) : Expr α :=
  if Scalar.lt distance (Scalar.ofNat 0) then .sub e (.number (-distance))
  else .add e (.number distance)

def corners (size : Nat) : List (α × α) :=
  let s : α := Scalar.ofNat size
  [(-s, -s), (s, -s), (-s, s), (s, s)]

/-- Padding of the box behind the text, in pixels. -/
def boxPadding : Nat := 10

def boxOptions : Option (BoxStyle α) → List (String × OptionValue α)
  | some box =>
    [("box", .number 1), ("boxcolor", .tint box.color box.opacity), ("boxborderw", .number boxPadding)]
  | none => []

def outlinePasses (c : Caption α) (style : Style α) (y opacity : Expr α) : List (Operation α) :=
  match style.outline with
  | some outline => (corners outline.size).map fun (dx, dy) =>
      pass c style outline.color (offset style.x dx) (offset y dy) [] opacity
  | none => []

def animated (c : Caption α) (style : Style α) (fade : α) :
    Except (DrawError α) (List (Operation α)) := do
  if !Scalar.isFinite fade || Scalar.lt fade (Scalar.ofNat 0) then throw (.badFade fade)
  let timing ← (c.timing style.animation style.y fade).mapError .timing
  let y := timing.position.getD style.y
  return outlinePasses c style y timing.opacity ++
    [pass c style style.color style.x y (boxOptions style.background) timing.opacity]

end Drawtext

/-- The filters that draw a caption; there is always at least one. -/
def Caption.draw [Scalar α] (c : Caption α) (style : Style α) (fade : α) : Drawing α :=
  match Drawtext.animated c style fade with
  | .ok operations => ⟨operations, none⟩
  | .error e => ⟨[Drawtext.plain c style], some e⟩

end OpenCaptions
