import OpenCaptions.Filter.Operation
import OpenCaptions.Text.Blank
import OpenCaptions.Text.Quoted

/-!
Conversion to another aspect ratio. The converted frame has about as many pixels as the source, even
sides, and sides between fixed limits.
-/
namespace OpenCaptions

def leastWidth : Nat := 320

def leastHeight : Nat := 180

def largestSide : Nat := 16384

/-- Ratios lie between this number and its inverse. -/
def largestRatio : Nat := 100

/-- How a frame is fitted to another ratio: padded with black, or filled and cropped. -/
inductive ScaleMode where
  | contain | cover
deriving DecidableEq, Repr, Inhabited

/-- Reads a name in letters of any case; an error shows it in small ones. -/
def ScaleMode.ofName (name : String) : Except String ScaleMode :=
  let lower := name.toList.map Char.toLower
  if lower = "contain".toList then .ok contain
  else if lower = "cover".toList then .ok cover
  else .error ("unknown scale mode " ++ String.ofList (Text.quoted lower) ++
    " (expected contain or cover)")

structure AspectRatio (α : Type) where
  width : α
  height : α
deriving DecidableEq, Repr

inductive AspectError where
  | noColon (source : List Char)
  | badComponent (source component : List Char)
  | outOfRange (source : List Char)
deriving DecidableEq, Repr

def AspectError.message : AspectError → String
  | noColon source => "aspect ratio " ++ String.ofList (Text.quoted source) ++ " is not of the form W:H"
  | badComponent source component =>
    "aspect ratio " ++ String.ofList (Text.quoted source) ++ " has an invalid component " ++
      String.ofList (Text.quoted component)
  | outOfRange source =>
    "aspect ratio " ++ String.ofList (Text.quoted source) ++ " is outside 1:" ++ toString largestRatio ++
      " to " ++ toString largestRatio ++ ":1"

/-- A conversion that would need too large a frame. -/
structure FrameError (α : Type) where
  source : Nat × Nat
  aspect : AspectRatio α
  width : α
  height : α
deriving DecidableEq, Repr

def FrameError.message {α : Type} [Written α] (e : FrameError α) : String :=
  let text (a : α) := String.ofList (Written.text a)
  "converting " ++ toString e.source.1 ++ "x" ++ toString e.source.2 ++ " to " ++ text e.aspect.width ++
    ":" ++ text e.aspect.height ++ " needs a " ++ text e.width ++ "x" ++ text e.height ++
    " frame, larger than " ++ toString largestSide

namespace AspectRatio

variable {α : Type} [Scalar α]

def ratio (aspect : AspectRatio α) : α := aspect.width / aspect.height

def isAllowed (ratio : α) : Bool :=
  Scalar.le (Scalar.ofNat 1 / Scalar.ofNat largestRatio) ratio &&
    Scalar.le ratio (Scalar.ofNat largestRatio)

def component [Written α] (source text : List Char) : Except AspectError α :=
  match Written.read? (Text.trim text) with
  | some value =>
    if Scalar.isFinite value && Scalar.lt (Scalar.ofNat 0) value then .ok value
    else .error (.badComponent source text)
  | none => .error (.badComponent source text)

def parse [Written α] (source : List Char) : Except AspectError (AspectRatio α) := do
  match Text.splitOnce? ':' source with
  | none => throw (.noColon source)
  | some (width, height) =>
    let aspect : AspectRatio α := ⟨← component source width, ← component source height⟩
    if isAllowed aspect.ratio then return aspect else throw (.outOfRange source)

/-- The least even number that is at least two and not below `side`, up to a rounding error. -/
def evenSide (side : α) : α :=
  let two : α := Scalar.ofNat 2
  two * Scalar.ceil (Scalar.max (side - Scalar.ofDecimal 1 6) two / two)

/-- The factor that brings both sides to their least sizes, at least one. -/
def growth (width height : α) : α :=
  Scalar.max (Scalar.max (Scalar.ofNat leastWidth / width) (Scalar.ofNat leastHeight / height))
    (Scalar.ofNat 1)

/-- The frame for a width that has the right number of pixels. -/
def frameOfWidth (aspect : AspectRatio α) (source : Nat × Nat) (width : α) :
    Except (FrameError α) (Nat × Nat) :=
  let height := width / aspect.ratio
  let grow := growth width height
  let width := evenSide (width * grow)
  let height := evenSide (height * grow)
  if !Scalar.isFinite width || !Scalar.isFinite height ||
      Scalar.lt (Scalar.ofNat largestSide) (Scalar.max width height) then
    .error ⟨source, aspect, width, height⟩
  else .ok (Scalar.truncatedNat width largestSide, Scalar.truncatedNat height largestSide)

def frame (aspect : AspectRatio Float) (source : Nat × Nat) : Except (FrameError Float) (Nat × Nat) :=
  let pixels : Float := Scalar.ofNat source.1 * Scalar.ofNat source.2
  aspect.frameOfWidth source (pixels * aspect.ratio).sqrt

def operations (width height : Nat) (mode : ScaleMode) : List (Operation α) :=
  let sides := [("w", OptionValue.number width), ("h", .number height)]
  let scale (fit : String) : Operation α :=
    ⟨"scale", sides ++ [("force_original_aspect_ratio", .word fit)]⟩
  let fitted := match mode with
    | .contain =>
      [scale "decrease",
        ⟨"pad", sides ++ [("x", .word "(ow-iw)/2"), ("y", .word "(oh-ih)/2"),
          ("color", .word "black")]⟩]
    | .cover => [scale "increase", ⟨"crop", sides⟩]
  fitted ++ [⟨"setsar", [("sar", .number 1)]⟩]

end AspectRatio
end OpenCaptions
