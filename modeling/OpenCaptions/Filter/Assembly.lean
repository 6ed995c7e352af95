import OpenCaptions.Filter.Aspect
import OpenCaptions.Filter.Drawtext
import OpenCaptions.Filter.Graph

/-!
Assembling filter graphs: an optional conversion of the frame, then one node for each caption, in a chain
through the labels `v0`, `v1`, and so on.
-/
namespace OpenCaptions

structure GraphRequest where
  captions : List (Caption Float)
  /-- Index of the first caption in the caller's list. -/
  firstIndex : Nat := 0
  presets : Table Preset
  fonts : FontRegistry
  aspect : Option (AspectRatio Float) := none
  scaleMode : ScaleMode := .contain
  fade : Float := Timing.defaultFade

inductive AssemblyError where
  | unknownSize
  | frame (e : FrameError Float)

def AssemblyError.message : AssemblyError → String
  | unknownSize => "input dimensions are unknown, cannot convert aspect ratio"
  | frame e => e.message

structure AssembledGraph where
  graph : FilterGraph
  warnings : List Warning
deriving DecidableEq, Repr

namespace Assembly

/-- What a caption contributes, whatever its place in the chain. -/
structure Piece where
  /-- The filters and the caption they draw; none if the caption cannot be drawn. -/
  node : Option (String × CaptionSource)
  messages : List String
deriving DecidableEq, Repr

def piece (request : GraphRequest) (isFile : String → Bool) (index : Nat) (c : Caption Float) : Piece :=
  match c.validate with
  | .error e => ⟨none, ["skipped: " ++ e.message]⟩
  | .ok () =>
    let stored := request.presets.get? c.presetId
    let style : Style Float := Style.ofPreset isFile request.fonts (stored.getD {})
    let drawing := c.draw style request.fade
    let source : CaptionSource := ⟨index, c.presetId, (Drawtext.plain c style).text⟩
    ⟨some (Operation.joined drawing.operations, source),
      (if stored.isSome then []
        else ["preset " ++ Text.quotedString c.presetId ++ " not found, using defaults"]) ++
      style.notes.map StyleNote.message ++
      (match drawing.degraded with
        | some e => ["animation dropped: " ++ e.message]
        | none => [])⟩

/-- The contributions of captions from an index on, each with its warnings. -/
def pieces (request : GraphRequest) (isFile : String → Bool) (index : Nat) :
    List (Caption Float) → List (String × CaptionSource) × List Warning
  | [] => ([], [])
  | c :: captions =>
    let first := piece request isFile index c
    let (nodes, warnings) := pieces request isFile (index + 1) captions
    (first.node.toList ++ nodes,
      first.messages.map (fun message => ⟨some index, some c.presetId, message⟩) ++ warnings)

def label (number : Nat) : String := "v" ++ toString number

/-- Joins filters to a chain whose first node has a number and reads a label. -/
def chain (number : Nat) (input : String) : List (String × Option CaptionSource) → List FilterNode
  | [] => []
  | (body, source) :: rest =>
    ⟨input, body, label number, source⟩ :: chain (number + 1) (label number) rest

/-- The filters that convert the frame of a source. -/
def conversion (request : GraphRequest) (source : Option (Nat × Nat)) :
    Except AssemblyError (List (String × Option CaptionSource)) :=
  match request.aspect with
  | none => .ok []
  | some aspect =>
    match source with
    | none => .error .unknownSize
    | some (width, height) =>
      if width = 0 ∨ height = 0 then .error .unknownSize
      else match aspect.frame (width, height) with
      | .error e => .error (.frame e)
      | .ok (width, height) =>
        let operations : List (Operation Float) :=
          AspectRatio.operations width height request.scaleMode
        .ok [(Operation.joined operations, none)]

/-- Filters that change nothing, for a graph without any others. -/
def orNothing (bodies : List (String × Option CaptionSource)) :
    List (String × Option CaptionSource) :=
  if bodies = [] then [("null", none)] else bodies

end Assembly

/-- Makes a graph. The size of the source is needed for a conversion only, and `isFile` tells which font
files are there. -/
def GraphRequest.assemble (request : GraphRequest) (isFile : String → Bool)
    (source : Option (Nat × Nat)) : Except AssemblyError AssembledGraph := do
  let conversion ← Assembly.conversion request source
  let (nodes, warnings) := Assembly.pieces request isFile request.firstIndex request.captions
  let bodies := Assembly.orNothing (conversion ++ nodes.map fun (body, source) => (body, some source))
  return ⟨⟨Assembly.chain 0 inputLabel bodies⟩, warnings⟩

end OpenCaptions
