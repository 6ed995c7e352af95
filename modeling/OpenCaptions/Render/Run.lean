import OpenCaptions.Filter.Assembly
import OpenCaptions.Render.Encode
import OpenCaptions.Render.Validation

/-!
Renders: probe the input, assemble and prepare the graph, encode, and encode once more with a repaired
graph if the engine blamed the first.
-/
namespace OpenCaptions

structure RenderJob where
  input : String
  captions : List (Caption Float)
  presets : Table Preset
  fonts : FontRegistry := ∅
  output : Option String := none
  /-- Text such as `9:16`. -/
  aspect : Option String := none
  scaleMode : ScaleMode := .contain

structure RenderOptions where
  fade : Float := Timing.defaultFade
  preferHardware : Bool := true
  validation : ValidationMode := .dryRun

namespace RenderOptions

/-- The variable of the environment that rules out encoders in hardware, unless it is empty or `0`. -/
def noHardwareVariable : String := "CAPTIONER_NO_GPU"

def ofEnvironment (get? : String → Option String) : RenderOptions where
  preferHardware := ((get? noHardwareVariable).getD "") ∈ ["", "0"]

end RenderOptions

namespace RenderJob

/-- Where a render goes that names no output: next to the input. -/
def defaultOutput (input : String) : String :=
  let stem := (Path.stem? input.toList).getD "output".toList
  String.ofList (Path.withName input.toList (stem ++ "_captioned.mp4".toList))

/-- The captions of a render and what is fixed about it. -/
structure Part where
  captions : List (Caption Float)
  /-- Index of the first caption in the job. -/
  firstIndex : Nat
  segment : Option Segment
  output : String
  stage : Stage

def checkInput (job : RenderJob) (part : Part) (files : FileStore) : Except RenderError Unit :=
  if !files.isFile job.input then .error (.input ("input file " ++ job.input ++ " does not exist"))
  else if part.captions.isEmpty && job.aspect.isNone then .error (.input "no captions to render")
  else .ok ()

def readAspect (job : RenderJob) : Except RenderError (Option (AspectRatio Float)) :=
  match job.aspect with
  | none => .ok none
  | some text =>
    match AspectRatio.parse text.toList with
    | .ok aspect => .ok (some aspect)
    | .error e => .error (.resolution { stage := .assemble } e.message)

/-- What a graph of captions of the job is made from. -/
def graphRequest (job : RenderJob) (captions : List (Caption Float)) (firstIndex : Nat)
    (aspect : Option (AspectRatio Float)) (fade : Float) : GraphRequest where
  captions
  firstIndex
  presets := job.presets
  fonts := job.fonts
  aspect
  scaleMode := job.scaleMode
  fade

def assemble (job : RenderJob) (options : RenderOptions) (part : Part) (video : VideoInfo)
    (files : FileStore) : Except RenderError AssembledGraph := do
  let request := job.graphRequest part.captions part.firstIndex (← job.readAspect) options.fade
  match request.assemble files.isFile (some (video.width, video.height)) with
  | .ok assembled => return assembled
  | .error e => throw (.resolution { stage := .assemble } e.message)

variable {σ : Type}

def reportWarnings (warnings : List Warning) : SessionM σ Unit :=
  warnings.forM fun w => Session.report (-1) ("warning: " ++ w.text)

def prepare (engine : Engine σ) (mode : ValidationMode) (graph : FilterGraph) :
    SessionM σ Prepared := do
  return (← graph.prepare (Validation.judge engine mode)).getD ⟨graph, false, [], []⟩

/-- Encodes, and once more with the graph repaired if that may help and has not been done. -/
def encodeTwice (encoding : EncodeJob) (engine : Engine σ) (prepared : Prepared) :
    SessionM σ (Except RenderError Unit) := do
  match ← encoding.encode engine prepared.graph with
  | .ok () => return .ok ()
  | .error e =>
    if e.isGraphRelated && !prepared.sanitized then
      Session.report (-1) ("warning: " ++ e.message ++ "; retrying with a sanitized filter graph")
      encoding.encode engine (prepared.graph.sanitize?.getD prepared.graph)
    else return .error e

/-- Everything that comes before the encodes of a render. -/
def ready (job : RenderJob) (engine : Engine σ) (options : RenderOptions) (part : Part) :
    SessionM σ (Except RenderError (EncodeJob × Prepared)) := do
  match job.checkInput part (← Session.files) with
  | .error e => return .error e
  | .ok () =>
    match ← Session.act (engine.probe job.input) with
    | .error e => return .error (.resolution { stage := .probe } e.message)
    | .ok video =>
      match job.assemble options part video (← Session.files) with
      | .error e => return .error e
      | .ok assembled =>
        reportWarnings assembled.warnings
        let prepared ← prepare engine options.validation assembled.graph
        reportWarnings prepared.warnings
        let encoder ← Session.selectEncoder engine options.preferHardware
        let encoding : EncodeJob := {
          input := job.input, output := part.output, label := assembled.graph.outputLabel, encoder,
          hasAudio := video.hasAudio, segment := part.segment,
          duration := (part.segment.map Segment.duration).getD video.duration, stage := part.stage }
        return .ok (encoding, prepared)

/-- What comes behind the encodes of a render, with their result. -/
def deliver (part : Part) : Except RenderError Unit → SessionM σ (Except RenderError String)
  | .error e => return .error e
  | .ok () => do
    if (← Session.files).hasContent part.output then
      Session.report 100 "done"
      return .ok part.output
    else return .error (.noOutput part.output)

def execute (job : RenderJob) (engine : Engine σ) (options : RenderOptions) (part : Part) :
    SessionM σ (Except RenderError String) := do
  match ← job.ready engine options part with
  | .error e => return .error e
  | .ok (encoding, prepared) => deliver part (← encodeTwice encoding engine prepared)

def render (job : RenderJob) (engine : Engine σ) (options : RenderOptions) :
    SessionM σ (Except RenderError String) :=
  job.execute engine options {
    captions := job.captions, firstIndex := 0, segment := none,
    output := job.output.getD (defaultOutput job.input), stage := .encode }

def previewCaption (job : RenderJob) (index : Nat) : Except RenderError (Caption Float) :=
  match job.captions[index]? with
  | none => .error (.input ("no caption at index " ++ toString index))
  | some c =>
    match c.validate with
    | .error e => .error (.input ("caption " ++ toString index ++ ": " ++ e.message))
    | .ok () => .ok c

/-- Renders the time of one caption to a temporary file, which is removed again if that fails. -/
def preview (job : RenderJob) (engine : Engine σ) (options : RenderOptions) (index : Nat)
    (temporary : Except String String) : SessionM σ (Except RenderError String) := do
  let io (message : String) : Except RenderError String := .error (.io { stage := .preview } message)
  match job.previewCaption index, temporary with
  | .error e, _ => return .error e
  | .ok _, .error message => return io message
  | .ok c, .ok output =>
    match (← Session.files).write output .empty with
    | .error e => return io e.message
    | .ok files =>
      Session.setFiles files
      let result ← job.execute engine options {
        captions := [c.rebased c.start], firstIndex := index,
        segment := some ⟨c.start, c.duration⟩, output, stage := .preview }
      match result with
      | .ok path => return .ok path
      | .error e =>
        Session.setFiles ((← Session.files).remove output)
        return .error e

end RenderJob
end OpenCaptions
