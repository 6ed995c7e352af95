import OpenCaptions.Engine.Failure
import OpenCaptions.Filter.Graph
import OpenCaptions.Render.Progress
import OpenCaptions.Render.Session

/-!
One encode: the engine's command line, reading its output as reports, and what its end means.
-/
namespace OpenCaptions

structure Segment where
  start : Float
  duration : Float

/-- Everything that encodes of one render have in common. -/
structure EncodeJob where
  input : String
  output : String
  label : String
  encoder : Encoder
  hasAudio : Bool
  segment : Option Segment
  /-- Seconds that make up all of the progress. -/
  duration : Float
  stage : Stage

namespace EncodeJob

def audioArguments : List String := ["-map", "0:a?", "-c:a", "aac", "-b:a", "192k"]

def secondsText (seconds : Float) : String := String.ofList (Number.Numeral.fixed 3 seconds)

def arguments (job : EncodeJob) (graph : String) : List String :=
  ["-hide_banner", "-nostdin", "-y"] ++
  (match job.segment with
    | some segment => ["-ss", secondsText segment.start]
    | none => []) ++
  ["-i", job.input] ++
  (match job.segment with
    | some segment => ["-t", secondsText segment.duration]
    | none => []) ++
  ["-filter_complex", graph, "-map", "[" ++ job.label ++ "]"] ++ job.encoder.arguments ++
  (if job.hasAudio then audioArguments else []) ++ [job.output]

/-- Lines of output that are kept for a diagnosis. -/
def keptLines : Nat := 20

inductive Ending where
  /-- The output ended; the last lines that are no progress. -/
  | ended (lines : List String)
  | cancelled
  | failed (message : String)
deriving DecidableEq, Repr

variable {σ : Type}

def takeLine (duration : Float) (kept : List String) (line : String) :
    SessionM σ (List String) := do
  let line := Text.trim line.toList
  let text := String.ofList line
  if line = [] then return kept
  match Progress.time? line with
  | some time =>
    Session.report (Progress.percent time duration) text
    return kept
  | none =>
    Session.report (-1) text
    return Text.lastN keptLines (kept ++ [text])

/-- Reads output until it ends, reading fails or the render is cancelled. -/
def readOutput (duration : Float) (invocation : Invocation) (kept : List String) :
    List LineRead → SessionM σ Ending
  | [] => do
    if ← Session.isCancelled then return .cancelled
    Session.record .readLine
    Session.cancelIf invocation.cancelsAtEnd
    match invocation.failsAtEnd with
    | some message => return .failed message
    | none => return .ended kept
  | attempt :: attempts => do
    if ← Session.isCancelled then return .cancelled
    Session.record .readLine
    Session.cancelIf attempt.cancels
    match attempt.outcome with
    | .error message => return .failed message
    | .ok line => readOutput duration invocation (← takeLine duration kept line) attempts

def diagnose (stage : Stage) (graph : FilterGraph) (code : Option Int) (lines : List String) :
    RenderError :=
  let diagnostics := "\n".intercalate lines
  let source := (Diagnosis.blamedFilter? diagnostics.toList).bind graph.captionAtFilter
  let context : FailureContext := match source with
    | some source => ⟨stage, some source.index, some source.presetId⟩
    | none => { stage }
  Diagnosis.classify context code diagnostics

/-- Runs the engine once with a graph. A cancelled invocation is stopped and waited for. -/
def encode (job : EncodeJob) (engine : Engine σ) (graph : FilterGraph) :
    SessionM σ (Except RenderError Unit) := do
  let io (message : String) : Except RenderError Unit := .error (.io { stage := job.stage } message)
  match ← Session.spawn engine (job.arguments graph.text) with
  | .error message => return io message
  | .ok invocation =>
    match ← readOutput job.duration invocation [] invocation.reads with
    | .failed message => return io message
    | .cancelled =>
      let _ ← Session.kill invocation
      let _ ← Session.wait invocation true
      return .error .cancelled
    | .ended lines =>
      match ← Session.wait invocation false with
      | .error message => return io message
      | .ok code =>
        if ← Session.isCancelled then return .error .cancelled
        if code = some 0 then return .ok ()
        return .error (diagnose job.stage graph code lines)

end EncodeJob
end OpenCaptions
