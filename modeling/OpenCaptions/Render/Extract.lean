import OpenCaptions.Engine.Failure
import OpenCaptions.Render.Encode

/-!
Taking a frame or the audio track out of a video.
-/
namespace OpenCaptions.Extract

/-- Arguments that save the frame at a time as an image. -/
def frameArguments (input : String) (time : Float) (output : String) : List String :=
  ["-hide_banner", "-v", "error", "-ss", EncodeJob.secondsText time, "-i", input, "-frames:v", "1",
    "-q:v", "2", "-y", output]

/-- Arguments that decode the audio track to samples of sixteen bits. -/
def audioArguments (input output : String) : List String :=
  ["-hide_banner", "-v", "error", "-i", input, "-vn", "-acodec", "pcm_s16le", "-ar", "44100", "-ac",
    "2", "-y", output]

variable {σ : Type} (engine : Engine σ)

def run (arguments : List String) (output : String) : SessionM σ (Except RenderError String) := do
  match ← Session.run engine arguments with
  | .error message => return .error (.io { stage := .extract } message)
  | .ok run =>
    if run.succeeded then return .ok output
    else return .error (Diagnosis.classify { stage := .extract } run.code run.diagnostics)

def frame (input : String) (time : Float) (output : String) : SessionM σ (Except RenderError String) :=
  run engine (frameArguments input time output) output

def audio (input output : String) : SessionM σ (Except RenderError String) :=
  run engine (audioArguments input output) output

end OpenCaptions.Extract
