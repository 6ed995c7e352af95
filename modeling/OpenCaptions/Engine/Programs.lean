import OpenCaptions.Engine.Failure
import OpenCaptions.Engine.Lines
import OpenCaptions.Engine.Probe

/-!
The engine as two programs that are started with arguments: one that encodes and one that probes.
-/
namespace OpenCaptions

/-- What a program that ran to its end has left. -/
structure ProgramOutput where
  output : ByteArray
  diagnostics : ByteArray
  code : Option Int

/-- A program that was started, with the chunks in which its diagnostics arrive. -/
structure StartedProgram where
  diagnostics : Engine.Chunks
  killFails : Option String := none
  wait : (killed : Bool) → FileStore → Except String (Option Int) × FileStore

/-- What can be started. Starting fails with a message. -/
structure Programs (σ : Type) where
  run : (program : String) → List String → StateM (World σ) (Except String ProgramOutput)
  spawn : (program : String) → List String → StateM (World σ) (Except String StartedProgram)

structure EngineConfig where
  encoder : String := "ffmpeg"
  prober : String := "ffprobe"
deriving DecidableEq, Repr

namespace EngineConfig

def encoderVariable : String := "CAPTIONER_FFMPEG"

def proberVariable : String := "CAPTIONER_FFPROBE"

def ofEnvironment (get? : String → Option String) : EngineConfig :=
  let default : EngineConfig := {}
  ⟨(get? encoderVariable).getD default.encoder, (get? proberVariable).getD default.prober⟩

end EngineConfig

/-- What an engine made of programs remembers: the list of its encoders, once it has asked for it. -/
structure ProgramsState (σ : Type) where
  encoders : Option String := none
  host : σ

namespace Programs

variable {σ : Type} {β : Type}

def onHost (action : StateM (World σ) β) : StateM (World (ProgramsState σ)) β := fun world =>
  let (result, after) := action { world with engine := world.engine.host }
  (result, { after with engine := { world.engine with host := after.engine } })

/-- Bytes that one argument of a program must stay below. -/
def argumentLimit : Nat := 131072

/-- Why the system passes no program some arguments: a null character would end one, and one that is too
long does not fit. -/
def refusal? (arguments : List String) : Option String :=
  if arguments.any fun argument => '\x00' ∈ argument.toList then some "nul byte found in provided data"
  else if arguments.any fun argument => argumentLimit ≤ argument.utf8ByteSize then
    some "Argument list too long (os error 7)"
  else none

def start (arguments : List String) (action : List String → StateM (World σ) (Except String β)) :
    StateM (World (ProgramsState σ)) (Except String β) :=
  match refusal? arguments with
  | some message => return .error message
  | none => onHost (action arguments)

variable (programs : Programs σ) (config : EngineConfig)

def runEncoder (arguments : List String) : StateM (World (ProgramsState σ)) (Except String Finished) := do
  return (← start arguments (programs.run config.encoder)).map fun out =>
    ⟨out.code, Text.Utf8.decodeLossy out.diagnostics⟩

def spawnEncoder (arguments : List String) : StateM (World (ProgramsState σ)) (Except String Invocation) := do
  return (← start arguments (programs.spawn config.encoder)).map fun started => {
    reads := (Engine.lines started.diagnostics).map fun line => { outcome := .ok line }
    killFails := started.killFails
    wait := started.wait }

def encoderList : StateM (World (ProgramsState σ)) String := do
  match (← get).engine.encoders with
  | some listing => return listing
  | none =>
    let listing := match ← onHost (programs.run config.encoder ["-hide_banner", "-encoders"]) with
      | .ok out => Text.Utf8.decodeLossy out.output
      | .error _ => ""
    modify fun world => { world with engine := { world.engine with encoders := some listing } }
    return listing

def listing (name : String) (line : List Char) : Bool := (Text.words line)[1]? == some name.toList

/-- Arguments that encode a few frames to nowhere. -/
def trialArguments (name : String) : List String :=
  ["-hide_banner", "-nostdin", "-v", "error", "-f", "lavfi", "-i", Engine.syntheticInput,
    "-frames:v", "3", "-c:v", name, "-f", "null", "-"]

/-- Whether an encoder is listed and works, for lists also name encoders whose device is missing. -/
def hasEncoder (name : String) : StateM (World (ProgramsState σ)) Bool := do
  let list ← programs.encoderList config
  if (Text.lines list.toList).any (listing name) then
    match ← programs.runEncoder config (trialArguments name) with
    | .ok run => return run.succeeded
    | .error _ => return false
  else return false

def probeArguments (path : String) : List String :=
  ["-v", "error", "-show_entries", "format=duration:stream=codec_type,width,height", "-of", "json", path]

def probe (path : String) : StateM (World (ProgramsState σ)) (Except ProbeError VideoInfo) := do
  match ← start (probeArguments path) (programs.run config.prober) with
  | .error message => return .error (.start message)
  | .ok out =>
    if out.code = some 0 then return VideoInfo.ofReport out.output
    else return .error (.failed
      (String.ofList (Text.trim (Text.Utf8.decodeLossy out.diagnostics).toList)))

def checkVersion : StateM (World (ProgramsState σ)) (Except RenderError String) := do
  match ← onHost (programs.run config.encoder ["-version"]) with
  | .error message =>
    return .error (.input ("ffmpeg not found at " ++ config.encoder ++ " (" ++ message ++
      "); install ffmpeg and make sure it is on PATH"))
  | .ok out =>
    if out.code ≠ some 0 then return .error (.input "ffmpeg exists but returned an error")
    let lines := Text.lines (Text.Utf8.decodeLossy out.output).toList
    return .ok ((lines.head?.map String.ofList).getD "unknown")

def engine : Engine (ProgramsState σ) where
  probe := programs.probe config
  run := programs.runEncoder config
  spawn := programs.spawnEncoder config
  hasEncoder := programs.hasEncoder config

end Programs
end OpenCaptions
