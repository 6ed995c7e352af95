import OpenCaptions.CommandLine.Help
import OpenCaptions.Engine.Programs
import OpenCaptions.Preset.Store
import OpenCaptions.Render.Extract
import OpenCaptions.Render.Run
import OpenCaptions.Subtitle

/-!
What the commands do. Files are loaded before the encoder is looked for, and the first failure ends a
command.
-/
namespace OpenCaptions.CommandLine

structure Report where
  output : List String := []
  warnings : List String := []
deriving DecidableEq, Repr

/-- What surrounds the commands: programs, the environment, and the name of a new temporary file. -/
structure Host (σ : Type) where
  programs : Programs σ
  environment : String → Option String
  temporary : Except String String

/-- What went wrong, from the outside down to its cause. -/
abbrev Failure := List String

abbrev CommandM (σ : Type) := ExceptT Failure (StateM (World (ProgramsState σ)))

namespace CommandM

variable {σ : Type} {β : Type}

def files : CommandM σ FileStore := return (← get).files

def orFail (result : Except RenderError β) : CommandM σ β :=
  match result with
  | .ok b => return b
  | .error e => throw [e.message]

def onFiles {ε : Type} (messages : ε → Failure) (change : FileM ε β) : CommandM σ β := fun world =>
  let (result, files) := change.run world.files
  (result.mapError messages, { world with files })

def inSession (session : SessionM (ProgramsState σ) (Except RenderError β)) : CommandM σ β := do
  let (result, after) := session { world := ← get }
  set after.world
  orFail result

end CommandM

def isSubtitle (path : String) : Bool :=
  (Path.extension? path.toList).any fun e => e.map Char.toLower = "srt".toList

/-- Loads captions; those of a subtitle file get a preset. -/
def loadCaptions (files : FileStore) (path preset : String) : Except Failure (List (Caption Float)) :=
  if isSubtitle path then (Subtitle.load files path preset).mapError Subtitle.ImportError.messages
  else (Caption.load files path).mapError LoadError.messages

def loadFonts (files : FileStore) : Option String → Except Failure FontRegistry
  | none => .ok ∅
  | some path => (FontRegistry.load files path).mapError LoadError.messages

def loadPresets {σ : Type} (path : String) : CommandM σ (Table Preset) := do
  let store ← CommandM.onFiles StoreError.messages (PresetStore.load path)
  return store.presets

namespace JobArguments

def load {σ : Type} (arguments : JobArguments) (output : Option String) : CommandM σ RenderJob := do
  let captions ← loadCaptions (← CommandM.files) arguments.captions arguments.preset
  let presets ← loadPresets arguments.presets
  return {
    input := arguments.input, captions, presets
    fonts := ← loadFonts (← CommandM.files) arguments.fonts
    output, aspect := arguments.aspect, scaleMode := arguments.scaleMode }

end JobArguments

def presetLine (id : String) (p : Preset) : String :=
  id ++ ": " ++ p.font ++ " " ++ toString p.size ++ "px " ++ p.color ++ " " ++ p.animation.title ++
    " at (" ++ p.x ++ ", " ++ p.y ++ ")"

namespace Command

variable {σ : Type} (host : Host σ)

def config : EngineConfig := .ofEnvironment host.environment

def engine : Engine (ProgramsState σ) := host.programs.engine (config host)

def checkVersion : CommandM σ Unit := do
  let result : Except RenderError String ← host.programs.checkVersion (config host)
  discard (CommandM.orFail result)

def options (job : JobArguments) (encode : EncodeArguments) : RenderOptions :=
  let options := RenderOptions.ofEnvironment host.environment
  { options with
    fade := job.fade
    preferHardware := options.preferHardware && !encode.noHardware
    validation := encode.validation }

/-- The size of the input, which matters only where the frame is converted. -/
def sourceSize (job : RenderJob) (aspect : Option (AspectRatio Float)) : CommandM σ (Option (Nat × Nat)) := do
  if aspect.isNone then return none
  let result : Except ProbeError VideoInfo ← (engine host).probe job.input
  match result with
  | .ok video => return some (video.width, video.height)
  | .error e => throw ["could not probe " ++ job.input, e.message]

/-- The text of the graph that a render would begin with. -/
def graphReport (job : RenderJob) (fade : Float) : CommandM σ Report := do
  let aspect ← (job.aspect.mapM fun text => AspectRatio.parse text.toList).mapError fun e => [AspectError.message e]
  let source ← sourceSize host job aspect
  match (job.graphRequest job.captions 0 aspect fade).assemble (← CommandM.files).isFile source with
  | .ok assembled =>
    return {
      output := [assembled.graph.text]
      warnings := assembled.warnings.map Warning.text }
  | .error e => CommandM.orFail (.error (.resolution { stage := .assemble } e.message))

def presetsReport (presets : Table Preset) : Report where
  output := (presets.entries.map fun (id, p) => presetLine id p) ++
    ["animations: " ++ ", ".intercalate (Animation.all.map Animation.title)]

def run (command : Command) : CommandM σ Report := do
  match command with
  | .render arguments encode output =>
    let job ← arguments.load output
    checkVersion host
    return { output := [← CommandM.inSession (job.render (engine host) (options host arguments encode))] }
  | .preview arguments encode index =>
    let job ← arguments.load none
    checkVersion host
    return { output := [← CommandM.inSession
      (job.preview (engine host) (options host arguments encode) index host.temporary)] }
  | .graph arguments => graphReport host (← arguments.load none) arguments.fade
  | .frame input time output =>
    checkVersion host
    return { output := [← CommandM.inSession (Extract.frame (engine host) input time output)] }
  | .audio input output =>
    checkVersion host
    return { output := [← CommandM.inSession (Extract.audio (engine host) input output)] }
  | .presets file => return presetsReport (← loadPresets file)

end Command

/-- Files whose content a command reads; videos are left to the programs. -/
def Command.inputs : Command → List String
  | .render job _ _ | .preview job _ _ | .graph job => [job.captions, job.presets] ++ job.fonts.toList
  | .presets file => [file]
  | _ => []

/-- Font files that a command may draw with. -/
def Command.fontFiles (command : Command) (files : FileStore) : List String :=
  match command with
  | .render job _ _ | .preview job _ _ | .graph job =>
    match loadFonts files job.fonts with
    | .ok fonts => fonts.entries.map fun (_, font) => font.path
    | .error _ => []
  | _ => []

/-- What a command line leaves: exit code and text on both channels. -/
structure Result where
  code : Nat
  output : String
  diagnostics : String
deriving DecidableEq, Repr

def joinLines (lines : List String) : String := String.join (lines.map (· ++ "\n"))

def indented (mark : String) (cause : String) : List String :=
  match cause.toList.splitOn '\n' with
  | [] => []
  | first :: more =>
    (mark ++ String.ofList first) ::
      more.map fun line => String.ofList (List.replicate mark.length ' ') ++ String.ofList line

/-- Lines for the causes of a failure, which are numbered if there are several. -/
def causeLines : Failure → List String
  | [] => []
  | [cause] => ["", "Caused by:"] ++ indented "    " cause
  | causes =>
    ["", "Caused by:"] ++ causes.zipIdx.flatMap fun (cause, i) => indented ("    " ++ toString i ++ ": ") cause

def failureLines : Failure → List String
  | [] => ["Error"]
  | message :: causes => ("Error: " ++ message) :: causeLines causes

namespace Result

def ofReport : Except Failure Report → Result
  | .ok report => ⟨0, joinLines report.output, joinLines (report.warnings.map ("warning: " ++ ·))⟩
  | .error failure => ⟨1, "", joinLines (failureLines failure)⟩

end Result

def execute {σ : Type} (arguments : List String) (host : Host σ) (files : FileStore) (state : σ) :
    Result × World (ProgramsState σ) :=
  let world : World (ProgramsState σ) := { engine := { host := state }, files }
  match Request.read arguments with
  | .error e => (⟨2, "", joinLines ["error: " ++ e.message]⟩, world)
  | .ok (.help topic) => (⟨0, joinLines (Help.lines topic), ""⟩, world)
  | .ok (.run command) =>
    let (report, world) := (command.run host).run world
    (.ofReport report, world)

end OpenCaptions.CommandLine
