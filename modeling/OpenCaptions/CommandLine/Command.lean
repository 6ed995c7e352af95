import OpenCaptions.CommandLine.Parameter
import OpenCaptions.Filter.Aspect
import OpenCaptions.Json.Basic
import OpenCaptions.Number.Numeral
import OpenCaptions.Render.Validation

/-!
The commands, what each takes, and reading one from a command line.
-/
namespace OpenCaptions.CommandLine

/-- What graphs and renders are made from. -/
structure JobArguments where
  input : String
  captions : String
  presets : String
  fonts : Option String
  aspect : Option String
  scaleMode : ScaleMode
  /-- The preset of captions that name none. -/
  preset : String
  fade : Float

structure EncodeArguments where
  noHardware : Bool
  validation : ValidationMode

inductive Command where
  | render (job : JobArguments) (encode : EncodeArguments) (output : Option String)
  | preview (job : JobArguments) (encode : EncodeArguments) (index : Nat)
  | graph (job : JobArguments)
  | frame (input : String) (time : Float) (output : String)
  | audio (input output : String)
  | presets (file : String)

/-! Readers of values. -/

def readPath (value : String) : Except String String :=
  if value = "" then .error "a path must not be empty" else .ok value

def readText (value : String) : Except String String := .ok value

def readNumber (value : String) : Except String Float :=
  match Number.Numeral.read? value.toList with
  | some x => .ok x
  | none => .error "invalid number"

def readIndex (value : String) : Except String Nat :=
  (Number.readNat word64 value.toList).mapError NatError.message

/-! Parameters. -/

def defaultPresetsFile : String := "presets.json"

def debug : Parameter where
  name := "debug"
  kind := .switch
  about := "Enable verbose debug and trace logs"

def inputOf (about : String) : Parameter where
  name := "input"
  kind := .positional
  about
  check := checkBy readPath
  required := true

def outputFile : Parameter where
  name := "output"
  kind := .option
  about := ""
  check := checkBy readPath
  required := true

def jobParameters : List Parameter := [
  inputOf "Video to caption",
  { name := "captions", kind := .option, about := "Captions as a JSON array or an SRT file"
    check := checkBy readPath, required := true },
  { name := "presets", kind := .option, about := "Preset file (JSON object keyed by preset id)"
    check := checkBy readPath, default := some defaultPresetsFile },
  { name := "fonts", kind := .option
    about := "Custom font registry (JSON array of \x7bname, fileName, absolutePath\x7d)"
    check := checkBy readPath },
  { name := "aspect", kind := .option, about := "Convert to this aspect ratio, e.g. 9:16" },
  { name := "scale-mode", kind := .option
    about := "contain (pad) or cover (crop) when converting the aspect ratio"
    check := checkBy ScaleMode.ofName, default := some "contain" },
  { name := "preset", kind := .option, about := "Preset applied to captions imported from SRT"
    default := some "fadeBottom" },
  { name := "fade", kind := .option, about := "Fade in/out duration in seconds"
    check := checkBy readNumber, default := some "0.5" }]

def encodeParameters : List Parameter := [
  { name := "no-gpu", kind := .switch, about := "Never try hardware encoders" },
  { name := "validate", kind := .option
    about := "Graph validation before encoding: off, structural or dry-run"
    check := checkBy ValidationMode.ofName, default := some "dry-run" }]

/-! Reading. -/

namespace Given

def job (given : Given) : Except Stop JobArguments := do
  return {
    input := ← given.read "input" readPath
    captions := ← given.read "captions" readPath
    presets := ← given.read "presets" readPath
    fonts := ← given.read? "fonts" readPath
    aspect := ← given.read? "aspect" readText
    scaleMode := ← given.read "scale-mode" ScaleMode.ofName
    preset := ← given.read "preset" readText
    fade := ← given.read "fade" readNumber }

def encode (given : Given) : Except Stop EncodeArguments := do
  return {
    noHardware := given.has "no-gpu"
    validation := ← given.read "validate" ValidationMode.ofName }

end Given

structure CommandInfo where
  name : String
  about : String
  parameters : List Parameter
  read : Given → Except Stop Command

namespace CommandInfo

def render : CommandInfo where
  name := "render"
  about := "Render every caption onto the input video"
  parameters := jobParameters ++ encodeParameters ++ [
    { outputFile with
      about := "Output file; defaults to <input stem>_captioned.mp4", required := false }]
  read given := do return .render (← given.job) (← given.encode) (← given.read? "output" readPath)

def preview : CommandInfo where
  name := "preview"
  about := "Render a short clip showing a single caption"
  parameters := jobParameters ++ encodeParameters ++ [
    { name := "index", kind := .option, about := "Index of the caption to preview"
      check := checkBy readIndex, required := true }]
  read given := do return .preview (← given.job) (← given.encode) (← given.read "index" readIndex)

def graph : CommandInfo where
  name := "graph"
  about := "Print the filter graph that a render would use"
  parameters := jobParameters
  read given := do return .graph (← given.job)

def frame : CommandInfo where
  name := "frame"
  about := "Save the frame at a given time as an image"
  parameters := [inputOf "",
    { name := "time", kind := .option, about := "Seconds from the start of the input"
      check := checkBy readNumber, default := some "0" },
    outputFile]
  read given := do
    return .frame (← given.read "input" readPath) (← given.read "time" readNumber)
      (← given.read "output" readPath)

def audio : CommandInfo where
  name := "audio"
  about := "Decode the audio track to a WAV file"
  parameters := [inputOf "", outputFile]
  read given := do return .audio (← given.read "input" readPath) (← given.read "output" readPath)

def presets : CommandInfo where
  name := "presets"
  about := "List the available presets, creating the defaults if needed"
  parameters := [
    { name := "file", kind := .option, about := "", check := checkBy readPath
      default := some defaultPresetsFile }]
  read given := do return .presets (← given.read "file" readPath)

def all : List CommandInfo := [render, preview, graph, frame, audio, presets]

def find? (name : String) : Option CommandInfo := all.find? (·.name = name)

end CommandInfo

inductive HelpTopic where
  | program
  | help
  | command (info : CommandInfo)

inductive Request where
  | help (topic : HelpTopic)
  | run (command : Command)

namespace Request

def helpName : String := "help"

/-- The topic that names of commands lead to; no command has commands of its own. -/
def helpOn : List String → Except UsageError HelpTopic
  | [] => .ok .program
  | name :: more =>
    match if name = helpName then some .help else (CommandInfo.find? name).map .command with
    | none => .error (.unknownCommand name)
    | some topic =>
      match more with
      | [] => .ok topic
      | name :: _ => .error (.unknownCommand name)

def ofCommand (info : CommandInfo) (arguments : List String) : Except UsageError Request :=
  match Given.ofArguments (info.parameters ++ [debug]) arguments >>= info.read with
  | .ok command => .ok (.run command)
  | .error .help => .ok (.help (.command info))
  | .error (.usage e) => .error e

def ofArguments (debugGiven : Bool) : List String → Except UsageError Request
  | [] => .error .noCommand
  | argument :: rest =>
    match ArgumentForm.ofArgument argument with
    | .plain =>
      if argument = helpName then (helpOn rest).map .help
      else match CommandInfo.find? argument with
        | some info => ofCommand info rest
        | none => .error (.unknownCommand argument)
    | .separator => .error (match rest with
        | [] => .noCommand
        | argument :: _ => .unexpected argument)
    | .short letters =>
      if letters.head? = some 'h' then .ok (.help .program) else .error (.unexpected argument)
    | .long name value =>
      if name = "help" then
        if value.isSome then .error (.needlessValue name) else .ok (.help .program)
      else if name = debug.name then
        if value.isSome then .error (.needlessValue name)
        else if debugGiven then .error (.repeated name)
        else ofArguments true rest
      else .error (.unexpected argument)

def read (arguments : List String) : Except UsageError Request := ofArguments false arguments

end Request
end OpenCaptions.CommandLine
