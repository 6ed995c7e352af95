import OpenCaptions.Engine.Programs

/-!
Programs with canned behaviour: they tell from their arguments what they are wanted for, and answer with
what is laid down for that.
-/
namespace OpenCaptions

inductive EncoderTask where
  | version
  | listing
  /-- A few frames with an encoder, to nowhere. -/
  | trial (encoder : Option String)
  /-- A graph, to nowhere. -/
  | dryRun (graph : String)
  /-- Anything that leaves an output. -/
  | work
deriving DecidableEq, Repr

def EncoderTask.ofArguments (arguments : List String) : EncoderTask :=
  if arguments = ["-version"] then version
  else if "-encoders" ∈ arguments then listing
  else if Engine.outputArgument arguments ≠ "-" then work
  else match Engine.argumentAfter "-filter_complex" arguments with
    | some graph => dryRun graph
    | none => trial (Engine.argumentAfter "-c:v" arguments)

structure CannedPrograms where
  /-- Whether there are no such programs. -/
  missing : Bool := false
  report : ByteArray := .empty
  probeDiagnostics : ByteArray := .empty
  probeCode : Int := 0
  version : ByteArray := .empty
  versionCode : Int := 0
  encoders : ByteArray := .empty
  /-- Encoders whose trial succeeds. -/
  usable : List String := []
  /-- Texts that make a dry run of a graph fail. -/
  rejects : List String := []
  rejection : ByteArray := .empty
  diagnostics : ByteArray := .empty
  writes : Option ByteArray := none
  code : Option Int := some 0
  /-- Whether work goes on until it is killed. -/
  hangs : Bool := false

/-- Arguments of the work that was done, in order. -/
abbrev WorkLog := List (List String)

namespace CannedPrograms

variable (canned : CannedPrograms)

def result : EncoderTask → ProgramOutput
  | .version => ⟨canned.version, .empty, some canned.versionCode⟩
  | .listing => ⟨canned.encoders, .empty, some 0⟩
  | .trial encoder => ⟨.empty, .empty, some (if encoder.any canned.usable.contains then 0 else 1)⟩
  | .dryRun graph =>
    if canned.rejects.any fun part => Text.contains part.toList graph.toList then
      ⟨.empty, canned.rejection, some 1⟩
    else ⟨.empty, .empty, some 0⟩
  | .work => ⟨.empty, canned.diagnostics, canned.code⟩

def leave (arguments : List String) (files : FileStore) : FileStore :=
  match canned.writes with
  | none => files
  | some content => (files.write (Engine.outputArgument arguments) content).toOption.getD files

def note (arguments : List String) : StateM (World WorkLog) Unit :=
  modify fun world =>
    if EncoderTask.ofArguments arguments = .work then
      { world with engine := world.engine ++ [arguments] }
    else world

def startFailure : String := FileError.notFound.message

def runEncoder (arguments : List String) : StateM (World WorkLog) ProgramOutput := do
  note arguments
  let task := EncoderTask.ofArguments arguments
  if task = .work then
    modify fun world => { world with files := canned.leave arguments world.files }
  return canned.result task

def spawnEncoder (arguments : List String) : StateM (World WorkLog) StartedProgram := do
  note arguments
  let task := EncoderTask.ofArguments arguments
  let result := canned.result task
  return {
    diagnostics := [result.diagnostics.toList]
    wait := fun killed files =>
      if task = .work then
        (.ok (if killed && canned.hangs then none else result.code), canned.leave arguments files)
      else (.ok result.code, files) }

def programs (config : EngineConfig) : Programs WorkLog where
  run program arguments :=
    if canned.missing then return .error startFailure
    else if program = config.prober then
      return .ok ⟨canned.report, canned.probeDiagnostics, some canned.probeCode⟩
    else return .ok (← canned.runEncoder arguments)
  spawn _ arguments :=
    if canned.missing then return .error startFailure
    else return .ok (← canned.spawnEncoder arguments)

end CannedPrograms
end OpenCaptions
