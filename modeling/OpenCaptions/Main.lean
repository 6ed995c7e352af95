import OpenCaptions.CommandLine.Run

/-!
The program. Files below the working directory are handed to the command and written back where they have
changed. No programs can be started from here, so commands that need the encoder report that it is missing.
-/
namespace OpenCaptions

/-- Adds a file to a store, if it can be read. -/
def readInto (files : FileStore) (path : String) : IO FileStore := do
  try
    let content ← IO.FS.readBinFile path
    let change : FileM FileError Unit := do
      FileStore.makeParent path
      FileM.attempt (·.write path content)
    return (change.run files).2
  catch _ => return files

/-- The files that a command line names. -/
def readFiles (arguments : List String) : IO FileStore := do
  match CommandLine.Request.read arguments with
  | .ok (.run command) =>
    let files ← command.inputs.foldlM readInto .empty
    (command.fontFiles files).foldlM readInto files
  | _ => return .empty

/-- Writes the files that are new or have changed. -/
def writeFiles (before after : FileStore) : IO Unit :=
  after.entries.reverse.forM fun (place, entry) => do
    let path := "/".intercalate place
    if before.entry? place ≠ some entry then
      match entry with
      | .directory => IO.FS.createDirAll path
      | .file content => IO.FS.writeBinFile path content

def hostWith (environment : List (String × String)) : CommandLine.Host Unit where
  programs := {
    run := fun _ _ => return .error FileError.notFound.message
    spawn := fun _ _ => return .error FileError.notFound.message }
  environment name := environment.lookup name
  temporary := .error FileError.notFound.message

/-- The variables of the environment that count. -/
def readEnvironment : IO (List (String × String)) :=
  [EngineConfig.encoderVariable, EngineConfig.proberVariable,
    RenderOptions.noHardwareVariable].filterMapM fun name => do
      return (← IO.getEnv name).map (name, ·)

end OpenCaptions

def main (arguments : List String) : IO UInt32 := do
  let files ← OpenCaptions.readFiles arguments
  let environment ← OpenCaptions.readEnvironment
  let (result, world) :=
    OpenCaptions.CommandLine.execute arguments (OpenCaptions.hostWith environment) files ()
  OpenCaptions.writeFiles files world.files
  IO.print result.output
  IO.eprint result.diagnostics
  return result.code.toUInt32
