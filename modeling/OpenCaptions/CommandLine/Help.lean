import OpenCaptions.CommandLine.Command

/-!
Help texts, made from what the commands say of their parameters. Entries stand in two columns, one line
each.
-/
namespace OpenCaptions.CommandLine

def programName : String := "captioner"

namespace Help

/-- One entry: what is given, and what that means. -/
structure Entry where
  given : String
  about : String

def blanks (n : Nat) : String := String.ofList (List.replicate n ' ')

def entryLine (column : Nat) (entry : Entry) : String :=
  let given := "  " ++ entry.given
  given ++ blanks (column - given.length) ++ entry.about

/-- A titled list of entries, with a blank line before it; nothing if there are none. -/
def sectionLines (title : String) (entries : List Entry) : List String :=
  if entries.isEmpty then []
  else
    let longest := (entries.map (·.given.length)).foldl max 0
    ["", title ++ ":"] ++ entries.map (entryLine (longest + 4))

def placeholder (name : String) : String :=
  "<" ++ String.ofList (name.toList.map fun c => if c = '-' then '_' else c.toUpper) ++ ">"

def shown (p : Parameter) : String :=
  match p.kind with
  | .positional => placeholder p.name
  | .switch => "--" ++ p.name
  | .option => "--" ++ p.name ++ " " ++ placeholder p.name

def entry (p : Parameter) : Entry where
  given := (if p.kind = .positional then "" else "    ") ++ shown p
  about :=
    let default := p.default.toList.map fun value => "[default: " ++ value ++ "]"
    " ".intercalate ((if p.about = "" then [] else [p.about]) ++ default)

def helpEntry : Entry := ⟨"-h, --help", "Print help"⟩

def usage (info : CommandInfo) : String :=
  let required (p : Parameter) : Bool := p.required
  let options := info.parameters.filter fun p => p.kind = .option ∧ required p
  let plain := info.parameters.filter fun p => p.kind = .positional
  " ".intercalate (["Usage:", programName, info.name, "[OPTIONS]"] ++ (options ++ plain).map shown)

/-- The options of a command among which the switch for debugging stands beside the first one, in
alphabetical order. -/
def withDebug : List Parameter → List Parameter
  | [] => [debug]
  | first :: rest =>
    if first.name < debug.name then first :: debug :: rest else debug :: first :: rest

def ofCommand (info : CommandInfo) : List String :=
  let isPlain (p : Parameter) : Bool := p.kind = .positional
  [info.about, "", usage info] ++
    sectionLines "Arguments" ((info.parameters.filter isPlain).map entry) ++
    sectionLines "Options"
      ((withDebug (info.parameters.filter (!isPlain ·))).map entry ++ [helpEntry])

def aboutHelp : String := "Print this message or the help of the given subcommand(s)"

/-- Help on the command for help, which takes names of commands only. -/
def ofHelp : List String :=
  [aboutHelp, "", "Usage: " ++ programName ++ " help [COMMAND]..."] ++
    sectionLines "Arguments" [⟨"[COMMAND]...", "Print help for the subcommand(s)"⟩]

def ofProgram : List String :=
  ["Burn styled, animated captions into a video with ffmpeg", "",
    "Usage: " ++ programName ++ " [OPTIONS] <COMMAND>"] ++
    sectionLines "Commands" ((CommandInfo.all.map fun info => ⟨info.name, info.about⟩) ++
      [⟨"help", aboutHelp⟩]) ++
    sectionLines "Options" [entry debug, helpEntry]

def lines : HelpTopic → List String
  | .program => ofProgram
  | .help => ofHelp
  | .command info => ofCommand info

end Help
end OpenCaptions.CommandLine
