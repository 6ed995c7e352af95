import OpenCaptions.Number.Natural
import OpenCaptions.Text.Split

/-!
Parameters of a command, and sorting the arguments of a command line by them. An option's value stands in
the next argument or behind an equals sign, and behind two hyphens nothing is an option any more.
-/
namespace OpenCaptions.CommandLine

inductive UsageError where
  | noCommand
  | unknownCommand (name : String)
  | unexpected (argument : String)
  | noValue (parameter : String)
  | needlessValue (parameter : String)
  | repeated (parameter : String)
  | missing (parameter : String)
  | invalid (parameter value reason : String)
deriving DecidableEq, Repr

def UsageError.message : UsageError → String
  | noCommand => "a command is required"
  | unknownCommand name => "unrecognized command '" ++ name ++ "'"
  | unexpected argument => "unexpected argument '" ++ argument ++ "' found"
  | noValue parameter => "a value is required for '--" ++ parameter ++ "' but none was supplied"
  | needlessValue parameter => "unexpected value for '--" ++ parameter ++ "' found; no more were expected"
  | repeated parameter => "the argument '--" ++ parameter ++ "' cannot be used multiple times"
  | missing parameter => "the argument '" ++ parameter ++ "' was not provided"
  | invalid parameter value reason =>
    "invalid value '" ++ value ++ "' for '" ++ parameter ++ "': " ++ reason

/-- Why reading arguments stops: they ask for help, or cannot be accepted. -/
inductive Stop where
  | help
  | usage (e : UsageError)
deriving DecidableEq, Repr

inductive ParameterKind where
  /-- An argument without a name. -/
  | positional
  /-- An option that stands alone. -/
  | switch
  | option
deriving DecidableEq, Repr

structure Parameter where
  name : String
  kind : ParameterKind
  about : String
  /-- Whether a value can be used, and why not. -/
  check : String → Except String Unit := fun _ => .ok ()
  required : Bool := false
  default : Option String := none

def checkBy {β : Type} (read : String → Except String β) (value : String) : Except String Unit :=
  (read value).map fun _ => ()

inductive ArgumentForm where
  | plain
  /-- Two hyphens alone. -/
  | separator
  /-- One hyphen with letters behind it. -/
  | short (letters : List Char)
  | long (name : String) (value : Option String)
deriving DecidableEq, Repr

def ArgumentForm.ofArgument (argument : String) : ArgumentForm :=
  match argument.toList with
  | ['-', '-'] => separator
  | '-' :: '-' :: rest =>
    match Text.splitOnce? '=' rest with
    | some (name, value) => long (String.ofList name) (some (String.ofList value))
    | none => long (String.ofList rest) none
  | '-' :: c :: rest => short (c :: rest)
  | _ => plain

/-- Whether an argument can be the value of an option before it. -/
def ArgumentForm.isValue (form : ArgumentForm) : Bool := form = plain

structure Given where
  switches : List String := []
  values : List (String × String) := []
deriving DecidableEq, Repr

namespace Given

variable (parameters : List Parameter) (given : Given)

def has (name : String) : Bool := given.switches.contains name || (given.values.lookup name).isSome

def addSwitch (name : String) : Except Stop Given :=
  if given.has name then .error (.usage (.repeated name))
  else .ok { given with switches := given.switches ++ [name] }

def addValue (parameter : Parameter) (value : String) : Except Stop Given :=
  if given.has parameter.name then .error (.usage (.repeated parameter.name))
  else match parameter.check value with
    | .error reason => .error (.usage (.invalid parameter.name value reason))
    | .ok () => .ok { given with values := given.values ++ [(parameter.name, value)] }

/-- Adds a value for the next parameter without a name. -/
def addPlain (value : String) : Except Stop Given :=
  match parameters.find? fun p => p.kind = .positional ∧ !given.has p.name with
  | some parameter => given.addValue parameter value
  | none => .error (.usage (.unexpected value))

def named? (name : String) : Option Parameter :=
  parameters.find? fun p => p.kind ≠ .positional ∧ p.name = name

def add (given : Given) : List String → Except Stop Given
  | [] => .ok given
  | argument :: rest =>
    match ArgumentForm.ofArgument argument with
    | .separator => rest.foldlM (addPlain parameters) given
    | .plain => do add (← given.addPlain parameters argument) rest
    | .short letters => .error (if letters.head? = some 'h' then .help else .usage (.unexpected argument))
    | .long name value =>
      if name = "help" then
        .error (if value.isSome then .usage (.needlessValue name) else .help)
      else match named? parameters name with
        | none => .error (.usage (.unexpected argument))
        | some parameter =>
          match parameter.kind, value with
          | .option, some value => do add (← given.addValue parameter value) rest
          | .option, none =>
            match rest with
            | [] => .error (.usage (.noValue name))
            | next :: rest =>
              if (ArgumentForm.ofArgument next).isValue then do add (← given.addValue parameter next) rest
              else .error (.usage (.noValue name))
          | _, some _ => .error (.usage (.needlessValue name))
          | _, none => do add (← given.addSwitch name) rest

/-- Fills in what a parameter has when it is not given. -/
def complete (parameter : Parameter) : Except Stop Given :=
  if given.has parameter.name then .ok given
  else match parameter.default with
    | some value => .ok { given with values := given.values ++ [(parameter.name, value)] }
    | none => if parameter.required then .error (.usage (.missing parameter.name)) else .ok given

def ofArguments (arguments : List String) : Except Stop Given := do
  parameters.foldlM complete (← add parameters {} arguments)

/-- Reads the value of a parameter that may be missing. -/
def read? {β : Type} (name : String) (read : String → Except String β) : Except Stop (Option β) :=
  match given.values.lookup name with
  | none => .ok none
  | some value =>
    match read value with
    | .ok b => .ok (some b)
    | .error reason => .error (.usage (.invalid name value reason))

def read {β : Type} (name : String) (read : String → Except String β) : Except Stop β := do
  match ← given.read? name read with
  | some b => return b
  | none => throw (.usage (.missing name))

end Given
end OpenCaptions.CommandLine
