import OpenCaptions.Files.Store

/-!
The external video engine, as everything a render can observe of it. Nothing is assumed of its answers;
only that it never takes back a request to cancel, and that the output of an invocation ends.
-/
namespace OpenCaptions

/-- Exit code and diagnostics of a run; no code if a signal ended it. -/
structure Finished where
  code : Option Int
  diagnostics : String
deriving DecidableEq, Repr

def Finished.succeeded (run : Finished) : Bool := run.code == some 0

structure VideoInfo where
  duration : Float
  width : Nat
  height : Nat
  hasAudio : Bool

inductive ProbeError where
  | start (message : String)
  | failed (diagnostics : String)
  | unreadable
  | noVideo
deriving DecidableEq, Repr

def ProbeError.message : ProbeError → String
  | start message => "failed to run the prober: " ++ message
  | failed diagnostics => "the prober failed: " ++ diagnostics
  | unreadable => "unreadable prober output"
  | noVideo => "no video stream found"

/-- One attempt to read a line of an invocation's output. -/
structure LineRead where
  /-- Whether somebody cancels the render during the attempt. -/
  cancels : Bool := false
  /-- The line, or why there is none. -/
  outcome : Except String String

/-- A started invocation: what each read gives, how its output ends, and what happens when it is killed or
waited for. Waiting may change files, and its result may depend on whether the invocation was killed. -/
structure Invocation where
  reads : List LineRead
  /-- Whether somebody cancels the render while the end of the output is read. -/
  cancelsAtEnd : Bool := false
  /-- Why reading fails instead of coming to the end. -/
  failsAtEnd : Option String := none
  killFails : Option String := none
  cancelsAtWait : Bool := false
  wait : (killed : Bool) → FileStore → Except String (Option Int) × FileStore

/-- The engine's own state, the files it shares with the program, and whether the render has been
cancelled. -/
structure World (σ : Type) where
  engine : σ
  files : FileStore
  cancelled : Bool := false

/-- The engine's operations. Each may change the world, and fails with a message. -/
structure Engine (σ : Type) where
  probe : String → StateM (World σ) (Except ProbeError VideoInfo)
  run : List String → StateM (World σ) (Except String Finished)
  spawn : List String → StateM (World σ) (Except String Invocation)
  hasEncoder : String → StateM (World σ) Bool

namespace Engine

/-- The short clip, made up by the engine itself, that graphs and encoders are tried on. -/
def syntheticInput : String := "color=c=black:s=640x360:r=25:d=0.2"

def argumentAfter (name : String) : List String → Option String
  | first :: second :: rest =>
    if first = name then some second else argumentAfter name (second :: rest)
  | _ => none

/-- The last argument, which is where the output goes. -/
def outputArgument (arguments : List String) : String := arguments.getLast?.getD ""

end Engine

end OpenCaptions
