import OpenCaptions.Engine.Basic
import OpenCaptions.Text.Split

/-!
An engine that follows a script: what it answers is laid down beforehand, so a session with it can be
worked out without any program.
-/
namespace OpenCaptions

/-- Which dry runs fail, and how. A dry run tries a filter graph. -/
structure ScriptedDryRun where
  /-- Texts that a graph must not contain. -/
  rejectContaining : List String := []
  /-- Texts that a graph must contain. -/
  rejectLacking : List String := []
  /-- Numbers of dry runs that fail whatever their graph is, counted from zero. -/
  rejectCalls : List Nat := []
  code : Option Int := none
  diagnostics : String := ""
  failsToStart : Bool := false

structure ScriptedEncode where
  lines : List String := []
  code : Option Int := none
  /-- What is written to the output while the invocation is waited for. -/
  writes : Option ByteArray := none
  /-- Number of the read during which somebody cancels the render. -/
  cancelAtRead : Option Nat := none
  /-- Number of the read that fails. -/
  failAtRead : Option Nat := none
  killFails : Bool := false
  waitFails : Bool := false
  cancelsAtWait : Bool := false

/-- All answers of an engine, and what it has been asked so far. -/
structure Script where
  video : Except ProbeError VideoInfo
  dryRun : ScriptedDryRun := {}
  /-- The answer to every other run. -/
  run : Except String Finished
  encoders : List String := []
  /-- Encodes that have not been started yet. -/
  encodes : List ScriptedEncode := []
  dryRuns : Nat := 0

namespace ScriptedDryRun

def rejects (rule : ScriptedDryRun) (graph : String) (number : Nat) : Bool :=
  let occurs (part : String) := Text.contains part.toList graph.toList
  rule.rejectContaining.any occurs || rule.rejectLacking.any (!occurs ·) ||
    rule.rejectCalls.contains number

def result (rule : ScriptedDryRun) (graph : String) (number : Nat) : Except String Finished :=
  if rule.failsToStart then .error "dry run failed to start"
  else if rule.rejects graph number then .ok ⟨rule.code, rule.diagnostics⟩
  else .ok ⟨some 0, ""⟩

end ScriptedDryRun

namespace ScriptedEncode

def readFailure : String := "read failed"

/-- What the reads of the lines give, the first of them being read number `number`. -/
def reads (entry : ScriptedEncode) (number : Nat) : List String → List LineRead
  | [] => []
  | line :: lines =>
    { cancels := entry.cancelAtRead == some number
      outcome := if entry.failAtRead = some number then .error readFailure else .ok line } ::
    entry.reads (number + 1) lines

def invocation (entry : ScriptedEncode) (output : String) : Invocation where
  reads := entry.reads 0 entry.lines
  cancelsAtEnd := entry.cancelAtRead == some entry.lines.length
  failsAtEnd := if entry.failAtRead = some entry.lines.length then some readFailure else none
  killFails := if entry.killFails then some "kill failed" else none
  cancelsAtWait := entry.cancelsAtWait
  wait _ files :=
    match entry.writes.mapM (files.write output) with
    | .error e => (.error e.message, files)
    | .ok written =>
      (if entry.waitFails then .error "wait failed" else .ok entry.code, written.getD files)

end ScriptedEncode

namespace Script

def runEngine (arguments : List String) : StateM (World Script) (Except String Finished) := do
  let script := (← get).engine
  match Engine.argumentAfter "-filter_complex" arguments with
  | none => return script.run
  | some graph =>
    modify fun world => { world with engine := { script with dryRuns := script.dryRuns + 1 } }
    return script.dryRun.result graph script.dryRuns

def spawnEncode (arguments : List String) : StateM (World Script) (Except String Invocation) := do
  let script := (← get).engine
  match script.encodes with
  | [] => return .error "no encode scripted"
  | entry :: encodes =>
    modify fun world => { world with engine := { script with encodes } }
    return .ok (entry.invocation (Engine.outputArgument arguments))

/-- The engine that follows the script which is its state. -/
def engine : Engine Script where
  probe _ := return (← get).engine.video
  run := runEngine
  spawn := spawnEncode
  hasEncoder name := return (← get).engine.encoders.contains name

end Script
end OpenCaptions
