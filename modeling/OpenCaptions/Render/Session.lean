import OpenCaptions.Engine.Basic
import OpenCaptions.Engine.Encoder

/-!
A session with the engine: the world, and a log of everything that was asked of the engine or reported,
in order. A request to cancel, once made, stays.
-/
namespace OpenCaptions

/-- Something a render did that others can observe. -/
inductive Event where
  | ran (arguments : List String)
  | asked (encoder : String)
  | spawned (arguments : List String) (started : Bool)
  | readLine
  | killed
  | waited
  /-- A message with its percentage, `-1` for one that has none. -/
  | reported (percent : Int) (message : String)
deriving DecidableEq, Repr

structure Session (σ : Type) where
  world : World σ
  log : List Event := []

abbrev SessionM (σ : Type) := StateM (Session σ)

namespace Session

variable {σ : Type} {β : Type}

def record (event : Event) : SessionM σ Unit :=
  modify fun s => { s with log := s.log ++ [event] }

def report (percent : Int) (message : String) : SessionM σ Unit := record (.reported percent message)

def act (action : StateM (World σ) β) : SessionM σ β := fun s =>
  let (result, world) := action s.world
  (result, { s with world := { world with cancelled := s.world.cancelled || world.cancelled } })

def cancelIf (cancels : Bool) : SessionM σ Unit :=
  modify fun s => { s with world := { s.world with cancelled := s.world.cancelled || cancels } }

def isCancelled : SessionM σ Bool := return (← get).world.cancelled

def files : SessionM σ FileStore := return (← get).world.files

def setFiles (files : FileStore) : SessionM σ Unit :=
  modify fun s => { s with world := { s.world with files } }

variable (engine : Engine σ)

def run (arguments : List String) : SessionM σ (Except String Finished) := do
  record (.ran arguments)
  act (engine.run arguments)

def hasEncoder (name : String) : SessionM σ Bool := do
  record (.asked name)
  act (engine.hasEncoder name)

def spawn (arguments : List String) : SessionM σ (Except String Invocation) := do
  let invocation ← act (engine.spawn arguments)
  record (.spawned arguments invocation.isOk)
  return invocation

def kill (invocation : Invocation) : SessionM σ (Except String Unit) := do
  record .killed
  return match invocation.killFails with
    | some message => .error message
    | none => .ok ()

/-- Waits until an invocation has ended; gives its exit code. -/
def wait (invocation : Invocation) (wasKilled : Bool) : SessionM σ (Except String (Option Int)) := do
  record .waited
  let (result, files) := invocation.wait wasKilled (← files)
  setFiles files
  cancelIf invocation.cancelsAtWait
  return result

def firstAvailable : List Encoder → SessionM σ (Option Encoder)
  | [] => return none
  | encoder :: encoders => do
    if ← hasEncoder engine encoder.name then return some encoder else firstAvailable encoders

/-- The encoder to use: one in hardware if that is wanted and there is one. -/
def selectEncoder (preferHardware : Bool) : SessionM σ Encoder := do
  if preferHardware then return (← firstAvailable engine Encoder.hardware).getD .software
  else return .software

end Session
end OpenCaptions
