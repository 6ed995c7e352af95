import OpenCaptions.Filter.Check
import OpenCaptions.Filter.Prepare
import OpenCaptions.Render.Session

/-!
Validation of graphs: a structural check, then a dry run of the engine on a short synthetic clip.
-/
namespace OpenCaptions

inductive ValidationMode where
  | off | structural | dryRun
deriving DecidableEq, Repr, Inhabited

def ValidationMode.ofName (name : String) : Except String ValidationMode :=
  if name ∈ ["off", "none"] then .ok off
  else if name = "structural" then .ok structural
  else if name ∈ ["dry-run", "dryrun"] then .ok dryRun
  else .error ("unknown validation mode " ++ Text.quotedString name ++
    " (expected off, structural or dry-run)")

namespace Validation

/-- Arguments that run a graph without any output. -/
def dryRunArguments (graph label : String) : List String :=
  ["-hide_banner", "-nostdin", "-v", "error", "-f", "lavfi", "-i", Engine.syntheticInput, "-filter_complex",
    graph, "-map", "[" ++ label ++ "]", "-frames:v", "1", "-f", "null", "-"]

/-- Lines of diagnostics that a rejection shows. -/
def shownLines : Nat := 3

def summary (diagnostics : String) : String :=
  let lines := (Text.lines diagnostics.toList).filter (!Text.isBlankText ·)
  let joined := Text.join " | ".toList (Text.lastN shownLines lines)
  if joined = [] then "rejected without diagnostics" else String.ofList joined

/-- Judges graphs. A dry run that does not start rejects nothing. -/
def judge {σ : Type} (engine : Engine σ) (mode : ValidationMode) : Judge (Session σ) :=
  fun graph label => do
    if mode = .off then return .accepted
    match Filter.checkStructure graph.toList with
    | .error flaw => return .rejected flaw.message
    | .ok () =>
      if mode = .structural then return .accepted
      match ← Session.run engine (dryRunArguments graph label) with
      | .ok run => return if run.succeeded then .accepted else .rejected (summary run.diagnostics)
      | .error _ => return .accepted

end Validation
end OpenCaptions
