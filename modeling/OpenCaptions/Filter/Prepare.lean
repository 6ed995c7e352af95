import OpenCaptions.Filter.Repair

/-!
Making a graph ready for an encode. A rejected graph is repaired as a whole; if that does not help, each
caption is judged alone, and one that is still rejected is drawn as plain text.
-/
namespace OpenCaptions

inductive Verdict where
  | accepted
  | rejected (diagnostic : String)
deriving DecidableEq, Repr

/-- A judge of graph text whose chain ends at a label; it may remember what it was asked. -/
abbrev Judge (σ : Type) := (graph label : String) → StateM σ Verdict

/-- A graph for the encode and what was changed in it. -/
structure Prepared where
  graph : FilterGraph
  sanitized : Bool
  /-- The captions that are drawn as plain text. -/
  fallbacks : List Nat
  warnings : List Warning
deriving DecidableEq, Repr

namespace Prepare

/-- Label behind a node that is judged alone. -/
def checkLabel : String := "check"

def graphWarning (message : String) : Warning := ⟨none, none, message⟩

inductive Repair where
  | kept
  | sanitized (body : String)
  | fallback
deriving DecidableEq, Repr

variable {σ : Type}

def judgeAlone (judge : Judge σ) (body : String) : StateM σ Verdict :=
  judge (labelledText inputLabel body checkLabel) checkLabel

/-- Judges a caption's filters alone, as they are and then repaired. -/
def repairNode (judge : Judge σ) (body : String) : StateM σ (Option Repair) := do
  if (← judgeAlone judge body) = .accepted then return some .kept
  match Filter.sanitize? body.toList with
  | none => return none
  | some repaired =>
    let repaired := String.ofList repaired
    if (← judgeAlone judge repaired) = .accepted then return some (.sanitized repaired)
    return some .fallback

/-- Applies a repair to a node that draws the caption `source`, behind what `rest` has become. -/
def applyRepair (node : FilterNode) (source : CaptionSource) (rest : Prepared) : Repair → Prepared
  | .kept => { rest with graph := ⟨node :: rest.graph.nodes⟩ }
  | .sanitized body =>
    { rest with
      graph := ⟨{ node with body } :: rest.graph.nodes⟩
      warnings := ⟨some source.index, some source.presetId,
        "drawtext node repaired by sanitizing"⟩ :: rest.warnings }
  | .fallback =>
    { rest with
      graph := ⟨{ node with body := source.fallback } :: rest.graph.nodes⟩
      fallbacks := source.index :: rest.fallbacks
      warnings := ⟨some source.index, some source.presetId,
        "drawtext node rejected, using plain text without animation"⟩ :: rest.warnings }

def repairNodes (judge : Judge σ) : List FilterNode → StateM σ (Option Prepared)
  | [] => return some ⟨⟨[]⟩, true, [], []⟩
  | node :: nodes =>
    match node.source with
    | none => return (← repairNodes judge nodes).map fun rest =>
        { rest with graph := ⟨node :: rest.graph.nodes⟩ }
    | some source => do
      match ← repairNode judge node.body with
      | none => return none
      | some repair => return (← repairNodes judge nodes).map fun rest => applyRepair node source rest repair

end Prepare

/-- Makes a graph ready; there is no result where a repair has none. -/
def FilterGraph.prepare {σ : Type} (judge : Judge σ) (graph : FilterGraph) : StateM σ (Option Prepared) := do
  match ← judge graph.text graph.outputLabel with
  | .accepted => return some ⟨graph, false, [], []⟩
  | .rejected diagnostic =>
    let rejected := Prepare.graphWarning ("filter graph rejected: " ++ diagnostic)
    match graph.sanitize? with
    | none => return none
    | some sanitized =>
      if (← judge sanitized.text graph.outputLabel) = .accepted then
        return some ⟨sanitized, true, [],
          [rejected, Prepare.graphWarning "filter graph repaired by sanitizing"]⟩
      return (← Prepare.repairNodes judge graph.nodes).map fun prepared =>
        { prepared with warnings := rejected :: prepared.warnings }

end OpenCaptions
