import OpenCaptions.Proofs.Filter.Preparing
import OpenCaptions.Render.Validation

/-!
Preparing a graph in a session. The engine is asked for dry runs only, a bounded number of times, and what
comes back differs from the graph in the filters of its nodes at most.
-/
namespace OpenCaptions.Validation

variable {σ : Type}

/-- From one session to the other the engine did at most `n` dry runs, and none in another mode. -/
def DryRuns (mode : ValidationMode) (n : Nat) (s t : Session σ) : Prop :=
  ∃ asked : List (String × String),
    t.log = s.log ++ asked.map (fun (graph, label) => .ran (dryRunArguments graph label)) ∧
      asked.length ≤ n ∧ (mode ≠ .dryRun → asked = [])

namespace DryRuns

variable {mode : ValidationMode} {m n : Nat} {s t u : Session σ}

theorem refl (n : Nat) (s : Session σ) : DryRuns mode n s s := ⟨[], by simp⟩

theorem trans (hs : DryRuns mode m s t) (ht : DryRuns mode n t u) : DryRuns mode (m + n) s u := by
  obtain ⟨first, hfirst, hm, hnone⟩ := hs
  obtain ⟨second, hsecond, hn, hnone'⟩ := ht
  refine ⟨first ++ second, ?_, ?_, fun h => ?_⟩
  · rw [hsecond, hfirst, List.map_append, List.append_assoc]
  · rw [List.length_append]
    omega
  · rw [hnone h, hnone' h, List.append_nil]

theorem mono (h : DryRuns mode m s t) (hmn : m ≤ n) : DryRuns mode n s t := by
  obtain ⟨asked, hlog, hm, hnone⟩ := h
  exact ⟨asked, hlog, by omega, hnone⟩

end DryRuns

def verdictOf : Except String Finished → Verdict
  | .ok run => if run.succeeded then .accepted else .rejected (summary run.diagnostics)
  | .error _ => .accepted

variable (engine : Engine σ) (mode : ValidationMode)

/-- Everything that a judgement can do. -/
theorem judge_cases (graph label : String) (s : Session σ) :
    (mode = .off ∧ judge engine mode graph label s = (.accepted, s)) ∨
    (mode ≠ .off ∧ ∃ flaw, Filter.checkStructure graph.toList = .error flaw ∧
      judge engine mode graph label s = (.rejected flaw.message, s)) ∨
    (mode = .structural ∧ Filter.checkStructure graph.toList = .ok () ∧
      judge engine mode graph label s = (.accepted, s)) ∨
    (mode = .dryRun ∧ Filter.checkStructure graph.toList = .ok () ∧
      judge engine mode graph label s =
        (verdictOf (Session.run engine (dryRunArguments graph label) s).1,
          (Session.run engine (dryRunArguments graph label) s).2)) := by
  unfold judge
  cases mode with
  | off => exact .inl ⟨rfl, rfl⟩
  | structural =>
    cases Filter.checkStructure graph.toList with
    | error flaw => exact .inr (.inl ⟨by decide, flaw, rfl, rfl⟩)
    | ok u => exact .inr (.inr (.inl ⟨rfl, rfl, rfl⟩))
  | dryRun =>
    cases Filter.checkStructure graph.toList with
    | error flaw => exact .inr (.inl ⟨by decide, flaw, rfl, rfl⟩)
    | ok u =>
      refine .inr (.inr (.inr ⟨rfl, rfl, ?_⟩))
      change (Session.run engine (dryRunArguments graph label) >>= _) s = _
      rw [State.bind_apply]
      cases (Session.run engine (dryRunArguments graph label) s).1 <;> rfl

/-- A judgement takes one dry run at most. -/
theorem dryRuns_judge (graph label : String) (s : Session σ) :
    DryRuns mode 1 s (judge engine mode graph label s).2 := by
  rcases judge_cases engine mode graph label s with
    ⟨-, hj⟩ | ⟨-, flaw, -, hj⟩ | ⟨-, -, hj⟩ | ⟨hm, -, hj⟩
  all_goals rw [hj]
  · exact .refl 1 s
  · exact .refl 1 s
  · exact .refl 1 s
  · exact ⟨[(graph, label)], rfl, Nat.le_refl 1, fun h => absurd hm h⟩

open Prepare

theorem dryRuns_repairNode (body : String) (s : Session σ) :
    DryRuns mode 2 s (repairNode (judge engine mode) body s).2 := by
  have hfirst := dryRuns_judge engine mode (labelledText inputLabel body checkLabel) checkLabel s
  rcases repairNode_cases (judge engine mode) body s with
    ⟨-, hr⟩ | ⟨-, -, hr⟩ | ⟨repaired, again, -, -, rfl, ⟨-, hr⟩ | ⟨-, hr⟩⟩
  all_goals rw [hr]
  · exact hfirst.mono (by omega)
  · exact hfirst.mono (by omega)
  · exact hfirst.trans (dryRuns_judge engine mode _ _ _)
  · exact hfirst.trans (dryRuns_judge engine mode _ _ _)

def captionCount (nodes : List FilterNode) : Nat := nodes.countP fun node => node.source.isSome

private theorem captionCount_cons_captionless {node : FilterNode} (hs : node.source = none)
    (nodes : List FilterNode) :
    captionCount (node :: nodes) = captionCount nodes := by simp [captionCount, hs]

private theorem captionCount_cons_caption {node : FilterNode} {source : CaptionSource}
    (hs : node.source = some source)
    (nodes : List FilterNode) : captionCount (node :: nodes) = captionCount nodes + 1 := by
  simp [captionCount, hs]

theorem dryRuns_repairNodes (nodes : List FilterNode) (s : Session σ) :
    DryRuns mode (2 * captionCount nodes) s (repairNodes (judge engine mode) nodes s).2 := by
  have hrun := repairsTo_repairNodes (judge engine mode) nodes s
  generalize (repairNodes (judge engine mode) nodes s).1 = result at hrun
  generalize (repairNodes (judge engine mode) nodes s).2 = t at hrun ⊢
  induction hrun with
  | done => exact .refl _ _
  | captionless hs _ ih =>
    rw [captionCount_cons_captionless hs]
    exact ih
  | @stuck node nodes source s t hs hr =>
    have hnode := dryRuns_repairNode engine mode node.body s
    rw [hr] at hnode
    rw [captionCount_cons_caption hs]
    exact hnode.mono (by omega)
  | @caption node nodes source repair s t u rest? hs hr _ ih =>
    have hnode := dryRuns_repairNode engine mode node.body s
    rw [hr] at hnode
    rw [captionCount_cons_caption hs]
    exact (hnode.trans ih).mono (by omega)

theorem dryRuns_prepare (graph : FilterGraph) (s : Session σ) :
    DryRuns mode (2 + 2 * captionCount graph.nodes) s (graph.prepare (judge engine mode) s).2 := by
  have hfirst := dryRuns_judge engine mode graph.text graph.outputLabel s
  rcases graph.prepare_cases (judge engine mode) s with
    ⟨t, hj, hp⟩ | ⟨diagnostic, t, hj, ⟨-, hp⟩ | ⟨sanitized, again, -, rfl, ⟨-, hp⟩ | ⟨-, hp⟩⟩⟩
  all_goals
    rw [hj] at hfirst
    rw [hp]
  · exact hfirst.mono (by omega)
  · exact hfirst.mono (by omega)
  · exact (hfirst.trans (dryRuns_judge engine mode _ _ t)).mono (by omega)
  · have hagain := dryRuns_judge engine mode sanitized.text graph.outputLabel t
    exact (hfirst.trans (hagain.trans (dryRuns_repairNodes engine mode graph.nodes _))).mono
      (by omega)

/-- Whatever the engine answers, preparing keeps the labels and captions of all nodes, changes their filters
in one of two ways if at all, and does few dry runs. It has no result only where a body of a rejected graph
cannot be sanitized. -/
theorem prepare_keeps_frame (graph : FilterGraph) (s : Session σ) :
    ((graph.prepare (judge engine mode) s).1 = none ↔
      (judge engine mode graph.text graph.outputLabel s).1 ≠ .accepted ∧
        ∃ node ∈ graph.nodes, Filter.sanitize? node.body.toList = none) ∧
    (∀ prepared, (graph.prepare (judge engine mode) s).1 = some prepared →
      prepared.graph.nodes.map FilterNode.frame = graph.nodes.map FilterNode.frame ∧
      prepared.graph.outputLabel = graph.outputLabel ∧
      (prepared.sanitized = false → prepared = ⟨graph, false, [], []⟩) ∧
      (prepared.sanitized = true → Changes graph prepared)) ∧
    DryRuns mode (2 + 2 * captionCount graph.nodes) s (graph.prepare (judge engine mode) s).2 := by
  refine ⟨graph.prepare_eq_none_iff _ s, fun prepared h => ?_, dryRuns_prepare engine mode graph s⟩
  obtain ⟨hframe, hunchanged, hchanged⟩ := graph.prepare_eq_some _ h
  exact ⟨hframe, FilterGraph.outputLabel_of_frame hframe, hunchanged, hchanged⟩

end OpenCaptions.Validation
