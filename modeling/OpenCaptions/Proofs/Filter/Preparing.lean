import OpenCaptions.Filter.Prepare
import OpenCaptions.Proofs.Steps

/-!
What preparing does to a graph, whatever the judge answers. Labels and captions stay, and the bodies,
fallbacks and warnings of a repaired graph follow from one repair for each node.
-/
namespace OpenCaptions

namespace Prepare

variable {σ : Type} (judge : Judge σ)

/-- Everything that judging and repairing one node can do. -/
theorem repairNode_cases (body : String) (s : σ) :
    ((judgeAlone judge body s).1 = .accepted ∧
      repairNode judge body s = (some .kept, (judgeAlone judge body s).2)) ∨
    ((judgeAlone judge body s).1 ≠ .accepted ∧ Filter.sanitize? body.toList = none ∧
      repairNode judge body s = (none, (judgeAlone judge body s).2)) ∨
    ∃ repaired again, (judgeAlone judge body s).1 ≠ .accepted ∧
      Filter.sanitize? body.toList = some repaired ∧
      again = judgeAlone judge (String.ofList repaired) (judgeAlone judge body s).2 ∧
      (again.1 = .accepted ∧
          repairNode judge body s = (some (.sanitized (String.ofList repaired)), again.2) ∨
        again.1 ≠ .accepted ∧ repairNode judge body s = (some .fallback, again.2)) := by
  simp only [repairNode, State.bind_apply, State.ite_apply, State.pure_apply]
  by_cases hv : (judgeAlone judge body s).1 = .accepted
  · exact .inl ⟨hv, if_pos hv⟩
  · right
    rw [if_neg hv]
    cases hr : Filter.sanitize? body.toList with
    | none => exact .inl ⟨hv, rfl, rfl⟩
    | some repaired =>
      right
      refine ⟨repaired, _, hv, rfl, rfl, ?_⟩
      simp only [State.bind_apply, State.ite_apply, State.pure_apply]
      generalize judgeAlone judge (String.ofList repaired) (judgeAlone judge body s).2 = again
      by_cases ha : again.1 = .accepted
      · exact .inl ⟨ha, if_pos ha⟩
      · exact .inr ⟨ha, if_neg ha⟩

def Repair.body (node : FilterNode) : Repair → String
  | .kept => node.body
  | .sanitized body => body
  | .fallback => (node.source.map CaptionSource.fallback).getD node.body

def Repair.apply (node : FilterNode) (repair : Repair) : FilterNode := { node with body := repair.body node }

/-- A node without a caption is kept, and a sanitized one has the repaired body. -/
def Repair.Fits (node : FilterNode) : Repair → Prop
  | .kept => True
  | .sanitized body => node.source.isSome ∧ Filter.sanitize? node.body.toList = some body.toList
  | .fallback => node.source.isSome

def Repair.replaced? (node : FilterNode) (repair : Repair) : Option Nat :=
  if repair = .fallback then node.source.map CaptionSource.index else none

def Repair.concern? (node : FilterNode) (repair : Repair) : Option (Option Nat × Option String) :=
  if repair = .kept then none else node.source.map fun source => (some source.index, some source.presetId)

def concern (w : Warning) : Option Nat × Option String := (w.caption, w.presetId)

/-- What has become of nodes follows from one repair for each. -/
structure Follows (nodes : List FilterNode) (repairs : List Repair) (prepared : Prepared) : Prop where
  fits : List.Forall₂ Repair.Fits nodes repairs
  graph : prepared.graph.nodes = List.zipWith Repair.apply nodes repairs
  fallbacks : prepared.fallbacks = (List.zipWith Repair.replaced? nodes repairs).filterMap id
  warnings : prepared.warnings.map concern = (List.zipWith Repair.concern? nodes repairs).filterMap id

variable {nodes : List FilterNode} {repairs : List Repair} {rest : Prepared}

theorem Follows.keep (h : Follows nodes repairs rest) (node : FilterNode) :
    Follows (node :: nodes) (.kept :: repairs)
      { rest with graph := ⟨node :: rest.graph.nodes⟩ } where
  fits := .cons trivial h.fits
  graph := by simp [h.graph, Repair.apply, Repair.body]
  fallbacks := by simp [h.fallbacks, Repair.replaced?]
  warnings := by simp [h.warnings, Repair.concern?]

theorem nodes_applyRepair {node : FilterNode} {source : CaptionSource} (hs : node.source = some source)
    (rest : Prepared) (repair : Repair) :
    (applyRepair node source rest repair).graph.nodes = repair.apply node :: rest.graph.nodes := by
  cases repair with
  | kept => rfl
  | sanitized body => rfl
  | fallback => simp [applyRepair, Repair.apply, Repair.body, hs]

theorem Follows.applyRepair {node : FilterNode} {source : CaptionSource} {repair : Repair}
    (h : Follows nodes repairs rest) (hs : node.source = some source) (hf : repair.Fits node) :
    Follows (node :: nodes) (repair :: repairs) (applyRepair node source rest repair) := by
  refine ⟨.cons hf h.fits, ?_, ?_, ?_⟩
  · rw [nodes_applyRepair hs, h.graph, List.zipWith_cons_cons]
  · cases repair <;> simp [Prepare.applyRepair, h.fallbacks, Repair.replaced?, hs]
  · cases repair <;> simp [Prepare.applyRepair, h.warnings, Repair.concern?, concern, hs]

/-- What the repair of a node fits, if there is one. -/
theorem fits_of_repairNode {node : FilterNode} {s : σ} {repair : Repair}
    (hs : node.source.isSome = true) (h : (repairNode judge node.body s).1 = some repair) :
    repair.Fits node := by
  rcases repairNode_cases judge node.body s with ⟨-, hr⟩ | ⟨-, -, hr⟩ |
    ⟨repaired, again, -, hrep, -, ⟨-, hr⟩ | ⟨-, hr⟩⟩
  all_goals
    rw [hr] at h
    cases h
  · trivial
  · exact ⟨hs, by rw [hrep, String.toList_ofList]⟩
  · exact hs

theorem sanitize?_of_repairNode {node : FilterNode} {s : σ}
    (h : (repairNode judge node.body s).1 = none) : Filter.sanitize? node.body.toList = none := by
  rcases repairNode_cases judge node.body s with ⟨-, hr⟩ | ⟨-, hn, hr⟩ |
    ⟨repaired, again, -, hrep, -, ⟨-, hr⟩ | ⟨-, hr⟩⟩
  all_goals rw [hr] at h
  · cases h
  · exact hn
  · cases h
  · cases h

/-- What repairing nodes one by one comes to, from one state of the judge to another. -/
inductive RepairsTo : List FilterNode → σ → Option Prepared → σ → Prop
  | done {s : σ} : RepairsTo [] s (some ⟨⟨[]⟩, true, [], []⟩) s
  | captionless {node : FilterNode} {nodes : List FilterNode} {s t : σ} {rest? : Option Prepared}
      (hs : node.source = none) (h : RepairsTo nodes s rest? t) :
      RepairsTo (node :: nodes) s
        (rest?.map fun rest => { rest with graph := ⟨node :: rest.graph.nodes⟩ }) t
  | stuck {node : FilterNode} {nodes : List FilterNode} {source : CaptionSource} {s t : σ}
      (hs : node.source = some source) (hr : repairNode judge node.body s = (none, t)) :
      RepairsTo (node :: nodes) s none t
  | caption {node : FilterNode} {nodes : List FilterNode} {source : CaptionSource} {repair : Repair}
      {s t u : σ} {rest? : Option Prepared} (hs : node.source = some source)
      (hr : repairNode judge node.body s = (some repair, t)) (h : RepairsTo nodes t rest? u) :
      RepairsTo (node :: nodes) s (rest?.map fun rest => applyRepair node source rest repair) u

theorem repairsTo_repairNodes (nodes : List FilterNode) (s : σ) :
    RepairsTo judge nodes s (repairNodes judge nodes s).1 (repairNodes judge nodes s).2 := by
  induction nodes generalizing s with
  | nil => exact .done
  | cons node nodes ih =>
    cases hs : node.source with
    | none =>
      rw [repairNodes, hs]
      exact .captionless hs (ih s)
    | some source =>
      simp only [repairNodes, hs, State.bind_apply]
      cases hr : repairNode judge node.body s with
      | mk repair? t =>
        cases repair? with
        | none => exact .stuck hs hr
        | some repair => exact .caption hs hr (ih t)

variable {judge} {s t : σ} {result : Option Prepared}

/-- Judging and repairing nodes one by one gives a repair for each. -/
theorem RepairsTo.follows (h : RepairsTo judge nodes s result t) :
    ∀ prepared ∈ result, prepared.sanitized = true ∧ ∃ repairs, Follows nodes repairs prepared := by
  induction h with
  | done =>
    rintro prepared ⟨⟩
    exact ⟨rfl, [], .nil, rfl, rfl, rfl⟩
  | captionless hs h ih =>
    intro prepared hp
    obtain ⟨rest, hrest, rfl⟩ := Option.map_eq_some_iff.1 hp
    obtain ⟨hsan, repairs, hf⟩ := ih rest hrest
    exact ⟨hsan, _, hf.keep _⟩
  | stuck hs hr =>
    rintro prepared ⟨⟩
  | @caption node nodes source repair s t u rest? hs hr h ih =>
    intro prepared hp
    obtain ⟨rest, hrest, rfl⟩ := Option.map_eq_some_iff.1 hp
    obtain ⟨hsan, repairs, hf⟩ := ih rest hrest
    have hfit : repair.Fits node := fits_of_repairNode judge (s := s) (by simp [hs]) (by rw [hr])
    refine ⟨?_, _, hf.applyRepair hs hfit⟩
    cases repair <;> exact hsan

/-- Repairing nodes is stuck only at one that cannot be sanitized. -/
theorem RepairsTo.sanitize?_eq_none (h : RepairsTo judge nodes s result t) (hnone : result = none) :
    ∃ node ∈ nodes, Filter.sanitize? node.body.toList = none := by
  induction h with
  | done => cases hnone
  | captionless hs h ih =>
    obtain ⟨other, hm, hn⟩ := ih (Option.map_eq_none_iff.1 hnone)
    exact ⟨other, List.mem_cons_of_mem _ hm, hn⟩
  | @stuck node nodes source s t hs hr =>
    exact ⟨node, List.mem_cons_self, sanitize?_of_repairNode judge (s := s) (by rw [hr])⟩
  | caption hs hr h ih =>
    obtain ⟨other, hm, hn⟩ := ih (Option.map_eq_none_iff.1 hnone)
    exact ⟨other, List.mem_cons_of_mem _ hm, hn⟩

end Prepare

namespace FilterGraph

open Prepare

variable {σ : Type} (judge : Judge σ) (graph : FilterGraph)

/-- The three ways in which a graph gets ready, and the one in which it does not. -/
theorem prepare_cases (s : σ) :
    (∃ t, judge graph.text graph.outputLabel s = (.accepted, t) ∧
      graph.prepare judge s = (some ⟨graph, false, [], []⟩, t)) ∨
    ∃ diagnostic t, judge graph.text graph.outputLabel s = (.rejected diagnostic, t) ∧
      (graph.sanitize? = none ∧ graph.prepare judge s = (none, t) ∨
      ∃ sanitized again, graph.sanitize? = some sanitized ∧
        again = judge sanitized.text graph.outputLabel t ∧
        (again.1 = .accepted ∧ graph.prepare judge s = (some ⟨sanitized, true, [],
            [graphWarning ("filter graph rejected: " ++ diagnostic),
              graphWarning "filter graph repaired by sanitizing"]⟩, again.2) ∨
          again.1 ≠ .accepted ∧ graph.prepare judge s =
            ((repairNodes judge graph.nodes again.2).1.map fun prepared =>
              { prepared with warnings :=
                  graphWarning ("filter graph rejected: " ++ diagnostic) :: prepared.warnings },
            (repairNodes judge graph.nodes again.2).2))) := by
  unfold prepare
  simp only [State.bind_apply]
  obtain ⟨verdict, t⟩ := judge graph.text graph.outputLabel s
  cases verdict with
  | accepted => exact .inl ⟨t, rfl, rfl⟩
  | rejected diagnostic =>
    refine .inr ⟨diagnostic, t, rfl, ?_⟩
    cases hs : graph.sanitize? with
    | none => exact .inl ⟨rfl, rfl⟩
    | some sanitized =>
      refine .inr ⟨sanitized, _, rfl, rfl, ?_⟩
      simp only [State.bind_apply, State.ite_apply, State.pure_apply]
      by_cases ha : (judge sanitized.text graph.outputLabel t).1 = .accepted
      · exact .inl ⟨ha, if_pos ha⟩
      · exact .inr ⟨ha, if_neg ha⟩

end FilterGraph

def FilterNode.frame (node : FilterNode) : String × String × Option CaptionSource :=
  (node.input, node.output, node.source)

namespace FilterGraph

variable {graph : FilterGraph}

theorem outputLabel_of_frame {other : FilterGraph}
    (h : other.nodes.map FilterNode.frame = graph.nodes.map FilterNode.frame) :
    other.outputLabel = graph.outputLabel := by
  have hlabel (g : FilterGraph) : g.outputLabel =
      (((g.nodes.map FilterNode.frame).getLast?).map fun frame => frame.2.1).getD inputLabel := by
    rw [outputLabel, List.getLast?_map, Option.map_map]
    rfl
  rw [hlabel, hlabel, h]

theorem forall₂_of_sanitize? {sanitized : FilterGraph} (h : graph.sanitize? = some sanitized) :
    List.Forall₂ (fun node node' => Filter.sanitize? node.body.toList = some node'.body.toList ∧
      node'.frame = node.frame) graph.nodes sanitized.nodes := by
  rw [sanitize?, Option.map_eq_some_iff] at h
  obtain ⟨nodes, hm, rfl⟩ := h
  generalize graph.nodes = originals at hm
  induction originals generalizing nodes with
  | nil =>
    cases hm
    exact .nil
  | cons node originals ih =>
    simp only [List.mapM_cons, Option.bind_eq_bind, Option.bind_eq_some_iff, Option.pure_def,
      Option.some.injEq] at hm
    obtain ⟨node', hnode, rest, hrest, rfl⟩ := hm
    rw [FilterNode.sanitize?, Option.map_eq_some_iff] at hnode
    obtain ⟨body, hbody, rfl⟩ := hnode
    exact .cons ⟨by rw [hbody, String.toList_ofList], rfl⟩ (ih rest hrest)

theorem map_frame_of_sanitize? {sanitized : FilterGraph} (h : graph.sanitize? = some sanitized) :
    sanitized.nodes.map FilterNode.frame = graph.nodes.map FilterNode.frame := by
  rw [← List.forall₂_eq_eq_eq, List.forall₂_map_left_iff, List.forall₂_map_right_iff]
  exact (List.Forall₂.flip (forall₂_of_sanitize? h)).imp fun _ _ hn => hn.2

/-- A graph cannot be sanitized exactly if one of its bodies cannot. -/
theorem sanitize?_eq_none_iff :
    graph.sanitize? = none ↔ ∃ node ∈ graph.nodes, Filter.sanitize? node.body.toList = none := by
  rw [sanitize?, Option.map_eq_none_iff]
  generalize graph.nodes = nodes
  induction nodes with
  | nil => simp
  | cons node nodes ih =>
    have hnode : node.sanitize? = none ↔ Filter.sanitize? node.body.toList = none := by
      rw [FilterNode.sanitize?, Option.map_eq_none_iff]
    rw [List.exists_mem_cons_iff, ← ih, ← hnode, List.mapM_cons]
    cases node.sanitize? with
    | none => simp
    | some body => cases nodes.mapM FilterNode.sanitize? <;> simp

end FilterGraph

namespace Prepare

theorem Follows.map_frame {nodes : List FilterNode} {repairs : List Repair} {prepared : Prepared}
    (h : Follows nodes repairs prepared) :
    prepared.graph.nodes.map FilterNode.frame = nodes.map FilterNode.frame := by
  have hf := h.fits
  rw [h.graph]
  clear h
  induction hf with
  | nil => rfl
  | cons _ _ ih => rw [List.zipWith_cons_cons, List.map_cons, List.map_cons, ih]; rfl

/-- What preparing makes of a graph that it changes: one sanitized as a whole, or one with a repair for each
node behind a warning about the graph. -/
inductive Changes (graph : FilterGraph) (prepared : Prepared) : Prop
  | sanitized (fallbacks : prepared.fallbacks = [])
      (bodies : List.Forall₂ (fun node node' =>
        Filter.sanitize? node.body.toList = some node'.body.toList) graph.nodes prepared.graph.nodes)
  | repaired (repairs : List Repair) (leading : Warning) (warnings : List Warning)
      (first : concern leading = (none, none)) (all : prepared.warnings = leading :: warnings)
      (follows : Follows graph.nodes repairs { prepared with warnings })

end Prepare

namespace FilterGraph

open Prepare

variable {σ : Type} (judge : Judge σ) (graph : FilterGraph)

/-- There is no prepared graph exactly if a rejected one cannot be sanitized. -/
theorem prepare_eq_none_iff (s : σ) :
    (graph.prepare judge s).1 = none ↔ (judge graph.text graph.outputLabel s).1 ≠ .accepted ∧
      ∃ node ∈ graph.nodes, Filter.sanitize? node.body.toList = none := by
  rw [← sanitize?_eq_none_iff]
  rcases graph.prepare_cases judge s with
    ⟨t, hj, hp⟩ | ⟨diagnostic, t, hj, ⟨hn, hp⟩ | ⟨sanitized, again, hs, -, ⟨-, hp⟩ | ⟨-, hp⟩⟩⟩
  all_goals rw [hp, hj]
  · simp
  · simp [hn]
  · simp [hs]
  · have hall : ¬ ∃ node ∈ graph.nodes, Filter.sanitize? node.body.toList = none := by
      rw [← sanitize?_eq_none_iff, hs]
      simp
    have hnodes : (repairNodes judge graph.nodes again.2).1 ≠ none :=
      fun h => hall ((repairsTo_repairNodes judge graph.nodes again.2).sanitize?_eq_none h)
    simp [hs, hnodes]

/-- Preparing keeps labels and captions, and changes bodies in one of two ways if at all. -/
theorem prepare_eq_some {s : σ} {prepared : Prepared} (h : (graph.prepare judge s).1 = some prepared) :
    prepared.graph.nodes.map FilterNode.frame = graph.nodes.map FilterNode.frame ∧
      (prepared.sanitized = false → prepared = ⟨graph, false, [], []⟩) ∧
      (prepared.sanitized = true → Changes graph prepared) := by
  rcases graph.prepare_cases judge s with
    ⟨t, hj, hp⟩ | ⟨diagnostic, t, hj, ⟨-, hp⟩ | ⟨sanitized, again, hs, -, ⟨-, hp⟩ | ⟨-, hp⟩⟩⟩
  · rw [hp] at h
    cases h
    exact ⟨rfl, fun _ => rfl, fun hs => by cases hs⟩
  · rw [hp] at h
    cases h
  · rw [hp] at h
    cases h
    refine ⟨map_frame_of_sanitize? hs, (fun h => by cases h), fun _ => ?_⟩
    exact .sanitized rfl ((forall₂_of_sanitize? hs).imp fun _ _ hn => hn.1)
  · rw [hp, Option.map_eq_some_iff] at h
    obtain ⟨rest, hrest, rfl⟩ := h
    obtain ⟨hsan, repairs, hf⟩ := (repairsTo_repairNodes judge graph.nodes again.2).follows rest hrest
    refine ⟨hf.map_frame, (fun h => by rw [hsan] at h; cases h), fun _ => ?_⟩
    exact .repaired repairs _ rest.warnings rfl rfl hf

end FilterGraph

end OpenCaptions
