import OpenCaptions.Proofs.Filter.Assembled
import OpenCaptions.Proofs.Filter.Preparing

/-!
Preparing with a judge that looks at the bodies one by one. Then the prepared graph is accepted, and only
captions that are rejected alone lose their filters.
-/
namespace OpenCaptions.Prepare

open OpenCaptions.Filter

variable {σ : Type}

/-- The judge accepts a chain exactly if every body in it is good. -/
def Local (judge : Judge σ) (good : String → Prop) : Prop :=
  ∀ graph : FilterGraph, graph.IsChain → ∀ s,
    (judge graph.text graph.outputLabel s).1 = .accepted ↔ ∀ node ∈ graph.nodes, good node.body

structure Repairable (good : String → Prop) (node : FilterNode) : Prop where
  whole : node.IsWhole
  sanitized : ∀ body, Filter.sanitize? node.body.toList = some body → IsBody (String.ofList body)
  captionless : node.source = none → good node.body
  fallback : ∀ source, node.source = some source → IsBody source.fallback ∧ good source.fallback

/-- What a node may become: one with a good body, and itself if its body is good already. -/
structure Isolates (good : String → Prop) (node node' : FilterNode) : Prop where
  frame : node'.frame = node.frame
  whole : node'.IsWhole
  accepted : good node'.body
  kept : good node.body → node' = node

variable {judge : Judge σ} {good : String → Prop}

theorem whole_of_body {node : FilterNode} (h : node.IsWhole) {body : String} (hb : IsBody body) :
    FilterNode.IsWhole { node with body } := ⟨h.input, h.output, hb.closed, hb.ne_nil⟩

def alone (body : String) : FilterGraph := ⟨[⟨inputLabel, body, checkLabel, none⟩]⟩

theorem text_alone (body : String) : (alone body).text = labelledText inputLabel body checkLabel := by
  simp [alone, FilterGraph.text, FilterNode.text]

theorem isChain_alone {body : String} (hb : IsBody body) : (alone body).IsChain := by
  have hlabels : isLabel inputLabel.toList = true ∧ isLabel checkLabel.toList = true := by decide
  have hdiff : checkLabel.toList ≠ inputLabel.toList := by decide
  have hwhole : FilterNode.IsWhole ⟨inputLabel, body, checkLabel, none⟩ :=
    ⟨hlabels.1, hlabels.2, hb.closed, hb.ne_nil⟩
  exact ⟨by simp [alone], by simpa [alone] using hwhole, by simp, by simp, hdiff, trivial⟩

/-- A body alone passes the structural check exactly if its filters do. -/
theorem checkStructure_alone {body : String} (hb : IsBody body) :
    checkStructure (labelledText inputLabel body checkLabel).toList = .ok () ↔
      checkBody body.toList = .ok () := by
  have := (isChain_alone hb).checkStructure_iff
  rw [text_alone] at this
  simpa [alone] using this

theorem Local.judgeAlone (h : Local judge good) {body : String} (hb : IsBody body) (s : σ) :
    (judgeAlone judge body s).1 = .accepted ↔ good body := by
  have := h _ (isChain_alone hb) s
  rw [text_alone] at this
  simpa [alone, FilterGraph.outputLabel, Prepare.judgeAlone] using this

/-- Judging and repairing one caption. -/
theorem isolates_repairNode (h : Local judge good) {node : FilterNode} (hr : Repairable good node)
    {source : CaptionSource} (hs : node.source = some source) {s : σ} {repair : Repair}
    (hrepair : (repairNode judge node.body s).1 = some repair) :
    Isolates good node (repair.apply node) := by
  have hbody : IsBody node.body := ⟨hr.whole.body, hr.whole.bodyNe⟩
  have hfirst := h.judgeAlone hbody s
  rcases repairNode_cases judge node.body s with
    ⟨ha, hc⟩ | ⟨ha, -, hc⟩ | ⟨repaired, again, ha, hrep, rfl, ⟨hb, hc⟩ | ⟨hb, hc⟩⟩
  all_goals
    rw [hc] at hrepair
    cases hrepair
  · exact ⟨rfl, hr.whole, hfirst.1 ha, fun _ => rfl⟩
  · have hnew := hr.sanitized repaired hrep
    exact ⟨rfl, whole_of_body hr.whole hnew, (h.judgeAlone hnew _).1 hb,
      fun hg => absurd (hfirst.2 hg) ha⟩
  · have happly : Repair.fallback.apply node = { node with body := source.fallback } := by
      simp [Repair.apply, Repair.body, hs]
    obtain ⟨hwhole, hgood⟩ := hr.fallback source hs
    rw [happly]
    exact ⟨rfl, whole_of_body hr.whole hwhole, hgood, fun hg => absurd (hfirst.2 hg) ha⟩

/-- Judging and repairing nodes one by one. -/
theorem RepairsTo.isolates {nodes : List FilterNode} {s t : σ} {result : Option Prepared}
    (hrun : RepairsTo judge nodes s result t) (h : Local judge good) (hr : ∀ node ∈ nodes, Repairable good node) :
    ∀ prepared ∈ result, List.Forall₂ (Isolates good) nodes prepared.graph.nodes := by
  induction hrun with
  | done =>
    rintro prepared ⟨⟩
    exact .nil
  | captionless hs _ ih =>
    intro prepared hp
    rw [List.forall_mem_cons] at hr
    obtain ⟨rest, hrest, rfl⟩ := Option.map_eq_some_iff.1 hp
    exact .cons ⟨rfl, hr.1.whole, hr.1.captionless hs, fun _ => rfl⟩ (ih hr.2 rest hrest)
  | stuck hs hn =>
    rintro prepared ⟨⟩
  | @caption node nodes source repair s t u rest? hs hn _ ih =>
    intro prepared hp
    rw [List.forall_mem_cons] at hr
    obtain ⟨rest, hrest, rfl⟩ := Option.map_eq_some_iff.1 hp
    rw [nodes_applyRepair hs]
    exact .cons (isolates_repairNode h hr.1 hs (s := s) (by rw [hn])) (ih hr.2 rest hrest)

/-- A graph with the same labels and captions, whose nodes can be taken apart. -/
def Reframes (graph other : FilterGraph) : Prop :=
  List.Forall₂ (fun node node' => node'.frame = node.frame ∧ node'.IsWhole) graph.nodes other.nodes

namespace Reframes

variable {graph other : FilterGraph}

theorem map_frame (h : Reframes graph other) :
    other.nodes.map FilterNode.frame = graph.nodes.map FilterNode.frame := by
  rw [← List.forall₂_eq_eq_eq, List.forall₂_map_left_iff, List.forall₂_map_right_iff]
  exact (List.Forall₂.flip h).imp fun _ _ hn => hn.1

/-- Nodes that keep their labels and can still be taken apart form a chain again. -/
theorem isChain (h : Reframes graph other) (hc : graph.IsChain) : other.IsChain := by
  have hlabels : other.nodes.map labels = graph.nodes.map labels := by
    have hfst (nodes : List FilterNode) : nodes.map labels =
        (nodes.map FilterNode.frame).map fun frame => (frame.1.toList, frame.2.1.toList) := by
      rw [List.map_map]
      rfl
    rw [hfst, hfst, h.map_frame]
  refine ⟨fun hn => ?_, forall_mem_of_forall₂ h fun _ _ hn => hn.2, hlabels ▸ hc.linked⟩
  rw [Reframes, hn, List.forall₂_nil_right_iff] at h
  exact hc.ne_nil h

end Reframes

/-- Sanitizing repairable nodes keeps their labels and captions. -/
private theorem reframes_of_sanitize? {graph sanitized : FilterGraph}
    (hr : ∀ node ∈ graph.nodes, Repairable good node)
    (hs : graph.sanitize? = some sanitized) : Reframes graph sanitized := by
  refine ((List.forall₂_and_left _ _).2 ⟨hr, FilterGraph.forall₂_of_sanitize? hs⟩).imp ?_
  rintro node node' ⟨hnode, hbody, hframe⟩
  have hnew := hnode.sanitized _ hbody
  rw [String.ofList_toList] at hnew
  have hf := hframe
  simp only [FilterNode.frame, Prod.mk.injEq] at hf
  exact ⟨hframe, hf.1 ▸ hnode.whole.input, hf.2.1 ▸ hnode.whole.output, hnew.closed, hnew.ne_nil⟩

/-- Preparing isolates the captions that are rejected: the prepared graph is accepted, and where neither the
graph nor its sanitized form is, captions that are accepted alone stay as they are. -/
theorem Local.isolates_prepare (h : Local judge good) {graph : FilterGraph} (hc : graph.IsChain)
    (hr : ∀ node ∈ graph.nodes, Repairable good node) {sanitized : FilterGraph}
    (hs : graph.sanitize? = some sanitized) (s : σ) :
    ∃ prepared, (graph.prepare judge s).1 = some prepared ∧
      (∀ t, (judge prepared.graph.text prepared.graph.outputLabel t).1 = .accepted) ∧
      ∀ t u, (judge graph.text graph.outputLabel t).1 ≠ .accepted →
        (judge sanitized.text sanitized.outputLabel u).1 ≠ .accepted →
        List.Forall₂ (fun node node' => good node.body → node' = node)
          graph.nodes prepared.graph.nodes := by
  have hreframes := reframes_of_sanitize? hr hs
  have hsc := hreframes.isChain hc
  have hlabel : sanitized.outputLabel = graph.outputLabel := FilterGraph.outputLabel_of_frame hreframes.map_frame
  -- The graph is accepted as it is, cannot be sanitized, is accepted sanitized, or is repaired node by node.
  rcases graph.prepare_cases judge s with
    ⟨t, hj, hp⟩ | ⟨diagnostic, t, hj, ⟨hn, hp⟩ | ⟨sanitized', again, hs', rfl, ⟨ha, hp⟩ | ⟨ha, hp⟩⟩⟩
  · have hgood := (h graph hc s).1 (by rw [hj])
    refine ⟨_, by rw [hp], fun u => (h graph hc u).2 hgood, fun u _ hu => ?_⟩
    exact absurd ((h graph hc u).2 hgood) hu
  · rw [hs] at hn
    cases hn
  · obtain rfl := Option.some.inj (hs.symm.trans hs')
    have hgood := (h sanitized hsc t).1 (by rw [hlabel]; exact ha)
    refine ⟨_, by rw [hp], fun u => (h sanitized hsc u).2 hgood, fun _ u _ hu => ?_⟩
    exact absurd ((h sanitized hsc u).2 hgood) hu
  · cases hrest : (repairNodes judge graph.nodes (judge sanitized'.text graph.outputLabel t).2).1 with
    | none =>
      have := FilterGraph.sanitize?_eq_none_iff.2 ((repairsTo_repairNodes judge _ _).sanitize?_eq_none hrest)
      rw [hs] at this
      cases this
    | some rest =>
      have hi := (repairsTo_repairNodes judge _ _).isolates h hr rest hrest
      have hchain : FilterGraph.IsChain rest.graph :=
        Reframes.isChain (hi.imp fun _ _ hn => ⟨hn.frame, hn.whole⟩) hc
      have hgood : ∀ node' ∈ rest.graph.nodes, good node'.body :=
        forall_mem_of_forall₂ hi fun _ _ hn => hn.accepted
      rw [hrest] at hp
      refine ⟨_, congrArg Prod.fst hp, fun u => (h rest.graph hchain u).2 hgood, fun _ _ _ _ => ?_⟩
      exact hi.imp fun _ _ hn => hn.kept

end OpenCaptions.Prepare
