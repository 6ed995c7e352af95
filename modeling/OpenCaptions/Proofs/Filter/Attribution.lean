import OpenCaptions.Proofs.Filter.Fonts
import OpenCaptions.Proofs.Filter.Isolating

/-!
The captions that numbered filters lead back to. Sanitizing and preparing leave printed filters in the nodes of
an assembled graph, so counting the filters of printed bodies finds the node of each number.
-/
namespace OpenCaptions

open OpenCaptions.Filter Prepare

def numbered (nodes : List FilterNode) (filters : List (List (Operation Float))) :
    List (Operation Float × Option CaptionSource) :=
  (List.zipWith (fun node ops => ops.map fun op => (op, node.source)) nodes filters).flatten

/-- What a graph can be made into, by any judge. -/
inductive FilterGraph.Becomes (graph : FilterGraph) : FilterGraph → Prop
  | unchanged : Becomes graph graph
  | sanitized {former latter : FilterGraph} (h : Becomes graph former) (hs : former.sanitize? = some latter) :
      Becomes graph latter
  | prepared {σ : Type} {judge : Judge σ} {s : σ} {former : FilterGraph} {prepared : Prepared}
      (h : Becomes graph former) (hp : (former.prepare judge s).1 = some prepared) :
      Becomes graph prepared.graph

/-- Counting filters node by node finds the owner of a number. -/
theorem FilterGraph.ownerIn_eq {nodes : List FilterNode} {filters : List (List (Operation Float))}
    (h : List.Forall₂ (fun node ops => node.filterCount? = some ops.length) nodes filters) (number : Nat) :
    ownerIn number nodes = (numbered nodes filters)[number]?.bind (·.2) := by
  induction h generalizing number with
  | nil => rfl
  | @cons node ops nodes filters hnode _ ih =>
    have hcons : numbered (node :: nodes) (ops :: filters) =
        (ops.map fun op => (op, node.source)) ++ numbered nodes filters := rfl
    rw [ownerIn, hnode, hcons]
    by_cases hn : number < ops.length
    · rw [List.getElem?_append_left (by simpa using hn), List.getElem?_map, List.getElem?_eq_getElem hn]
      simp [hn]
    · rw [List.getElem?_append_right (by simpa using hn), List.length_map, ← ih (number - ops.length)]
      simp [hn]

theorem FilterNode.ReadsAs.filterCount? {node : FilterNode} {ops : List (Operation Float)}
    (h : node.ReadsAs ops) : node.filterCount? = some ops.length := by
  rw [FilterNode.filterCount?, h.filters]
  simp [Except.toOption]

/-- Some filters in a row, written properly and with few enough font files to be sanitized. -/
def IsPrinted (body : String) : Prop :=
  ∃ ops, body = Operation.joined ops ∧ ops ≠ [] ∧ (∀ op ∈ ops, op.IsQuoted) ∧ Operation.fileCount ops ≤ mostRepairs

/-- Sanitizing printed filters gives printed filters. -/
theorem IsPrinted.sanitize? {body : String} (h : IsPrinted body) :
    ∃ repaired, Filter.sanitize? body.toList = some repaired ∧ IsPrinted (String.ofList repaired) := by
  obtain ⟨ops, rfl, hne, hq, hfew⟩ := h
  refine ⟨_, Operation.sanitize?_joined hne hq hfew, ops.map Operation.withStandardFont, String.ofList_toList,
    by simpa using hne, ?_, ?_⟩
  · rw [List.forall_mem_map]
    exact fun op hop => (hq op hop).withStandardFont
  · rw [Operation.fileCount_withStandardFont]
    exact Nat.zero_le _

theorem IsPrinted.of_sanitize? {body body' : String} (h : IsPrinted body)
    (hs : Filter.sanitize? body.toList = some body'.toList) : IsPrinted body' := by
  obtain ⟨repaired, hr, hp⟩ := h.sanitize?
  rw [hs, Option.some.injEq] at hr
  rwa [← hr, String.ofList_toList] at hp

/-- A node with printed filters, and a printed one to stand in for its caption. -/
structure FilterNode.IsProper (node : FilterNode) : Prop where
  input : isLabel node.input.toList = true
  output : isLabel node.output.toList = true
  body : IsPrinted node.body
  fallback : ∀ source, node.source = some source → IsPrinted source.fallback

namespace FilterNode.IsProper

variable {node node' : FilterNode}

theorem exists_readsAs (h : node.IsProper) : ∃ ops, node.ReadsAs ops := by
  obtain ⟨ops, hbody, hne, hq, -⟩ := h.body
  have htame : ∀ op ∈ ops, op.IsTame := fun op hop => (hq op hop).tame
  exact ⟨ops, (isWhole_of_isTame h.input h.output hbody hne htame).readsAs hbody hne htame⟩

theorem isWhole (h : node.IsProper) : node.IsWhole := by
  obtain ⟨ops, hbody, hne, hq, -⟩ := h.body
  exact isWhole_of_isTame h.input h.output hbody hne fun op hop => (hq op hop).tame

theorem of_frame (h : node.IsProper) (hf : node'.frame = node.frame) (hb : IsPrinted node'.body) :
    node'.IsProper := by
  simp only [frame, Prod.mk.injEq] at hf
  exact ⟨hf.1 ▸ h.input, hf.2.1 ▸ h.output, hb, hf.2.2 ▸ h.fallback⟩

theorem repaired (h : node.IsProper) {repair : Repair} (hr : repair.Fits node) : (repair.apply node).IsProper := by
  refine h.of_frame rfl ?_
  cases repair with
  | kept => exact h.body
  | sanitized body => exact h.body.of_sanitize? hr.2
  | fallback =>
    obtain ⟨source, hs⟩ := Option.isSome_iff_exists.1 hr
    simpa [Repair.apply, Repair.body, hs] using h.fallback source hs

end FilterNode.IsProper

namespace FilterGraph

variable {graph other : FilterGraph}

theorem proper_of_sanitize? (h : ∀ node ∈ graph.nodes, node.IsProper) (hs : graph.sanitize? = some other) :
    ∀ node ∈ other.nodes, node.IsProper :=
  forall_mem_of_forall₂ ((List.forall₂_and_left _ _).2 ⟨h, forall₂_of_sanitize? hs⟩)
    fun _ _ ⟨hnode, hbody, hframe⟩ => hnode.of_frame hframe (hnode.body.of_sanitize? hbody)

private theorem proper_of_follows {nodes : List FilterNode} {repairs : List Repair} {prepared : Prepared}
    (h : ∀ node ∈ nodes, node.IsProper) (hf : Follows nodes repairs prepared) :
    ∀ node ∈ prepared.graph.nodes, node.IsProper := by
  have hfits := hf.fits
  rw [hf.graph]
  clear hf
  induction hfits with
  | nil => simp
  | cons hfit _ ih =>
    rw [List.forall_mem_cons] at h
    rw [List.zipWith_cons_cons, List.forall_mem_cons]
    exact ⟨h.1.repaired hfit, ih h.2⟩

theorem proper_of_prepare {σ : Type} {judge : Judge σ} {s : σ} {prepared : Prepared}
    (h : ∀ node ∈ graph.nodes, node.IsProper) (hp : (graph.prepare judge s).1 = some prepared) :
    ∀ node ∈ prepared.graph.nodes, node.IsProper := by
  rcases graph.prepare_cases judge s with
    ⟨t, -, hc⟩ | ⟨diagnostic, t, -, ⟨-, hc⟩ | ⟨sanitized, again, hs, -, ⟨-, hc⟩ | ⟨-, hc⟩⟩⟩
  all_goals rw [hc] at hp
  · cases hp
    exact h
  · cases hp
  · cases hp
    exact proper_of_sanitize? h hs
  · rw [Option.map_eq_some_iff] at hp
    obtain ⟨rest, hrest, rfl⟩ := hp
    obtain ⟨-, repairs, hfollows⟩ := (repairsTo_repairNodes judge _ _).follows rest hrest
    have hproper := proper_of_follows h hfollows
    exact hproper

/-- The nodes of everything that proper nodes become are proper. -/
theorem Becomes.proper (hb : graph.Becomes other) (h : ∀ node ∈ graph.nodes, node.IsProper) :
    ∀ node ∈ other.nodes, node.IsProper := by
  induction hb with
  | unchanged => exact h
  | sanitized _ hs ih => exact proper_of_sanitize? ih hs
  | prepared _ hp ih => exact proper_of_prepare ih hp

theorem exists_sanitize?_of_proper (h : ∀ node ∈ graph.nodes, node.IsProper) :
    ∃ sanitized, graph.sanitize? = some sanitized := by
  rw [← Option.ne_none_iff_exists', ne_eq, sanitize?_eq_none_iff]
  rintro ⟨node, hm, hnone⟩
  obtain ⟨repaired, hr, -⟩ := (h node hm).body.sanitize?
  rw [hnone] at hr
  cases hr

end FilterGraph

namespace GraphRequest

open Assembly

variable {request : GraphRequest} {isFile : String → Bool} {source : Option (Nat × Nat)}
  {built : AssembledGraph}

theorem proper_of_assemble (h : request.assemble isFile source = .ok built) :
    ∀ node ∈ built.graph.nodes, node.IsProper := by
  intro node hm
  have hwhole := isWhole_of_mem_nodes h node hm
  obtain ⟨ops, hops, hbody⟩ := exists_filters_of_mem_nodes h node hm
  obtain ⟨hne, hq⟩ := isQuoted_of_mem_filters ops hops
  refine ⟨hwhole.input, hwhole.output, ⟨ops, hbody, hne, hq, fileCount_of_mem_filters ops hops⟩, fun caption hs => ?_⟩
  rcases node_cases h node hm with ⟨hnone, -⟩ | ⟨caption', c, hcaption, hfallback⟩
  · rw [hs] at hnone
    cases hnone
  · obtain rfl := Option.some.inj (hs.symm.trans hcaption)
    have hq : (Drawtext.plain c (styleOf request isFile c)).IsQuoted :=
      Drawtext.isQuoted_plain (Style.isTame_ofPreset isFile request.fonts _)
    exact ⟨[Drawtext.plain c (styleOf request isFile c)], hfallback, by simp, by simpa using hq,
      by simp [Operation.fileCount, Drawtext.plain, Drawtext.textOption, mostRepairs]⟩

/-- In everything that an assembled graph becomes, each number leads to the caption of the node whose filter it
is, whatever filters the nodes are read as. A number behind the last filter leads nowhere. -/
theorem captionAtFilter_eq_owner (h : request.assemble isFile source = .ok built) {graph : FilterGraph}
    (hb : built.graph.Becomes graph) :
    (∃ filters, List.Forall₂ FilterNode.ReadsAs graph.nodes filters) ∧
      ∀ filters, List.Forall₂ FilterNode.ReadsAs graph.nodes filters → ∀ number,
        graph.captionAtFilter number = (numbered graph.nodes filters)[number]?.bind (·.2) := by
  constructor
  · have hreads : ∀ node ∈ graph.nodes, ∃ ops, node.ReadsAs ops := fun node hm =>
      (hb.proper (proper_of_assemble h) node hm).exists_readsAs
    choose! ops hops using hreads
    refine ⟨graph.nodes.map ops, ?_⟩
    rw [List.forall₂_map_right_iff, List.forall₂_same]
    exact hops
  · exact fun filters hreads number =>
      FilterGraph.ownerIn_eq (hreads.imp fun _ _ hnode => hnode.filterCount?) number

def rejecting : Judge Unit := fun _ _ => return .rejected "Invalid argument"

theorem captionAtFilter_disguised :
    ∃ built prepared, disguised.assemble (fun _ => true) none = .ok built ∧
      (built.graph.prepare rejecting ()).1 = some prepared ∧
      (∃ filters, List.Forall₂ FilterNode.ReadsAs prepared.graph.nodes filters) ∧
        ∀ filters, List.Forall₂ FilterNode.ReadsAs prepared.graph.nodes filters → ∀ number,
          prepared.graph.captionAtFilter number = (numbered prepared.graph.nodes filters)[number]?.bind (·.2) := by
  obtain ⟨built, h⟩ : ∃ built, disguised.assemble (fun _ => true) none = .ok built := ⟨_, rfl⟩
  obtain ⟨prepared, hp⟩ : ∃ prepared, (built.graph.prepare rejecting ()).1 = some prepared := by
    rw [← Option.ne_none_iff_exists', ne_eq, FilterGraph.prepare_eq_none_iff, ← FilterGraph.sanitize?_eq_none_iff]
    obtain ⟨sanitized, hs⟩ := exists_sanitize? h
    simp [hs]
  exact ⟨built, prepared, h, hp, captionAtFilter_eq_owner h (.prepared .unchanged hp)⟩

end GraphRequest

end OpenCaptions
