import OpenCaptions.Proofs.Filter.Chain
import OpenCaptions.Proofs.Filter.Drawn

/-!
The text of an assembled graph. Splitting it at each of the four levels gives back what was printed there:
the nodes, their labels and bodies, the filters of a body, and the options of a filter.
-/
namespace OpenCaptions

open OpenCaptions.Filter

namespace Assembly

def conversionFilters (request : GraphRequest) (source : Option (Nat × Nat)) :
    List (List (Operation Float)) :=
  match request.aspect, source with
  | some aspect, some size =>
    match aspect.frame size with
    | .ok (width, height) => [AspectRatio.operations width height request.scaleMode]
    | .error _ => []
  | _, _ => []

def styleOf (request : GraphRequest) (isFile : String → Bool) (c : Caption Float) : Style Float :=
  Style.ofPreset isFile request.fonts ((request.presets.get? c.presetId).getD {})

/-- The filters of the captions that can be drawn, before they are printed. -/
def captionFilters (request : GraphRequest) (isFile : String → Bool) (captions : List (Caption Float)) :
    List (List (Operation Float)) :=
  (captions.filter fun c => c.validate.isOk).map fun c =>
    (c.draw (styleOf request isFile c) request.fade).operations

def orNullFilter (filters : List (List (Operation Float))) : List (List (Operation Float)) :=
  if filters = [] then [[⟨"null", []⟩]] else filters

end Assembly

/-- The filters of each node of a request's graph, before they are printed. -/
def GraphRequest.filters (request : GraphRequest) (isFile : String → Bool)
    (source : Option (Nat × Nat)) : List (List (Operation Float)) :=
  Assembly.orNullFilter (Assembly.conversionFilters request source ++
    Assembly.captionFilters request isFile request.captions)

namespace Assembly

variable {request : GraphRequest} {isFile : String → Bool} {source : Option (Nat × Nat)}

theorem conversion_eq_ok {converted : List (String × Option CaptionSource)}
    (h : conversion request source = .ok converted) :
    converted = (conversionFilters request source).map (fun ops => (Operation.joined ops, none)) ∧
      (conversionFilters request source).length = if request.aspect.isSome then 1 else 0 := by
  unfold conversion at h
  unfold conversionFilters
  split at h
  · rename_i ha
    cases h
    simp [ha]
  · rename_i aspect ha
    split at h
    · cases h
    · split at h
      · cases h
      · split at h
        · cases h
        · rename_i hf
          cases h
          simp [ha, hf]

theorem map_fst_conversion {converted : List (String × Option CaptionSource)}
    (h : conversion request source = .ok converted) :
    converted.map (·.1) = (conversionFilters request source).map Operation.joined := by
  rw [(conversion_eq_ok h).1, List.map_map]
  rfl

theorem source_conversion {converted : List (String × Option CaptionSource)}
    (h : conversion request source = .ok converted) : ∀ body ∈ converted, body.2 = none := by
  rw [(conversion_eq_ok h).1, List.forall_mem_map]
  exact fun _ _ => rfl

def drawn (request : GraphRequest) (isFile : String → Bool) (captions : List (Caption Float × Nat)) :
    List (String × CaptionSource) :=
  (captions.filter fun (c, _) => c.validate.isOk).map fun (c, index) =>
    (Operation.joined (c.draw (styleOf request isFile c) request.fade).operations,
      ⟨index, c.presetId, (Drawtext.plain c (styleOf request isFile c)).text⟩)

def warned (request : GraphRequest) (isFile : String → Bool) (captions : List (Caption Float × Nat)) :
    List Warning :=
  captions.flatMap fun (c, index) =>
    (piece request isFile index c).messages.map fun message => ⟨some index, some c.presetId, message⟩

/-- Each caption contributes by itself, with its own number. -/
theorem pieces_eq (index : Nat) (captions : List (Caption Float)) :
    pieces request isFile index captions =
      (drawn request isFile (captions.zipIdx index), warned request isFile (captions.zipIdx index)) := by
  induction captions generalizing index with
  | nil => rfl
  | cons c captions ih =>
    simp only [pieces, ih, List.zipIdx_cons, drawn, warned, List.flatMap_cons, List.filter_cons, piece]
    cases c.validate with
    | error e => simp [Except.isOk, Except.toBool]
    | ok u => simp [Except.isOk, Except.toBool, styleOf]

theorem map_fst_pieces (captions : List (Caption Float)) (index : Nat) :
    (pieces request isFile index captions).1.map (·.1) =
      (captionFilters request isFile captions).map Operation.joined := by
  have hcaptions : captions = (captions.zipIdx index).map (·.1) := by simp
  conv_rhs => rw [hcaptions, captionFilters, List.filter_map, List.map_map, List.map_map]
  rw [pieces_eq, drawn, List.map_map]
  rfl

theorem fallback_of_mem_pieces {captions : List (Caption Float)} {index : Nat} :
    ∀ entry ∈ (pieces request isFile index captions).1,
      ∃ c, entry.2.fallback = (Drawtext.plain c (styleOf request isFile c)).text := by
  rw [pieces_eq, drawn, List.forall_mem_map]
  exact fun entry _ => ⟨entry.1, rfl⟩

private theorem map_fst_orNothing {bodies : List (String × Option CaptionSource)}
    {filters : List (List (Operation Float))} (h : bodies.map (·.1) = filters.map Operation.joined) :
    (orNothing bodies).map (·.1) = (orNullFilter filters).map Operation.joined := by
  have hnil : bodies = [] ↔ filters = [] := by
    rw [← List.map_eq_nil_iff (f := (·.1)), h, List.map_eq_nil_iff]
  unfold orNothing orNullFilter
  by_cases hb : bodies = []
  · rw [if_pos hb, if_pos (hnil.1 hb)]
    rfl
  · rw [if_neg hb, if_neg (mt hnil.2 hb), h]

end Assembly

namespace GraphRequest

open Assembly

variable {request : GraphRequest} {isFile : String → Bool} {source : Option (Nat × Nat)}
  {built : AssembledGraph}

/-- Assembling converts the frame, draws the captions and chains the nodes. -/
theorem assemble_eq_ok (h : request.assemble isFile source = .ok built) :
    ∃ converted, conversion request source = .ok converted ∧
      built.graph.nodes = chain 0 inputLabel (orNothing (converted ++
        (pieces request isFile request.firstIndex request.captions).1.map fun entry =>
          (entry.1, some entry.2))) := by
  unfold assemble at h
  cases hc : conversion request source with
  | error e => simp [hc, bind, Except.bind] at h
  | ok converted =>
    simp only [hc, bind, Except.bind, pure, Except.pure, Except.ok.injEq] at h
    exact ⟨converted, rfl, by rw [← h]⟩

/-- The nodes of an assembled graph are printed filters in a chain. -/
theorem nodes_of_assemble (h : request.assemble isFile source = .ok built) :
    ∃ bodies, built.graph.nodes = chain 0 inputLabel bodies ∧
      bodies.map (·.1) = (request.filters isFile source).map Operation.joined := by
  obtain ⟨converted, hc, hnodes⟩ := assemble_eq_ok h
  refine ⟨_, hnodes, map_fst_orNothing ?_⟩
  rw [List.map_append, map_fst_conversion hc, List.map_append, List.map_map]
  exact congrArg _ (map_fst_pieces request.captions request.firstIndex)

theorem isQuoted_of_mem_conversionFilters :
    ∀ ops ∈ conversionFilters request source, ops ≠ [] ∧ ∀ op ∈ ops, op.IsQuoted := by
  unfold conversionFilters
  split
  · split
    · rename_i width height _
      rw [List.forall_mem_singleton]
      exact ⟨AspectRatio.operations_ne_nil width height _,
        fun op hop => (AspectRatio.isQuoted_of_mem_operations width height _ op hop).1⟩
    · simp
  · simp

theorem isQuoted_of_mem_captionFilters (captions : List (Caption Float)) :
    ∀ ops ∈ captionFilters request isFile captions, ops ≠ [] ∧ ∀ op ∈ ops, op.IsQuoted := by
  unfold captionFilters
  rw [List.forall_mem_map]
  intro c _
  exact ⟨Drawtext.draw_ne_nil _, Drawtext.isQuoted_of_mem_draw (Style.isTame_ofPreset _ _ _)⟩

/-- Every filter of a request is proper. -/
theorem isQuoted_of_mem_filters :
    ∀ ops ∈ request.filters isFile source, ops ≠ [] ∧ ∀ op ∈ ops, op.IsQuoted := by
  unfold filters orNullFilter
  split
  · rw [List.forall_mem_singleton, List.forall_mem_singleton]
    exact ⟨by simp, ⟨by simp [knownFilters], by simp, by simp, by simp⟩, by simp, by simp⟩
  · rw [List.forall_mem_append]
    exact ⟨isQuoted_of_mem_conversionFilters, isQuoted_of_mem_captionFilters request.captions⟩

theorem filters_ne_nil : request.filters isFile source ≠ [] := by
  unfold filters orNullFilter
  split
  · simp
  · assumption

end GraphRequest

/-- Splitting the text of a node gives its labels and body, of the body the filters, of a filter its name
and options, and of an option its key and value. -/
structure FilterNode.ReadsAs (node : FilterNode) (ops : List (Operation Float)) : Prop where
  body : node.body = Operation.joined ops
  labels : splitLabels? node.text.toList = some ⟨node.input.toList, node.body.toList, node.output.toList⟩
  filters : splitTopLevel ',' node.body.toList = .ok (ops.map Operation.chars)
  options : ∀ op ∈ ops, op = ⟨"null", []⟩ ∨ ∃ arguments,
    Text.splitOnce? '=' op.chars = some (op.name.toList, arguments) ∧
      splitTopLevel ':' arguments = .ok (op.options.map Operation.optionChars)
  values : ∀ op ∈ ops, ∀ option ∈ op.options,
    Text.splitOnce? '=' (Operation.optionChars option) = some (option.1.toList, option.2.chars)

namespace FilterNode

variable {node : FilterNode} {ops : List (Operation Float)}

theorem toList_joined_ne_nil (hne : ops ≠ []) (h : ∀ op ∈ ops, op.IsTame) :
    (Operation.joined ops).toList ≠ [] := by
  obtain ⟨op, ops, rfl⟩ := List.exists_cons_of_ne_nil hne
  rw [Operation.joined, String.toList_ofList, List.map_cons]
  exact Text.join_ne_nil (h op List.mem_cons_self).chars_ne_nil

/-- A node of tame filters between labels can be taken apart. -/
theorem isWhole_of_isTame (hin : isLabel node.input.toList = true)
    (hout : isLabel node.output.toList = true) (hb : node.body = Operation.joined ops) (hne : ops ≠ [])
    (h : ∀ op ∈ ops, op.IsTame) : node.IsWhole where
  input := hin
  output := hout
  body := hb ▸ Operation.closed_joined h
  bodyNe := hb ▸ toList_joined_ne_nil hne h

theorem IsWhole.readsAs (hw : node.IsWhole) (hb : node.body = Operation.joined ops) (hne : ops ≠ [])
    (h : ∀ op ∈ ops, op.IsTame) : node.ReadsAs ops where
  body := hb
  labels := hw.splitLabels?
  filters := hb ▸ Operation.splitTopLevel_joined hne h
  options := by
    intro op hop
    by_cases ho : op.options = []
    · left
      have hname := (h op hop).bare ho
      obtain ⟨name, options⟩ := op
      exact congrArg₂ Operation.mk hname ho
    · exact .inr ⟨_, (h op hop).splitOnce?_chars ho, (h op hop).splitTopLevel_options ho⟩
  values := fun op hop option hm => Operation.splitOnce?_optionChars ((h op hop).keys option hm)

end FilterNode

namespace GraphRequest

open Assembly

variable {request : GraphRequest} {isFile : String → Bool} {source : Option (Nat × Nat)}
  {built : AssembledGraph}

theorem map_body (h : request.assemble isFile source = .ok built) :
    built.graph.nodes.map (·.body) = (request.filters isFile source).map Operation.joined := by
  obtain ⟨bodies, hnodes, hbodies⟩ := nodes_of_assemble h
  rw [hnodes, map_body_chain, hbodies]

theorem forall₂_body (h : request.assemble isFile source = .ok built) :
    List.Forall₂ (fun node ops => node.body = Operation.joined ops) built.graph.nodes
      (request.filters isFile source) := by
  have hmap := map_body h
  rw [← List.forall₂_eq_eq_eq, List.forall₂_map_left_iff, List.forall₂_map_right_iff] at hmap
  exact hmap

theorem nodes_ne_nil (h : request.assemble isFile source = .ok built) : built.graph.nodes ≠ [] := by
  intro hn
  have hb := forall₂_body h
  rw [hn, List.forall₂_nil_left_iff] at hb
  exact filters_ne_nil hb

theorem exists_filters_of_mem_nodes (h : request.assemble isFile source = .ok built) :
    ∀ node ∈ built.graph.nodes, ∃ ops ∈ request.filters isFile source,
      node.body = Operation.joined ops := by
  intro node hm
  have hbody : node.body ∈ (request.filters isFile source).map Operation.joined := by
    rw [← map_body h]
    exact List.mem_map_of_mem hm
  obtain ⟨ops, hops, hjoined⟩ := List.mem_map.1 hbody
  exact ⟨ops, hops, hjoined.symm⟩

theorem isWhole_of_mem_nodes (h : request.assemble isFile source = .ok built) :
    ∀ node ∈ built.graph.nodes, node.IsWhole := by
  obtain ⟨bodies, hnodes, -⟩ := nodes_of_assemble h
  intro node hm
  have hl := isLabel_of_mem_chain isLabel_inputLabel node (hnodes ▸ hm)
  obtain ⟨ops, hops, hbody⟩ := exists_filters_of_mem_nodes h node hm
  obtain ⟨hne, hq⟩ := isQuoted_of_mem_filters ops hops
  exact FilterNode.isWhole_of_isTame hl.1 hl.2 hbody hne fun op hm => (hq op hm).tame

/-- Splitting the text of an assembled graph gives back everything that was printed, at every level. -/
theorem splitting_undoes_printing (h : request.assemble isFile source = .ok built) :
    splitTopLevel ';' built.graph.text.toList =
        .ok (built.graph.nodes.map fun node => node.text.toList) ∧
      List.Forall₂ FilterNode.ReadsAs built.graph.nodes (request.filters isFile source) := by
  have hw := isWhole_of_mem_nodes h
  have hb := forall₂_body h
  refine ⟨FilterGraph.splitTopLevel_text (nodes_ne_nil h) hw, ?_⟩
  refine List.forall₂_iff_zip.2 ⟨hb.length_eq, fun {node ops} hz => ?_⟩
  obtain ⟨hnode, hops⟩ := List.of_mem_zip hz
  obtain ⟨hne, hq⟩ := isQuoted_of_mem_filters ops hops
  exact (hw node hnode).readsAs (List.forall₂_zip hb hz) hne fun op hm => (hq op hm).tame

def deceptive : GraphRequest where
  captions := [⟨1, 2, "it's [v0];drawtext=text='x':y=0,\\", "a'b", none, false⟩]
  presets := .ofList [("a'b", { font := "own", color := "red':x=0", x := "w/2" })]
  fonts := .ofList [("own", ⟨"own", "own.ttf", "C:\\fonts\\o'wn;[v1]"⟩)]

theorem splitting_deceptive :
    ∃ built, deceptive.assemble (fun _ => true) none = .ok built ∧
      splitTopLevel ';' built.graph.text.toList =
        .ok (built.graph.nodes.map fun node => node.text.toList) ∧
      List.Forall₂ FilterNode.ReadsAs built.graph.nodes (deceptive.filters (fun _ => true) none) :=
  ⟨_, rfl, splitting_undoes_printing rfl⟩

end GraphRequest

end OpenCaptions
