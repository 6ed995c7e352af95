import OpenCaptions.Proofs.Filter.Printing

/-!
What an assembled graph is composed of. Nothing but the frame of the source can prevent it, its labels number
the nodes of one chain, and each caption adds its own node and warnings, whatever stands around it.
-/
namespace OpenCaptions

open OpenCaptions.Filter

/-- Why the frame of a source cannot be converted as it is requested. -/
inductive GraphRequest.Refused (request : GraphRequest) : Option (Nat × Nat) → AssemblyError → Prop
  | unknown {aspect : AspectRatio Float} (ha : request.aspect = some aspect) :
    request.Refused none .unknownSize
  | empty {aspect : AspectRatio Float} {width height : Nat} (ha : request.aspect = some aspect)
    (hs : width = 0 ∨ height = 0) : request.Refused (some (width, height)) .unknownSize
  | frame {aspect : AspectRatio Float} {width height : Nat} {e : FrameError Float}
    (ha : request.aspect = some aspect) (hw : width ≠ 0) (hh : height ≠ 0)
    (he : aspect.frame (width, height) = .error e) : request.Refused (some (width, height)) (.frame e)

/-- The filters that draw captions and the captions they draw, apart from any conversion of the frame, and
the warnings. -/
def AssembledGraph.contents (built : AssembledGraph) : List (String × CaptionSource) × List Warning :=
  (built.graph.nodes.filterMap fun node => node.source.map fun caption => (node.body, caption),
    built.warnings)

namespace Assembly

variable {request : GraphRequest} {isFile : String → Bool} {source : Option (Nat × Nat)}

theorem drawn_append (xs ys : List (Caption Float × Nat)) :
    drawn request isFile (xs ++ ys) = drawn request isFile xs ++ drawn request isFile ys := by
  rw [drawn, List.filter_append, List.map_append, drawn, drawn]

theorem warned_append (xs ys : List (Caption Float × Nat)) :
    warned request isFile (xs ++ ys) = warned request isFile xs ++ warned request isFile ys :=
  List.flatMap_append

theorem skipped_mem_warned {captions : List (Caption Float × Nat)} {c : Caption Float} {index : Nat}
    {e : CaptionError Float} (hm : (c, index) ∈ captions) (he : c.validate = .error e) :
    ⟨some index, some c.presetId, "skipped: " ++ e.message⟩ ∈ warned request isFile captions := by
  rw [warned, List.mem_flatMap]
  refine ⟨(c, index), hm, ?_⟩
  simp [piece, he]

theorem conversion_eq_error {e : AssemblyError} :
    conversion request source = .error e ↔ request.Refused source e := by
  constructor
  · intro h
    unfold conversion at h
    split at h
    · cases h
    · rename_i aspect ha
      split at h
      · cases h
        exact .unknown ha
      · rename_i width height
        split at h
        · rename_i hs
          cases h
          exact .empty ha hs
        · rename_i hs
          rw [not_or] at hs
          split at h
          · rename_i he
            cases h
            exact .frame ha hs.1 hs.2 he
          · cases h
  · rintro (ha | ⟨ha, hs⟩ | ⟨ha, hw, hh, he⟩)
    · simp [conversion, ha]
    · simp [conversion, ha, hs]
    · simp [conversion, ha, hw, hh, he]

section Chain

variable (number : Nat) (input : String) (bodies : List (String × Option CaptionSource))

theorem map_output_chain :
    (chain number input bodies).map (·.output) = (List.range' number bodies.length).map label := by
  induction bodies generalizing number input with
  | nil => rfl
  | cons body bodies ih =>
    rw [chain, List.map_cons, ih, List.length_cons, List.range'_succ, List.map_cons]

theorem length_chain : (chain number input bodies).length = bodies.length := by
  rw [← List.length_map (·.output), map_output_chain, List.length_map, List.length_range']

theorem map_input_chain :
    (chain number input bodies).map (·.input) =
      (input :: (chain number input bodies).map (·.output)).dropLast := by
  induction bodies generalizing number input with
  | nil => rfl
  | cons body bodies ih => rw [chain, List.map_cons, ih, List.map_cons, List.dropLast_cons_cons]

theorem map_content_chain :
    (chain number input bodies).map (fun node => (node.body, node.source)) = bodies := by
  induction bodies generalizing number input with
  | nil => rfl
  | cons body bodies ih => rw [chain, List.map_cons, ih]

theorem nodup_labels (count : Nat) : (inputLabel :: (List.range' 0 count).map label).Nodup := by
  rw [List.nodup_cons]
  refine ⟨fun hm => ?_, List.Nodup.map (fun _ _ => label_injective) List.nodup_range'⟩
  obtain ⟨k, -, hk⟩ := List.mem_map.1 hm
  exact label_ne_inputLabel k hk

end Chain

/-- Nodes without a caption add nothing to the contents of a graph. -/
theorem contents_chain {converted : List (String × Option CaptionSource)}
    (hc : ∀ body ∈ converted, body.2 = none) (drawn : List (String × CaptionSource)) (warnings : List Warning) :
    AssembledGraph.contents ⟨⟨chain 0 inputLabel
        (orNothing (converted ++ drawn.map fun entry => (entry.1, some entry.2)))⟩, warnings⟩ =
      (drawn, warnings) := by
  have hcaptions (bodies : List (String × Option CaptionSource)) :
      (chain 0 inputLabel bodies).filterMap (fun node => node.source.map fun caption => (node.body, caption)) =
        bodies.filterMap fun body => body.2.map fun caption => (body.1, caption) := by
    conv_rhs => rw [← map_content_chain 0 inputLabel bodies]
    rw [List.filterMap_map]
    rfl
  have hconverted : converted.filterMap (fun body => body.2.map fun caption => (body.1, caption)) = [] := by
    rw [List.filterMap_eq_nil_iff]
    intro body hm
    rw [hc body hm, Option.map_none]
  have hdrawn : (drawn.map fun entry => (entry.1, some entry.2)).filterMap
      (fun body => body.2.map fun caption => (body.1, caption)) = drawn := by
    rw [List.filterMap_map]
    exact List.filterMap_some
  rw [AssembledGraph.contents, hcaptions, Prod.mk.injEq, orNothing]
  refine ⟨?_, rfl⟩
  split
  · rename_i hnil
    rw [List.append_eq_nil_iff, List.map_eq_nil_iff] at hnil
    rw [hnil.2]
    rfl
  · rw [List.filterMap_append, hconverted, hdrawn, List.nil_append]

end Assembly

open Assembly

/-- What an assembled graph is composed of: a chain with one node for the conversion that is requested and
one for each valid caption, or else with a node that changes nothing. -/
structure AssembledGraph.Composes (built : AssembledGraph) (request : GraphRequest) (isFile : String → Bool)
    (source : Option (Nat × Nat)) : Prop where
  ne_nil : built.graph.nodes ≠ []
  outputs : built.graph.nodes.map (·.output) = (List.range built.graph.nodes.length).map label
  inputs : built.graph.nodes.map (·.input) = (inputLabel :: built.graph.nodes.map (·.output)).dropLast
  distinct : (inputLabel :: built.graph.nodes.map (·.output)).Nodup
  bodies : built.graph.nodes.map (fun node => (node.body, node.source)) =
    orNothing ((conversionFilters request source).map (fun ops => (Operation.joined ops, none)) ++
      (drawn request isFile (request.captions.zipIdx request.firstIndex)).map
        fun (body, caption) => (body, some caption))
  conversion : (conversionFilters request source).length = if request.aspect.isSome then 1 else 0
  contents : built.contents = (drawn request isFile (request.captions.zipIdx request.firstIndex),
    warned request isFile (request.captions.zipIdx request.firstIndex))
  skipped : ∀ c index e, (c, index) ∈ request.captions.zipIdx request.firstIndex → c.validate = .error e →
    ⟨some index, some c.presetId, "skipped: " ++ e.message⟩ ∈ built.warnings
  /-- The frame of the source has no influence on the captions. -/
  independent : ∀ aspect mode other built',
    GraphRequest.assemble { request with aspect := aspect, scaleMode := mode } isFile other = .ok built' →
      built'.contents = built.contents

namespace GraphRequest

variable {request : GraphRequest} {isFile : String → Bool} {source : Option (Nat × Nat)}
  {built : AssembledGraph}

theorem assemble_eq_map : request.assemble isFile source =
    (conversion request source).map fun converted =>
      ⟨⟨chain 0 inputLabel (orNothing (converted ++
          (drawn request isFile (request.captions.zipIdx request.firstIndex)).map
            fun (body, caption) => (body, some caption)))⟩,
        warned request isFile (request.captions.zipIdx request.firstIndex)⟩ := by
  unfold assemble
  rw [pieces_eq]
  cases conversion request source <;> rfl

theorem contents_assemble : (request.assemble isFile source).map AssembledGraph.contents =
    (conversion request source).map fun _ =>
      (drawn request isFile (request.captions.zipIdx request.firstIndex),
        warned request isFile (request.captions.zipIdx request.firstIndex)) := by
  rw [assemble_eq_map]
  cases hc : conversion request source with
  | error e => rfl
  | ok converted => exact congrArg Except.ok (contents_chain (source_conversion hc) _ _)

/-- A graph that could be assembled is a chain behind its conversion. -/
theorem eq_of_assemble (h : request.assemble isFile source = .ok built) :
    ∃ converted, Assembly.conversion request source = .ok converted ∧
      built = ⟨⟨chain 0 inputLabel (orNothing (converted ++
          (drawn request isFile (request.captions.zipIdx request.firstIndex)).map
            fun (body, caption) => (body, some caption)))⟩,
        warned request isFile (request.captions.zipIdx request.firstIndex)⟩ := by
  rw [assemble_eq_map] at h
  cases hc : Assembly.conversion request source with
  | error e =>
    rw [hc] at h
    cases h
  | ok converted =>
    rw [hc] at h
    exact ⟨converted, rfl, (Except.ok.inj h).symm⟩

theorem contents_of_assemble (h : request.assemble isFile source = .ok built) :
    built.contents = (drawn request isFile (request.captions.zipIdx request.firstIndex),
      warned request isFile (request.captions.zipIdx request.firstIndex)) := by
  obtain ⟨converted, hc, rfl⟩ := eq_of_assemble h
  exact contents_chain (source_conversion hc) _ _

theorem composes_of_assemble (h : request.assemble isFile source = .ok built) :
    built.Composes request isFile source := by
  have hne := nodes_ne_nil h
  have hcontents := contents_of_assemble h
  obtain ⟨converted, hc, rfl⟩ := eq_of_assemble h
  obtain ⟨hconverted, hcount⟩ := conversion_eq_ok hc
  refine ⟨hne, ?_, map_input_chain 0 inputLabel _, ?_, ?_, hcount, hcontents, ?_, ?_⟩
  · rw [map_output_chain, length_chain, List.range_eq_range']
  · rw [map_output_chain]
    exact nodup_labels _
  · rw [map_content_chain, ← hconverted]
  · exact fun c index e hm he => skipped_mem_warned hm he
  · intro aspect mode other built' h'
    have hcontents' := contents_of_assemble h'
    rw [hcontents, hcontents']
    rfl

/-- Captions in a row contribute what the first ones and the others do. -/
theorem contents_append (request : GraphRequest) (xs ys : List (Caption Float)) :
    (assemble { request with captions := xs ++ ys } isFile source).map AssembledGraph.contents = do
      let front ← (assemble { request with captions := xs } isFile source).map AssembledGraph.contents
      let back ← (assemble { request with captions := ys, firstIndex := request.firstIndex + xs.length }
        isFile source).map AssembledGraph.contents
      return (front.1 ++ back.1, front.2 ++ back.2) := by
  have hconversion (captions : List (Caption Float)) (index : Nat) :
      Assembly.conversion { request with captions := captions, firstIndex := index } source =
        Assembly.conversion request source := rfl
  simp only [contents_assemble, hconversion, List.zipIdx_append, drawn_append, warned_append]
  cases Assembly.conversion request source <;> rfl

/-- Assembling fails only if the frame of the source cannot be converted. What it gives otherwise is composed
of what each caption contributes by itself, and so captions can be assembled in two parts. -/
theorem assembling_composes (request : GraphRequest) (isFile : String → Bool) (source : Option (Nat × Nat)) :
    (match request.assemble isFile source with
      | .error e => request.Refused source e
      | .ok built => (∀ e, ¬ request.Refused source e) ∧ built.Composes request isFile source) ∧
    ∀ xs ys, (assemble { request with captions := xs ++ ys } isFile source).map AssembledGraph.contents = do
      let front ← (assemble { request with captions := xs } isFile source).map AssembledGraph.contents
      let back ← (assemble { request with captions := ys, firstIndex := request.firstIndex + xs.length }
        isFile source).map AssembledGraph.contents
      return (front.1 ++ back.1, front.2 ++ back.2) := by
  constructor
  · cases h : request.assemble isFile source with
    | error e =>
      rw [assemble_eq_map] at h
      cases hc : Assembly.conversion request source with
      | error e' =>
        rw [hc] at h
        obtain rfl := Except.error.inj h
        exact conversion_eq_error.1 hc
      | ok converted =>
        rw [hc] at h
        cases h
    | ok built =>
      refine ⟨fun e hr => ?_, composes_of_assemble h⟩
      rw [assemble_eq_map, conversion_eq_error.2 hr] at h
      cases h
  · exact fun xs ys => contents_append request xs ys

end GraphRequest

end OpenCaptions
