import OpenCaptions.Proofs.Filter.Checking
import OpenCaptions.Proofs.Filter.Preparing
import OpenCaptions.Proofs.Filter.Printing
import OpenCaptions.Proofs.Filter.Sanitizing

/-!
What the nodes of an assembled graph have in common. Their labels are linked, their bodies can be sanitized,
and those without a caption are accepted.
-/
namespace OpenCaptions

open OpenCaptions.Filter

/-- Filters that stay one piece of a graph between any labels. -/
structure IsBody (body : String) : Prop where
  closed : Closed ';' body.toList
  ne_nil : body.toList ≠ []

namespace Operation

theorem isBody_joined {ops : List (Operation Float)} (hne : ops ≠ []) (h : ∀ op ∈ ops, op.IsTame) :
    IsBody (joined ops) := ⟨closed_joined h, FilterNode.toList_joined_ne_nil hne h⟩

theorem fileCount_le_length {ops : List (Operation Float)}
    (h : ∀ op ∈ ops, op.options.countP (·.1 == "fontfile") ≤ 1) : fileCount ops ≤ ops.length := by
  induction ops with
  | nil => exact Nat.le_refl 0
  | cons op ops ih =>
    rw [List.forall_mem_cons] at h
    have := ih h.2
    simp only [fileCount, List.map_cons, List.sum_cons, List.length_cons] at this ⊢
    omega

end Operation

namespace Drawtext

variable {c : Caption Float} {style : Style Float}

theorem countP_pass (color : String) (x y opacity : Expr Float) {box : List (String × OptionValue Float)}
    (hb : box ∈ [[], boxOptions style.background]) :
    (pass c style color x y box opacity).options.countP (·.1 == "fontfile") ≤ 1 := by
  have hbox : box.countP (·.1 == "fontfile") = 0 := by
    rw [List.countP_eq_zero]
    intro option hm hk
    exact boxOptions_keys hb option hm (by simp [eq_of_beq hk])
  cases hfont : style.font <;>
    simp [pass, List.countP_append, hbox, textOption, hfont, fontOption]

theorem fileCount_draw (fade : Float) :
    Operation.fileCount (c.draw style fade).operations ≤ mostRepairs := by
  have hlen : (c.draw style fade).operations.length ≤ 5 := by
    unfold Caption.draw
    split
    · rename_i ha
      obtain ⟨-, -, timing, -, rfl⟩ := animated_eq_ok ha
      unfold outlinePasses
      split <;> simp [corners]
    · simp
  have hcount : ∀ op ∈ (c.draw style fade).operations,
      op.options.countP (·.1 == "fontfile") ≤ 1 := by
    intro op hop
    rcases mem_operations_draw hop with rfl | ⟨timing, color, x, y, box, -, -, -, -, hb, rfl⟩
    · simp [plain, textOption]
    · exact countP_pass color x y timing.opacity hb
  have := Operation.fileCount_le_length hcount
  have hmost : mostRepairs = 64 := rfl
  omega

end Drawtext

namespace GraphRequest

open Assembly

variable {request : GraphRequest} {isFile : String → Bool} {source : Option (Nat × Nat)}
  {built : AssembledGraph}

theorem fileCount_of_mem_filters :
    ∀ ops ∈ request.filters isFile source, Operation.fileCount ops ≤ mostRepairs := by
  have hconversion : ∀ ops ∈ conversionFilters request source,
      Operation.fileCount ops ≤ mostRepairs := by
    unfold conversionFilters
    split
    · split
      · rename_i width height _
        rw [List.forall_mem_singleton]
        cases request.scaleMode <;>
          simp [AspectRatio.operations, Operation.fileCount, mostRepairs]
      · simp
    · simp
  have hcaption : ∀ ops ∈ captionFilters request isFile request.captions,
      Operation.fileCount ops ≤ mostRepairs := by
    unfold captionFilters
    rw [List.forall_mem_map]
    exact fun c _ => Drawtext.fileCount_draw _
  unfold filters orNullFilter
  split
  · simp [Operation.fileCount]
  · rw [List.forall_mem_append]
    exact ⟨hconversion, hcaption⟩

/-- An assembled graph is a chain. -/
theorem isChain_of_assemble (h : request.assemble isFile source = .ok built) : built.graph.IsChain := by
  refine ⟨nodes_ne_nil h, isWhole_of_mem_nodes h, ?_⟩
  obtain ⟨bodies, hnodes, -⟩ := nodes_of_assemble h
  rw [hnodes]
  exact linked_chain_zero bodies

/-- Every body of an assembled graph can be sanitized, and is a body again then. -/
theorem sanitize?_of_mem_nodes (h : request.assemble isFile source = .ok built) :
    ∀ node ∈ built.graph.nodes, ∃ sanitized,
      Filter.sanitize? node.body.toList = some sanitized ∧ IsBody (String.ofList sanitized) := by
  intro node hm
  obtain ⟨ops, hops, hbody⟩ := exists_filters_of_mem_nodes h node hm
  obtain ⟨hne, hq⟩ := isQuoted_of_mem_filters ops hops
  refine ⟨_, hbody ▸ Operation.sanitize?_joined hne hq (fileCount_of_mem_filters ops hops), ?_⟩
  rw [String.ofList_toList]
  refine Operation.isBody_joined (by simpa using hne) ?_
  rw [List.forall_mem_map]
  exact fun op hop => (hq op hop).withStandardFont.tame

theorem exists_sanitize? (h : request.assemble isFile source = .ok built) :
    ∃ sanitized, built.graph.sanitize? = some sanitized := by
  rw [← Option.ne_none_iff_exists', ne_eq, FilterGraph.sanitize?_eq_none_iff]
  rintro ⟨node, hm, hnone⟩
  obtain ⟨body, hb, -⟩ := sanitize?_of_mem_nodes h node hm
  rw [hnone] at hb
  cases hb

/-- A node without a caption converts the frame or changes nothing, and any other one has a caption that can
be drawn plainly. -/
theorem node_cases (h : request.assemble isFile source = .ok built) :
    ∀ node ∈ built.graph.nodes,
      (node.source = none ∧ ∃ ops, (ops ∈ conversionFilters request source ∨ ops = [⟨"null", []⟩]) ∧
        node.body = Operation.joined ops) ∨
      ∃ caption c, node.source = some caption ∧
        caption.fallback = (Drawtext.plain c (styleOf request isFile c)).text := by
  obtain ⟨converted, hc, hnodes⟩ := assemble_eq_ok h
  intro node hm
  rw [hnodes] at hm
  have hentry := mem_of_mem_chain hm
  unfold orNothing at hentry
  split at hentry
  · rw [List.mem_singleton, Prod.mk.injEq] at hentry
    exact .inl ⟨hentry.2, _, .inr rfl, hentry.1.trans (by decide)⟩
  · rw [List.mem_append, List.mem_map] at hentry
    rcases hentry with he | ⟨entry, he, heq⟩
    · have hfst : node.body ∈ (conversionFilters request source).map Operation.joined := by
        rw [← map_fst_conversion hc]
        exact List.mem_map_of_mem he
      obtain ⟨ops, hops, hjoined⟩ := List.mem_map.1 hfst
      exact .inl ⟨source_conversion hc _ he, ops, .inl hops, hjoined.symm⟩
    · obtain ⟨c, hfallback⟩ := fallback_of_mem_pieces entry he
      exact .inr ⟨entry.2, c, (congrArg Prod.snd heq).symm, hfallback⟩

theorem checkBody_of_captionless (h : request.assemble isFile source = .ok built) :
    ∀ node ∈ built.graph.nodes, node.source = none → checkBody node.body.toList = .ok () := by
  intro node hm hs
  rcases node_cases h node hm with ⟨-, ops, hops | rfl, hbody⟩ | ⟨caption, c, hcaption, -⟩
  · unfold conversionFilters at hops
    split at hops
    · split at hops
      · rename_i width height _
        have hall := AspectRatio.isQuoted_of_mem_operations width height request.scaleMode
        rw [List.mem_singleton] at hops
        subst hops
        rw [hbody, checkBody_joined_iff (AspectRatio.operations_ne_nil width height _)
          fun op hop => (hall op hop).1.tame]
        exact fun op hop => checkFilter_of_ne (hall op hop).1.tame (hall op hop).2
      · cases hops
    · cases hops
  · rw [hbody]
    decide
  · rw [hs] at hcaption
    cases hcaption

theorem isBody_fallback (h : request.assemble isFile source = .ok built) :
    ∀ node ∈ built.graph.nodes, ∀ caption, node.source = some caption → IsBody caption.fallback := by
  intro node hm caption hs
  rcases node_cases h node hm with ⟨hnone, -⟩ | ⟨caption', c, hcaption, hfallback⟩
  · rw [hs] at hnone
    cases hnone
  · obtain rfl := Option.some.inj (hs.symm.trans hcaption)
    have htame : (Drawtext.plain c (styleOf request isFile c)).IsTame :=
      Drawtext.isTame_plain (Style.isTame_ofPreset isFile request.fonts _)
    rw [hfallback, ← Operation.joined_singleton]
    exact Operation.isBody_joined (by simp) (by simpa using htame)

end GraphRequest

end OpenCaptions
