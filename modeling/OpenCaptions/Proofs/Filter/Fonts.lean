import OpenCaptions.Proofs.Filter.Assembled

/-!
Sanitizing an assembled graph. Font files give way to the standard font, and everything else stays, whatever
the texts of the captions and the paths of the fonts look like.
-/
namespace OpenCaptions

open OpenCaptions.Filter

namespace Operation

variable {op other : Operation Float} {ops : List (Operation Float)}

private theorem IsTame.map_optionChars_eq (h : op.IsTame) (h' : other.IsTame) (ho : op.options ≠ [])
    (ho' : other.options ≠ []) (heq : op.chars = other.chars) :
    op.options.map optionChars = other.options.map optionChars := by
  have harguments : Text.join [':'] (op.options.map optionChars) =
      Text.join [':'] (other.options.map optionChars) := by
    have hcut := h.splitOnce?_chars ho
    rw [heq, h'.splitOnce?_chars ho', Option.some.injEq, Prod.mk.injEq] at hcut
    exact hcut.2.symm
  have hsplit := h.splitTopLevel_options ho
  rw [harguments, h'.splitTopLevel_options ho', Except.ok.injEq] at hsplit
  exact hsplit.symm

/-- Text with the standard font in place of font files is other text. -/
theorem IsQuoted.chars_withStandardFont_iff (h : op.IsQuoted) :
    op.withStandardFont.chars = op.chars ↔ ∀ option ∈ op.options, option.1 ≠ "fontfile" := by
  constructor
  · intro heq option hm hkey
    have ho : op.options ≠ [] := List.ne_nil_of_mem hm
    have ho' : op.options.map standardOption ≠ [] := by simpa using ho
    have hmap := h.withStandardFont.tame.map_optionChars_eq h.tame ho' ho heq
    rw [Operation.withStandardFont, List.map_map, List.map_inj_left] at hmap
    have hcut := splitOnce?_optionChars (h.tame.keys option hm)
    have hfont : standardOption option = ("font", .quoted defaultFont) := if_pos hkey
    rw [← hmap option hm, Function.comp_apply, hfont, splitOnce?_optionChars (by decide), hkey,
      Option.some.injEq, Prod.mk.injEq] at hcut
    exact absurd hcut.1 (by decide)
  · intro hne
    have hop : [op].map Operation.withStandardFont = [op] :=
      map_withStandardFont_of_ne (List.forall_mem_singleton.2 hne)
    rw [List.singleton_inj.1 hop]

theorem joined_withStandardFont_iff (hne : ops ≠ []) (h : ∀ op ∈ ops, op.IsQuoted) :
    joined (ops.map withStandardFont) = joined ops ↔
      ∀ op ∈ ops, ∀ option ∈ op.options, option.1 ≠ "fontfile" := by
  constructor
  · intro heq
    have hstandard : ∀ op ∈ ops.map withStandardFont, op.IsTame := by
      rw [List.forall_mem_map]
      exact fun op hm => (h op hm).withStandardFont.tame
    have hsplit := splitTopLevel_joined (by simpa using hne) hstandard
    rw [heq, splitTopLevel_joined hne fun op hm => (h op hm).tame, Except.ok.injEq, List.map_map,
      List.map_inj_left] at hsplit
    exact fun op hm => (h op hm).chars_withStandardFont_iff.1 (hsplit op hm).symm
  · intro hnone
    rw [map_withStandardFont_of_ne hnone]

/-- How a font file is written, and what is written in its place. -/
structure IsFontFile (option : String × OptionValue Float) : Prop where
  file : ∃ path, optionChars option = "fontfile='".toList ++ path ++ ['\'']
  standard : optionChars (standardOption option) = "font='Arial'".toList

theorem IsQuoted.isFontFile (h : op.IsQuoted) {option : String × OptionValue Float} (hm : option ∈ op.options)
    (hkey : option.1 = "fontfile") : IsFontFile option := by
  obtain ⟨path, hvalue, -⟩ := h.file option hm hkey
  have hfont : standardOption option = ("font", .quoted defaultFont) := if_pos hkey
  refine ⟨⟨path.toList, ?_⟩, ?_⟩
  · simp [optionChars, hkey, hvalue, OptionValue.chars, OptionValue.isQuoted, OptionValue.content]
  · rw [hfont]
    decide

end Operation

def FilterNode.withFilters (node : FilterNode) (ops : List (Operation Float)) : FilterNode :=
  { node with body := Operation.joined ops }

namespace FilterGraph

theorem sanitize?_zipWith {nodes : List FilterNode} {filters : List (List (Operation Float))}
    (hbody : List.Forall₂ (fun node ops => node.body = Operation.joined ops) nodes filters)
    (h : ∀ ops ∈ filters, (ops ≠ [] ∧ ∀ op ∈ ops, op.IsQuoted) ∧ Operation.fileCount ops ≤ mostRepairs) :
    FilterGraph.sanitize? ⟨nodes⟩ =
      some ⟨List.zipWith (fun node ops => node.withFilters (ops.map Operation.withStandardFont)) nodes filters⟩ := by
  rw [sanitize?, Option.map_eq_some_iff]
  refine ⟨_, ?_, rfl⟩
  induction hbody with
  | nil => rfl
  | @cons node ops nodes filters hnode hrest ih =>
    rw [List.forall_mem_cons] at h
    obtain ⟨⟨hne, hq⟩, hc⟩ := h.1
    have hsanitized : node.sanitize? = some (node.withFilters (ops.map Operation.withStandardFont)) := by
      rw [FilterNode.sanitize?, hnode, Operation.sanitize?_joined hne hq hc, Option.map_some,
        String.ofList_toList]
      rfl
    rw [List.mapM_cons, hsanitized, ih h.2]
    rfl

private theorem zipWith_withFilters_eq_iff {nodes : List FilterNode} {filters : List (List (Operation Float))}
    (hbody : List.Forall₂ (fun node ops => node.body = Operation.joined ops) nodes filters)
    (f : Operation Float → Operation Float) :
    List.zipWith (fun node ops => node.withFilters (ops.map f)) nodes filters = nodes ↔
      ∀ ops ∈ filters, Operation.joined (ops.map f) = Operation.joined ops := by
  induction hbody with
  | nil => simp
  | @cons node ops nodes filters hnode hrest ih =>
    have hkept : node.withFilters (ops.map f) = node ↔
        Operation.joined (ops.map f) = Operation.joined ops := by
      rw [← hnode]
      exact ⟨fun heq => congrArg FilterNode.body heq, fun heq => by rw [FilterNode.withFilters, heq]⟩
    rw [List.zipWith_cons_cons, List.cons.injEq, List.forall_mem_cons, hkept, ih]

end FilterGraph

namespace GraphRequest

open Assembly

variable {request : GraphRequest} {isFile : String → Bool} {source : Option (Nat × Nat)}
  {built : AssembledGraph}

private theorem name_of_fontFile : ∀ ops ∈ request.filters isFile source, ∀ op ∈ ops, ∀ option ∈ op.options,
    option.1 = "fontfile" → op.name = "drawtext" := by
  have hconversion : ∀ ops ∈ conversionFilters request source, ∀ op ∈ ops, ∀ option ∈ op.options,
      option.1 ≠ "fontfile" := by
    unfold conversionFilters
    split
    · split
      · rw [List.forall_mem_singleton]
        cases request.scaleMode <;>
          simp only [AspectRatio.operations, List.forall_mem_cons, List.forall_mem_append] <;> simp
      · simp
    · simp
  have hcaption : ∀ ops ∈ captionFilters request isFile request.captions, ∀ op ∈ ops, op.name = "drawtext" := by
    unfold captionFilters
    rw [List.forall_mem_map]
    intro c _ op hop
    rcases Drawtext.mem_operations_draw hop with rfl | ⟨timing, color, x, y, box, -, -, -, -, -, rfl⟩
    · rfl
    · rfl
  unfold filters orNullFilter
  split
  · simp
  · rw [List.forall_mem_append]
    exact ⟨fun ops hops op hop option hm hkey => absurd hkey (hconversion ops hops op hop option hm),
      fun ops hops op hop _ _ _ => hcaption ops hops op hop⟩

/-- Sanitizing an assembled graph puts the standard font in place of each font file. Everything else stays,
and so the whole graph exactly if there is no font file. -/
theorem sanitizing_keeps_all_but_fonts (h : request.assemble isFile source = .ok built) :
    List.Forall₂ (fun node ops => node = node.withFilters ops) built.graph.nodes (request.filters isFile source) ∧
      built.graph.sanitize? = some ⟨List.zipWith
        (fun node ops => node.withFilters (ops.map Operation.withStandardFont))
        built.graph.nodes (request.filters isFile source)⟩ ∧
      (∀ ops ∈ request.filters isFile source, ∀ op ∈ ops, ∀ option ∈ op.options, option.1 = "fontfile" →
        op.name = "drawtext" ∧ Operation.IsFontFile option) ∧
      (built.graph.sanitize? = some built.graph ↔
        ∀ ops ∈ request.filters isFile source, ∀ op ∈ ops, ∀ option ∈ op.options, option.1 ≠ "fontfile") := by
  have hbody := forall₂_body h
  have hproper : ∀ ops ∈ request.filters isFile source,
      (ops ≠ [] ∧ ∀ op ∈ ops, op.IsQuoted) ∧ Operation.fileCount ops ≤ mostRepairs := fun ops hops =>
    ⟨isQuoted_of_mem_filters ops hops, fileCount_of_mem_filters ops hops⟩
  have hsanitized := FilterGraph.sanitize?_zipWith hbody hproper
  refine ⟨?_, hsanitized, ?_, ?_⟩
  · refine hbody.imp fun node ops hnode => ?_
    rw [FilterNode.withFilters, ← hnode]
  · exact fun ops hops op hop option hm hkey =>
      ⟨name_of_fontFile ops hops op hop option hm hkey, ((hproper ops hops).1.2 op hop).isFontFile hm hkey⟩
  · rw [hsanitized, Option.some.injEq, FilterGraph.mk.injEq, FilterGraph.zipWith_withFilters_eq_iff hbody]
    exact forall₂_congr fun ops hops =>
      Operation.joined_withStandardFont_iff (hproper ops hops).1.1 (hproper ops hops).1.2

def disguised : GraphRequest where
  captions := [⟨1, 2, "a:fontfile='x':text=b\\", "p", none, false⟩, ⟨3, 4, "font=none", "q", none, false⟩]
  presets := .ofList [("p", { font := "own", outline := true }), ("q", {})]
  fonts := .ofList [("own", ⟨"own", "own.ttf", "/fonts/o':fontfile='wn:text=\\"⟩)]

theorem sanitizing_disguised :
    ∃ built, disguised.assemble (fun _ => true) none = .ok built ∧
      List.Forall₂ (fun node ops => node = node.withFilters ops) built.graph.nodes
        (disguised.filters (fun _ => true) none) ∧
      built.graph.sanitize? = some ⟨List.zipWith
        (fun node ops => node.withFilters (ops.map Operation.withStandardFont))
        built.graph.nodes (disguised.filters (fun _ => true) none)⟩ ∧
      (∀ ops ∈ disguised.filters (fun _ => true) none, ∀ op ∈ ops, ∀ option ∈ op.options,
        option.1 = "fontfile" → op.name = "drawtext" ∧ Operation.IsFontFile option) ∧
      (built.graph.sanitize? = some built.graph ↔
        ∀ ops ∈ disguised.filters (fun _ => true) none, ∀ op ∈ ops, ∀ option ∈ op.options,
          option.1 ≠ "fontfile") :=
  ⟨_, rfl, sanitizing_keeps_all_but_fonts rfl⟩

end GraphRequest

end OpenCaptions
