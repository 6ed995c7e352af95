import OpenCaptions.Proofs.Caption.Opacity
import OpenCaptions.Proofs.Filter.Assembled

/-!
When an assembled graph passes the structural check. Nothing but the formulas of a caption's position can make
it fail: everything else is either checked before it is printed or made by the assembly itself.
-/
namespace OpenCaptions

open OpenCaptions.Filter

namespace Filter

open Operation

theorem unquote_chars {value : OptionValue Float} (h : value.isQuoted = true) :
    unquote value.chars = value.content := by
  rw [OptionValue.chars, if_pos h, unquote_quoted]

variable {p : Flaw → Prop}

/-- Options are rejected only for formulas that cannot be read. -/
theorem only_checkOptions {options : List (String × OptionValue Float)}
    (hkeys : ∀ option ∈ options, isKey option.1.toList = true)
    (h : ∀ option ∈ options, option.1 ∈ formulaKeys → ∀ e,
      Expr.parse (α := Float) (unquote option.2.chars) = .error e →
        p (.badFormula option.1.toList (unquote option.2.chars) e)) :
    Failure.Only p (checkOptions (options.map optionChars)) := by
  induction options with
  | nil => exact .ok false
  | cons option options ih =>
    rw [List.forall_mem_cons] at hkeys h
    rw [List.map_cons]
    by_cases hr : option.1 ∈ formulaKeys → ReadableFormula option.2.chars
    · rw [checkOptions_cons hkeys.1 hr]
      exact (ih hkeys.2 h.2).bind fun hasText _ => .ok _
    · obtain ⟨hf, hbad⟩ := Classical.not_imp.1 hr
      obtain ⟨e, he⟩ := not_readableFormula.1 hbad
      rw [checkOptions_cons_error hkeys.1 hf he]
      exact .error (h.1 hf e he)

variable {op : Operation Float} {ops : List (Operation Float)}

theorem only_checkFilter (h : op.IsTame) (hd : op.name = "drawtext")
    (htext : ∃ option ∈ op.options, option.1 = "text")
    (hp : ∀ option ∈ op.options, option.1 ∈ formulaKeys → ∀ e,
      Expr.parse (α := Float) (unquote option.2.chars) = .error e →
        p (.badFormula option.1.toList (unquote option.2.chars) e)) :
    Failure.Only p (checkFilter op.chars) := by
  rw [checkFilter_eq h hd]
  refine (only_checkOptions h.keys hp).bind fun hasText hcheck => ?_
  obtain ⟨-, rfl⟩ := (checkOptions_map h.keys hasText).1 hcheck
  have hany : (op.options.any fun option => option.1 = "text") = true := by simpa using htext
  rw [hany]
  exact .ok ()

theorem only_checkBody (hne : ops ≠ []) (h : ∀ op ∈ ops, op.IsTame)
    (hp : ∀ op ∈ ops, Failure.Only p (checkFilter op.chars)) :
    Failure.Only p (checkBody (joined ops).toList) := by
  rw [checkBody_joined hne h]
  exact .forM (List.forall_mem_map.2 hp)

private theorem checkSegments_cons_of_labels {segment : List Char} {labelled : Labelled}
    (h : splitLabels? segment = some labelled) {outputs : List (List Char)}
    (hinput : ∀ previous ∈ outputs.head?, labelled.input = previous) (hnew : labelled.output ∉ outputs)
    (hdiff : labelled.output ≠ labelled.input) (i : Nat) (segments : List (List Char)) :
    checkSegments i outputs (segment :: segments) =
      (checkBody labelled.body >>= fun _ => checkSegments (i + 1) (labelled.output :: outputs) segments) := by
  have hlabel : ¬ (labelled.output ∈ outputs ∨ labelled.output = labelled.input) := not_or.2 ⟨hnew, hdiff⟩
  rw [checkBody, bind_assoc, checkSegments, h]
  cases outputs with
  | nil => exact if_neg hlabel
  | cons previous outputs =>
    have hprevious : ¬ labelled.input ≠ previous := not_not.2 (hinput previous rfl)
    exact (if_neg hprevious).trans (if_neg hlabel)

/-- Nodes in a chain are rejected only for what their bodies are rejected for. -/
theorem only_checkSegments {nodes : List FilterNode} (h : ∀ node ∈ nodes, node.IsWhole) (i : Nat)
    {outputs : List (List Char)} (hl : Linked outputs (nodes.map labels))
    (hp : ∀ node ∈ nodes, Failure.Only p (checkBody node.body.toList)) :
    Failure.Only p (checkSegments i outputs (nodes.map fun node => node.text.toList)) := by
  induction nodes generalizing i outputs with
  | nil => exact .ok ()
  | cons node nodes ih =>
    rw [List.forall_mem_cons] at h hp
    obtain ⟨hinput, hnew, hdiff, hrest⟩ := hl
    rw [List.map_cons, checkSegments_cons_of_labels h.1.splitLabels? hinput hnew hdiff]
    exact hp.1.bind fun _ _ => ih h.2 (i + 1) hrest hp.2

end Filter

/-- Chains are rejected only for what their bodies are rejected for. -/
theorem FilterGraph.IsChain.only_checkStructure {graph : FilterGraph} (h : graph.IsChain) {p : Flaw → Prop}
    (hp : ∀ node ∈ graph.nodes, Failure.Only p (checkBody node.body.toList)) :
    Failure.Only p (checkStructure graph.text.toList) := by
  rw [h.checkStructure_eq]
  exact only_checkSegments h.whole 0 h.linked hp

namespace Operation

/-- Whether the formula of an option can be read. -/
def Places (op : Operation Float) (key : String) : Prop :=
  ∃ value, op.option? key = some value ∧ ∃ e, Expr.parse (α := Float) value.content = .ok e

/-- The flaw that a formula of the position leads to if it cannot be read. -/
def MisplacedBy (op : Operation Float) (flaw : Flaw) : Prop :=
  ∃ key ∈ ["x", "y"], ∃ value e, op.option? key = some value ∧
    Expr.parse (α := Float) value.content = .error e ∧ flaw = .badFormula key.toList value.content e

/-- A filter that draws a text at a position, with an opacity that can be read. -/
structure Draws (op : Operation Float) : Prop where
  text : ∃ option ∈ op.options, option.1 = "text"
  position : ∀ key ∈ ["x", "y"], ∃ e, op.option? key = some (.formula e)
  once : ∀ option ∈ op.options, option.1 ∈ ["x", "y"] → op.option? option.1 = some option.2
  opacity : ∀ option ∈ op.options, option.1 = "alpha" →
    ∃ e, option.2 = .formula e ∧ ∃ e', Expr.parse (α := Float) e.chars = .ok e'

variable {op : Operation Float}

theorem mem_of_option? {key : String} {value : OptionValue Float} (h : op.option? key = some value) :
    (key, value) ∈ op.options := by
  obtain ⟨before, after, heq, -⟩ := List.lookup_eq_some_iff.1 h
  simp [heq]

/-- A formula of a filter that draws is that of the opacity, which can be read, or one of the position. -/
theorem Draws.formula_cases (h : op.Draws) :
    ∀ option ∈ op.options, option.1 ∈ formulaKeys → (∃ e, option.2 = .formula e) ∧
      (ReadableFormula option.2.chars ∨ option.1 ∈ ["x", "y"] ∧ op.option? option.1 = some option.2) := by
  intro option hm hk
  by_cases hp : option.1 ∈ ["x", "y"]
  · have honce := h.once option hm hp
    obtain ⟨e, he⟩ := h.position option.1 hp
    exact ⟨⟨e, Option.some.inj (honce.symm.trans he)⟩, .inr ⟨hp, honce⟩⟩
  · have halpha : option.1 = "alpha" := by
      simp only [formulaKeys, List.mem_cons, List.not_mem_nil, or_false] at hk hp
      tauto
    obtain ⟨e, he, e', hparse⟩ := h.opacity option hm halpha
    refine ⟨⟨e, he⟩, .inl ⟨e', ?_⟩⟩
    rw [he, unquote_chars rfl]
    exact hparse

/-- A filter that draws is accepted exactly if its position can be read. -/
theorem Draws.checkFilter_iff (h : op.Draws) (ht : op.IsTame) (hd : op.name = "drawtext") :
    checkFilter op.chars = .ok () ↔ op.Places "x" ∧ op.Places "y" := by
  rw [checkFilter_drawtext ht hd, and_iff_right h.text]
  have hplaces (hall : ∀ option ∈ op.options, option.1 ∈ formulaKeys → ReadableFormula option.2.chars)
      (key : String) (hk : key ∈ ["x", "y"]) : op.Places key := by
    obtain ⟨e, he⟩ := h.position key hk
    have hkey : key ∈ formulaKeys := List.mem_append_left ["alpha"] hk
    obtain ⟨e', hparse⟩ := hall (key, .formula e) (mem_of_option? he) hkey
    rw [unquote_chars rfl] at hparse
    exact ⟨_, he, e', hparse⟩
  constructor
  · intro hall
    exact ⟨hplaces hall "x" (by simp), hplaces hall "y" (by simp)⟩
  · rintro ⟨hx, hy⟩ option hm hk
    obtain ⟨⟨e, he⟩, hread | ⟨hp, honce⟩⟩ := h.formula_cases option hm hk
    · exact hread
    · have hplace : op.Places option.1 := by
        simp only [List.mem_cons, List.not_mem_nil, or_false] at hp
        rcases hp with hp | hp
        · rwa [hp]
        · rwa [hp]
      obtain ⟨value, hvalue, e', hparse⟩ := hplace
      obtain rfl := Option.some.inj (honce.symm.trans hvalue)
      refine ⟨e', ?_⟩
      rwa [unquote_chars (by rw [he]; rfl)]

/-- A filter that draws is rejected for nothing but its position. -/
theorem Draws.only_checkFilter (h : op.Draws) (ht : op.IsTame) (hd : op.name = "drawtext") :
    Failure.Only op.MisplacedBy (checkFilter op.chars) := by
  refine Filter.only_checkFilter ht hd h.text fun option hm hk e he => ?_
  obtain ⟨⟨f, hf⟩, ⟨e', hread⟩ | ⟨hp, honce⟩⟩ := h.formula_cases option hm hk
  · rw [hread] at he
    cases he
  · have hcontent : unquote option.2.chars = option.2.content := unquote_chars (by rw [hf]; rfl)
    rw [hcontent] at he ⊢
    exact ⟨option.1, hp, option.2, e, honce, he, rfl⟩

end Operation

namespace Drawtext

variable {c : Caption Float} {style : Style Float}

theorem draws_plain (c : Caption Float) (style : Style Float) : (plain c style).Draws where
  text := ⟨textOption c.text, List.mem_cons_self, rfl⟩
  position := by
    simp only [List.forall_mem_cons]
    exact ⟨⟨style.x, rfl⟩, ⟨style.y, rfl⟩, by simp⟩
  once := by
    simp [plain, textOption, Operation.option?, List.lookup]
  opacity := by
    simp [plain, textOption]

theorem draws_pass {color : String} {x y opacity : Expr Float} {box : List (String × OptionValue Float)}
    (hb : box ∈ [[], boxOptions style.background])
    (ho : ∃ e, Expr.parse (α := Float) opacity.chars = .ok e) :
    (pass c style color x y box opacity).Draws := by
  have hkeys := boxOptions_keys hb
  have hfont : (fontOption (α := Float) style.font).1 ∉ ["x", "y", "alpha"] := by
    cases style.font <;> simp [fontOption]
  have hx : (pass c style color x y box opacity).option? "x" = some (.formula x) := by
    cases hf : style.font <;> simp [pass, Operation.option?, textOption, hf, fontOption, List.lookup]
  have hy : (pass c style color x y box opacity).option? "y" = some (.formula y) := by
    cases hf : style.font <;> simp [pass, Operation.option?, textOption, hf, fontOption, List.lookup]
  refine ⟨⟨textOption c.text, List.mem_cons_self, rfl⟩, ?_, ?_, ?_⟩
  · simp only [List.forall_mem_cons]
    exact ⟨⟨x, hx⟩, ⟨y, hy⟩, by simp⟩
  all_goals
    simp only [pass, List.forall_mem_append, List.forall_mem_cons, textOption]
  · refine ⟨⟨⟨by simp, fun hk => ?_, by simp, by simp, fun _ => hx, fun _ => hy, by simp⟩, ?_⟩, by simp⟩
    · exact absurd (List.mem_append_left ["alpha"] hk) hfont
    · intro option hm hk
      exact absurd (List.mem_append_right ["text", "font", "fontfile"] (List.mem_append_left ["alpha"] hk))
        (hkeys option hm)
  · refine ⟨⟨⟨by simp, fun hk => ?_, by simp, by simp, by simp, by simp, by simp⟩, ?_⟩,
      fun _ => ⟨opacity, rfl, ho⟩, by simp⟩
    · exact absurd (by simp [hk]) hfont
    · intro option hm hk
      exact absurd (by simp [hk]) (hkeys option hm)

theorem draws_of_mem_draw {fade : Float} : ∀ op ∈ (c.draw style fade).operations, op.Draws := by
  intro op hop
  rcases mem_operations_draw hop with rfl | ⟨timing, color, x, y, box, ht, hf, -, -, hb, rfl⟩
  · exact draws_plain c style
  · exact draws_pass hb (Caption.exists_parse_opacity ht hf)

end Drawtext

namespace GraphRequest

open Assembly

variable {request : GraphRequest} {isFile : String → Bool} {source : Option (Nat × Nat)}
  {built : AssembledGraph}

theorem draws_of_mem_filters : ∀ ops ∈ request.filters isFile source, ∀ op ∈ ops, op.name = "drawtext" → op.Draws := by
  have hconversion : ∀ ops ∈ conversionFilters request source, ∀ op ∈ ops, op.name = "drawtext" → op.Draws := by
    unfold conversionFilters
    split
    · split
      · rename_i width height _
        rw [List.forall_mem_singleton]
        intro op hop hd
        exact absurd hd (AspectRatio.isQuoted_of_mem_operations width height _ op hop).2
      · simp
    · simp
  have hcaption : ∀ ops ∈ captionFilters request isFile request.captions, ∀ op ∈ ops, op.name = "drawtext" →
      op.Draws := by
    unfold captionFilters
    rw [List.forall_mem_map]
    exact fun c _ op hop _ => Drawtext.draws_of_mem_draw op hop
  unfold filters orNullFilter
  split
  · simp
  · rw [List.forall_mem_append]
    exact ⟨hconversion, hcaption⟩

private theorem checkFilter_of_mem_filters :
    ∀ ops ∈ request.filters isFile source, ∀ op ∈ ops,
      (checkFilter op.chars = .ok () ↔ (op.name = "drawtext" → op.Places "x" ∧ op.Places "y")) ∧
        Failure.Only (fun flaw => op.name = "drawtext" ∧ op.MisplacedBy flaw) (checkFilter op.chars) := by
  intro ops hops op hop
  have htame := ((isQuoted_of_mem_filters ops hops).2 op hop).tame
  by_cases hd : op.name = "drawtext"
  · have hdraws := draws_of_mem_filters ops hops op hop hd
    refine ⟨(hdraws.checkFilter_iff htame hd).trans ⟨fun hp _ => hp, fun hp => hp hd⟩, ?_⟩
    exact fun flaw hf => ⟨hd, hdraws.only_checkFilter htame hd flaw hf⟩
  · have hok := checkFilter_of_ne htame hd
    refine ⟨⟨fun _ hd' => absurd hd' hd, fun _ => hok⟩, ?_⟩
    rw [hok]
    exact .ok ()

/-- An assembled graph is accepted exactly if the position of each text in it can be read, and rejected for
nothing but a position that cannot. -/
theorem accepted_iff_places (h : request.assemble isFile source = .ok built) :
    built.graph.nodes.map (·.body) = (request.filters isFile source).map Operation.joined ∧
      (checkStructure built.graph.text.toList = .ok () ↔
        ∀ ops ∈ request.filters isFile source, ∀ op ∈ ops, op.name = "drawtext" →
          op.Places "x" ∧ op.Places "y") ∧
      ∀ flaw, checkStructure built.graph.text.toList = .error flaw →
        ∃ ops ∈ request.filters isFile source, ∃ op ∈ ops, op.name = "drawtext" ∧ op.MisplacedBy flaw := by
  have hchain := isChain_of_assemble h
  have hbodies := map_body h
  have hproper : ∀ ops ∈ request.filters isFile source, ops ≠ [] ∧ ∀ op ∈ ops, op.IsTame := fun ops hops =>
    ⟨(isQuoted_of_mem_filters ops hops).1, fun op hop => ((isQuoted_of_mem_filters ops hops).2 op hop).tame⟩
  refine ⟨hbodies, ?_, ?_⟩
  · calc checkStructure built.graph.text.toList = .ok ()
        ↔ ∀ body ∈ built.graph.nodes.map (·.body), checkBody body.toList = .ok () := by
          rw [hchain.checkStructure_iff, List.forall_mem_map]
      _ ↔ ∀ ops ∈ request.filters isFile source, checkBody (Operation.joined ops).toList = .ok () := by
          rw [hbodies, List.forall_mem_map]
      _ ↔ _ := by
          refine forall₂_congr fun ops hops => ?_
          rw [checkBody_joined_iff (hproper ops hops).1 (hproper ops hops).2]
          exact forall₂_congr fun op hop => (checkFilter_of_mem_filters ops hops op hop).1
  · refine hchain.only_checkStructure fun node hm => ?_
    obtain ⟨ops, hops, hbody⟩ := exists_filters_of_mem_nodes h node hm
    rw [hbody]
    refine only_checkBody (hproper ops hops).1 (hproper ops hops).2 fun op hop flaw hf => ?_
    exact ⟨ops, hops, op, hop, (checkFilter_of_mem_filters ops hops op hop).2 flaw hf⟩

def endless : GraphRequest where
  captions := [⟨5e-324, 1.7976931348623157e308, "a, b", "moving", none, false⟩]
  presets := .ofList [("moving", { animation := .slideFromTop, outline := true, x := "w/2", y := "h +" })]
  fonts := .ofList []

theorem accepted_endless :
    ∃ built, endless.assemble (fun _ => false) none = .ok built ∧
      built.graph.nodes.map (·.body) = (endless.filters (fun _ => false) none).map Operation.joined ∧
      (checkStructure built.graph.text.toList = .ok () ↔
        ∀ ops ∈ endless.filters (fun _ => false) none, ∀ op ∈ ops, op.name = "drawtext" →
          op.Places "x" ∧ op.Places "y") ∧
      ∀ flaw, checkStructure built.graph.text.toList = .error flaw →
        ∃ ops ∈ endless.filters (fun _ => false) none, ∃ op ∈ ops, op.name = "drawtext" ∧ op.MisplacedBy flaw :=
  ⟨_, rfl, accepted_iff_places rfl⟩

end GraphRequest

end OpenCaptions
