import OpenCaptions.Filter.Check
import OpenCaptions.Proofs.Filter.Chain
import OpenCaptions.Proofs.Filter.Tame
import OpenCaptions.Proofs.Steps

/-!
The structural check, piece by piece. A graph is accepted exactly if its labels form a chain and each of
its bodies is accepted, a body exactly if each filter is, and a filter exactly if its formulas can be read.
-/
namespace OpenCaptions.Filter

def checkBody (body : List Char) : Except Flaw Unit := do
  (← split ',' body).forM checkFilter

/-- Each segment reads what the one before has produced, and no label is produced twice. -/
def Linked (outputs : List (List Char)) : List (List Char × List Char) → Prop
  | [] => True
  | (input, output) :: rest =>
    (∀ previous ∈ outputs.head?, input = previous) ∧ output ∉ outputs ∧ output ≠ input ∧
      Linked (output :: outputs) rest

theorem split_eq_ok {sep : Char} {s : List Char} {parts : List (List Char)}
    (h : splitTopLevel sep s = .ok parts) : split sep s = .ok parts := by
  rw [split, h]
  rfl

/-- A segment with labels is accepted if its labels fit and its filters are accepted. -/
theorem checkSegments_cons {segment : List Char} {labelled : Labelled} (h : splitLabels? segment = some labelled)
    (i : Nat) (outputs segments : List (List Char)) :
    checkSegments i outputs (segment :: segments) = .ok () ↔
      ((∀ previous ∈ outputs.head?, labelled.input = previous) ∧ labelled.output ∉ outputs ∧
        labelled.output ≠ labelled.input) ∧ checkBody labelled.body = .ok () ∧
          checkSegments (i + 1) (labelled.output :: outputs) segments = .ok () := by
  have hbody : checkBody labelled.body = .ok () ↔
      ∃ filters, split ',' labelled.body = .ok filters ∧ filters.forM checkFilter = .ok () :=
    Failure.bind_eq_ok
  simp only [checkSegments, h]
  cases outputs with
  | nil =>
    rw [Failure.guard_eq_ok, not_or, hbody]
    simp only [Failure.bind_eq_ok]
    constructor
    · rintro ⟨hlabels, filters, hs, u, hf, hrest⟩
      exact ⟨⟨by simp, hlabels⟩, ⟨filters, hs, hf⟩, hrest⟩
    · rintro ⟨⟨-, hlabels⟩, ⟨filters, hs, hf⟩, hrest⟩
      exact ⟨hlabels, filters, hs, (), hf, hrest⟩
  | cons previous outputs =>
    simp only [Failure.guard_eq_ok, Failure.bind_eq_ok, not_or, Classical.not_not, hbody]
    constructor
    · rintro ⟨hinput, hlabels, filters, hs, u, hf, hrest⟩
      exact ⟨⟨by simpa using hinput, hlabels⟩, ⟨filters, hs, hf⟩, hrest⟩
    · rintro ⟨⟨hinput, hlabels⟩, ⟨filters, hs, hf⟩, hrest⟩
      exact ⟨by simpa using hinput, hlabels, filters, hs, (), hf, hrest⟩

def labels (node : FilterNode) : List Char × List Char := (node.input.toList, node.output.toList)

/-- The text of nodes is accepted exactly if their labels are linked and each body is accepted. -/
theorem checkSegments_text {nodes : List FilterNode} (h : ∀ node ∈ nodes, node.IsWhole) (i : Nat)
    (outputs : List (List Char)) :
    checkSegments i outputs (nodes.map fun node => node.text.toList) = .ok () ↔
      Linked outputs (nodes.map labels) ∧ ∀ node ∈ nodes, checkBody node.body.toList = .ok () := by
  induction nodes generalizing i outputs with
  | nil => simp [checkSegments, Linked]
  | cons node nodes ih =>
    rw [List.forall_mem_cons] at h
    rw [List.map_cons, checkSegments_cons h.1.splitLabels?, ih h.2, List.map_cons, List.forall_mem_cons]
    simp only [Linked, labels]
    constructor
    · rintro ⟨⟨hinput, hnew, hdiff⟩, hbody, hlinked, hbodies⟩
      exact ⟨⟨hinput, hnew, hdiff, hlinked⟩, hbody, hbodies⟩
    · rintro ⟨⟨hinput, hnew, hdiff, hlinked⟩, hbody, hbodies⟩
      exact ⟨⟨hinput, hnew, hdiff⟩, hbody, hlinked, hbodies⟩

/-- A formula that the checker can read between quotes or without them. -/
def ReadableFormula (value : List Char) : Prop := ∃ e, Expr.parse (α := Float) (unquote value) = .ok e

theorem unquote_quoted (s : List Char) : unquote ('\'' :: s ++ ['\'']) = s := by
  simp [unquote]

open Operation

section Options

variable {option : String × OptionValue Float}

/-- An option is passed unless it holds a formula that cannot be read. -/
theorem checkOptions_cons (hk : isKey option.1.toList = true)
    (hr : option.1 ∈ formulaKeys → ReadableFormula option.2.chars) (options : List (List Char)) :
    checkOptions (optionChars option :: options) =
      (checkOptions options >>= fun hasText => pure (hasText || decide (option.1 = "text"))) := by
  rw [checkOptions, splitOnce?_optionChars hk]
  simp only [String.ofList_toList]
  by_cases hf : option.1 ∈ formulaKeys
  · obtain ⟨e, he⟩ := hr hf
    rw [if_pos hf, he]
  · rw [if_neg hf]

theorem checkOptions_cons_error (hk : isKey option.1.toList = true) (hf : option.1 ∈ formulaKeys)
    {e : SyntaxError} (he : Expr.parse (α := Float) (unquote option.2.chars) = .error e)
    (options : List (List Char)) :
    checkOptions (optionChars option :: options) =
      .error (.badFormula option.1.toList (unquote option.2.chars) e) := by
  rw [checkOptions, splitOnce?_optionChars hk]
  simp only [String.ofList_toList]
  rw [if_pos hf, he]
  rfl

theorem not_readableFormula {value : List Char} :
    ¬ ReadableFormula value ↔ ∃ e, Expr.parse (α := Float) (unquote value) = .error e := by
  unfold ReadableFormula
  cases Expr.parse (α := Float) (unquote value) <;> simp

/-- The options of drawn text are accepted if the formulas among them can be read. -/
theorem checkOptions_map {options : List (String × OptionValue Float)}
    (h : ∀ option ∈ options, isKey option.1.toList = true) (hasText : Bool) :
    checkOptions (options.map optionChars) = .ok hasText ↔
      (∀ option ∈ options, option.1 ∈ formulaKeys → ReadableFormula option.2.chars) ∧
        hasText = options.any fun option => option.1 = "text" := by
  induction options generalizing hasText with
  | nil => simp [checkOptions, eq_comm]
  | cons option options ih =>
    rw [List.forall_mem_cons] at h
    rw [List.map_cons, List.forall_mem_cons, List.any_cons]
    by_cases hr : option.1 ∈ formulaKeys → ReadableFormula option.2.chars
    · simp only [checkOptions_cons h.1 hr, Failure.bind_eq_ok, ih h.2, Failure.pure_eq_ok]
      constructor
      · rintro ⟨others, ⟨hall, rfl⟩, rfl⟩
        exact ⟨⟨hr, hall⟩, Bool.or_comm _ _⟩
      · rintro ⟨⟨-, hall⟩, rfl⟩
        exact ⟨_, ⟨hall, rfl⟩, Bool.or_comm _ _⟩
    · obtain ⟨hf, hbad⟩ := Classical.not_imp.1 hr
      obtain ⟨e, he⟩ := not_readableFormula.1 hbad
      rw [checkOptions_cons_error h.1 hf he]
      constructor
      · intro hok
        cases hok
      · exact fun hall => absurd hall.1.1 hr

end Options

variable {op : Operation Float} {ops : List (Operation Float)}

theorem checkFilter_of_ne (h : op.IsTame) (hd : op.name ≠ "drawtext") : checkFilter op.chars = .ok () := by
  have hcut : (Text.splitOnce? '=' op.chars).getD (op.chars, []) =
      (op.name.toList, ((Text.splitOnce? '=' op.chars).getD (op.chars, [])).2) := by
    by_cases ho : op.options = []
    · have hn : '=' ∉ op.name.toList := fun hm => by
        cases h.isPlain_name '=' hm
      rw [IsTame.chars_of_nil ho, Text.splitOnce?_eq_none hn]
      rfl
    · rw [h.splitOnce?_chars ho]
      rfl
  unfold checkFilter
  rw [hcut]
  simp [h.known, hd, pure, Except.pure]

theorem checkFilter_eq (h : op.IsTame) (hd : op.name = "drawtext") :
    checkFilter op.chars = (checkOptions (op.options.map optionChars) >>= fun hasText =>
      if hasText then pure () else throw .missingText) := by
  have ho : op.options ≠ [] := by
    intro ho
    have := h.bare ho
    simp [hd] at this
  have hk : ¬ op.name ∉ knownFilters := fun hn => hn h.known
  unfold checkFilter
  rw [h.splitOnce?_chars ho, Option.getD_some]
  simp only [String.ofList_toList, if_neg hk, if_pos hd, split_eq_ok (h.splitTopLevel_options ho)]
  change (checkOptions (op.options.map optionChars) >>= fun hasText => _) = _
  refine congrArg _ (funext fun hasText => ?_)
  cases hasText <;> rfl

/-- A proper filter that draws text is accepted exactly if it has a text and its formulas can be read. -/
theorem checkFilter_drawtext (h : op.IsTame) (hd : op.name = "drawtext") :
    checkFilter op.chars = .ok () ↔ (∃ option ∈ op.options, option.1 = "text") ∧
      ∀ option ∈ op.options, option.1 ∈ formulaKeys → ReadableFormula option.2.chars := by
  have hany : (op.options.any fun option => option.1 = "text") = true ↔
      ∃ option ∈ op.options, option.1 = "text" := by simp
  rw [checkFilter_eq h hd, Failure.bind_eq_ok, ← hany]
  constructor
  · rintro ⟨hasText, hcheck, hguard⟩
    obtain ⟨hall, rfl⟩ := (checkOptions_map h.keys hasText).1 hcheck
    cases htext : op.options.any fun option => option.1 = "text" with
    | false =>
      rw [htext] at hguard
      cases hguard
    | true => exact ⟨rfl, hall⟩
  · rintro ⟨htext, hall⟩
    refine ⟨_, (checkOptions_map h.keys _).2 ⟨hall, rfl⟩, ?_⟩
    rw [htext]
    rfl

theorem checkBody_joined (hne : ops ≠ []) (h : ∀ op ∈ ops, op.IsTame) :
    checkBody (joined ops).toList = (ops.map chars).forM checkFilter := by
  rw [checkBody, split_eq_ok (splitTopLevel_joined hne h)]
  rfl

theorem checkBody_joined_iff (hne : ops ≠ []) (h : ∀ op ∈ ops, op.IsTame) :
    checkBody (joined ops).toList = .ok () ↔ ∀ op ∈ ops, checkFilter op.chars = .ok () := by
  rw [checkBody_joined hne h, Failure.forM_eq_ok, List.forall_mem_map]

open Assembly

/-- The labels of a chain are linked behind the labels with smaller numbers. -/
private theorem linked_chain {number : Nat} {input : String} {outputs : List (List Char)}
    (hin : ∀ previous ∈ outputs.head?, input.toList = previous)
    (hout : ∀ output ∈ outputs, ∃ k < number, output = (label k).toList)
    (hfresh : ∀ k, number ≤ k → label k ≠ input) (bodies : List (String × Option CaptionSource)) :
    Linked outputs ((chain number input bodies).map labels) := by
  induction bodies generalizing number input outputs with
  | nil => trivial
  | cons body bodies ih =>
    have hnew {k : Nat} (hk : k < number) : (label number).toList ≠ (label k).toList := fun h => by
      have := label_injective (String.toList_inj.1 h)
      omega
    refine ⟨hin, ?_, fun h => hfresh number (Nat.le_refl _) (String.toList_inj.1 h), ih ?_ ?_ ?_⟩
    · intro hm
      obtain ⟨k, hk, heq⟩ := hout _ hm
      exact hnew hk heq
    · intro previous hp
      exact Option.some.inj hp
    · rw [List.forall_mem_cons]
      refine ⟨⟨number, by omega, rfl⟩, fun output hm => ?_⟩
      obtain ⟨k, hk, heq⟩ := hout output hm
      exact ⟨k, by omega, heq⟩
    · intro k hk h
      have := label_injective h
      omega

theorem linked_chain_zero (bodies : List (String × Option CaptionSource)) :
    Linked [] ((chain 0 inputLabel bodies).map labels) :=
  linked_chain (by simp) (by simp) (fun k _ => label_ne_inputLabel k) bodies

end OpenCaptions.Filter

namespace OpenCaptions

open OpenCaptions.Filter

/-- A graph whose nodes can be taken apart and whose labels form a chain. -/
structure FilterGraph.IsChain (graph : FilterGraph) : Prop where
  ne_nil : graph.nodes ≠ []
  whole : ∀ node ∈ graph.nodes, node.IsWhole
  linked : Linked [] (graph.nodes.map labels)

theorem FilterGraph.IsChain.checkStructure_eq {graph : FilterGraph} (h : graph.IsChain) :
    checkStructure graph.text.toList = checkSegments 0 [] (graph.nodes.map fun node => node.text.toList) := by
  have hblank : Text.isBlankText graph.text.toList = false := by
    have hne := h.ne_nil
    obtain ⟨nodes⟩ := graph
    obtain ⟨node, nodes, rfl⟩ := List.exists_cons_of_ne_nil hne
    have hchar : '[' ∈ (FilterGraph.mk (node :: nodes)).text.toList := by
      rw [FilterGraph.toList_text, List.map_cons, FilterNode.toList_text]
      cases nodes <;> simp [Text.join]
    rw [Text.isBlankText, List.all_eq_false]
    exact ⟨'[', hchar, by decide⟩
  rw [checkStructure, hblank, split_eq_ok (FilterGraph.splitTopLevel_text h.ne_nil h.whole)]
  rfl

/-- A chain is accepted exactly if each of its bodies is. -/
theorem FilterGraph.IsChain.checkStructure_iff {graph : FilterGraph} (h : graph.IsChain) :
    checkStructure graph.text.toList = .ok () ↔
      ∀ node ∈ graph.nodes, checkBody node.body.toList = .ok () := by
  rw [h.checkStructure_eq, checkSegments_text h.whole]
  exact and_iff_right h.linked

end OpenCaptions
