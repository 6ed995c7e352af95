import OpenCaptions.Filter.Assembly
import OpenCaptions.Proofs.Filter.Splitting

/-!
Taking graph text apart. A graph of nodes with proper labels and closed bodies splits into its nodes, and
each node into its labels and its body.
-/
namespace OpenCaptions

open OpenCaptions.Filter

namespace Filter

def isLabel (label : List Char) : Bool :=
  label != [] && label.all fun c => c.isAlphanum || c == ':'

theorem isLabel.ne_nil {label : List Char} (h : isLabel label = true) : label ≠ [] := by
  rw [isLabel, Bool.and_eq_true, bne_iff_ne] at h
  exact h.1

theorem not_mem_of_isLabel {label : List Char} (h : isLabel label = true) {c : Char}
    (hc : (c.isAlphanum || c == ':') = false) : c ∉ label := by
  rw [isLabel, Bool.and_eq_true, List.all_eq_true] at h
  intro hm
  rw [h.2 c hm] at hc
  cases hc

theorem Closed.of_isLabel {label : List Char} (h : isLabel label = true) : Closed ';' label := by
  refine .plain fun c hm hc => ?_
  simp only [List.mem_cons, List.not_mem_nil, or_false] at hc
  rcases hc with rfl | rfl | rfl | rfl | rfl
  all_goals exact absurd hm (not_mem_of_isLabel h rfl)

end Filter

/-- A node whose text can be taken apart again. -/
structure FilterNode.IsWhole (node : FilterNode) : Prop where
  input : isLabel node.input.toList = true
  output : isLabel node.output.toList = true
  body : Closed ';' node.body.toList
  bodyNe : node.body.toList ≠ []

namespace FilterNode

theorem toList_text (node : FilterNode) :
    node.text.toList =
      '[' :: (node.input.toList ++ ']' :: (node.body.toList ++ '[' :: node.output.toList ++ [']'])) := by
  simp [text, labelledText]

variable {node : FilterNode}

theorem IsWhole.splitLabels? (h : node.IsWhole) :
    splitLabels? node.text.toList =
      some ⟨node.input.toList, node.body.toList, node.output.toList⟩ := by
  have hin : ']' ∉ node.input.toList := not_mem_of_isLabel h.input rfl
  have hout : ∀ c ∈ node.output.toList, (c == '[') = false := by
    intro c hc
    rw [beq_eq_false_iff_ne]
    rintro rfl
    exact not_mem_of_isLabel h.output rfl hc
  have hquote : '\'' ∉ node.output.toList := not_mem_of_isLabel h.output rfl
  have hcut : Text.splitLast? (· == '[') (node.body.toList ++ '[' :: node.output.toList) =
      some (node.body.toList, node.output.toList) := Text.splitLast?_append rfl _ hout
  rw [toList_text]
  generalize hi : node.body.toList ++ '[' :: node.output.toList = inside at hcut
  simp [Filter.splitLabels?, Text.splitOnce?_append hin, hcut, isLabel.ne_nil h.input,
    isLabel.ne_nil h.output, hquote, h.bodyNe]

theorem IsWhole.closed_text (h : node.IsWhole) : Closed ';' node.text.toList := by
  have hmark (c : Char) (hc : c ∉ ['\\', '\'', '(', ')', ';']) : Closed ';' [c] :=
    .plain (by simpa using hc)
  rw [toList_text]
  exact (hmark '[' (by decide)).append ((Closed.of_isLabel h.input).append
    ((hmark ']' (by decide)).append ((h.body.append ((hmark '[' (by decide)).append
      (Closed.of_isLabel h.output))).append (hmark ']' (by decide)))))

end FilterNode

namespace FilterGraph

theorem toList_text (graph : FilterGraph) :
    graph.text.toList = Text.join [';'] (graph.nodes.map fun node => node.text.toList) := by
  rw [FilterGraph.text, Text.toList_intercalate, List.map_map]
  rfl

/-- Splitting a graph's text at semicolons gives the text of its nodes. -/
theorem splitTopLevel_text {graph : FilterGraph} (hne : graph.nodes ≠ [])
    (h : ∀ node ∈ graph.nodes, node.IsWhole) :
    splitTopLevel ';' graph.text.toList = .ok (graph.nodes.map fun node => node.text.toList) := by
  rw [toList_text]
  refine splitTopLevel_join (by decide) (by simpa using hne) ?_
  rw [List.forall_mem_map]
  exact fun node hm => (h node hm).closed_text

end FilterGraph

namespace Assembly

theorem toList_label (number : Nat) : (label number).toList = 'v' :: Nat.toDigits 10 number := by
  simp [label]

theorem isLabel_label (number : Nat) : isLabel (label number).toList = true := by
  have hd : ∀ c ∈ Nat.toDigits 10 number, (c.isAlphanum || c == ':') = true := by
    intro c hc
    have := Nat.isDigit_of_mem_toDigits (by omega) (by omega) hc
    simp [Char.isAlphanum, this]
  rw [toList_label, isLabel, List.all_cons, List.all_eq_true.2 hd]
  rfl

theorem isLabel_inputLabel : isLabel inputLabel.toList = true := by decide

theorem label_injective {m n : Nat} (h : label m = label n) : m = n := by
  have h' := congrArg String.toList h
  rw [toList_label, toList_label, List.cons.injEq] at h'
  have := congrArg (Nat.ofDigitChars 10 · 0) h'.2
  simpa [Nat.ofDigitChars_ten_toDigits] using this

theorem label_ne_inputLabel (number : Nat) : label number ≠ inputLabel := by
  intro h
  have h' := congrArg String.toList h
  rw [toList_label] at h'
  cases (List.cons.inj h').1

variable {number : Nat} {input : String} {bodies : List (String × Option CaptionSource)}

@[simp] theorem map_body_chain : (chain number input bodies).map (·.body) = bodies.map (·.1) := by
  induction bodies generalizing number input with
  | nil => rfl
  | cons body bodies ih => simp [chain, ih]

theorem mem_of_mem_chain {node : FilterNode} (h : node ∈ chain number input bodies) :
    (node.body, node.source) ∈ bodies := by
  induction bodies generalizing number input with
  | nil => cases h
  | cons body bodies ih =>
    rw [chain, List.mem_cons] at h
    rcases h with rfl | h
    · exact List.mem_cons_self
    · exact List.mem_cons_of_mem _ (ih h)

theorem isLabel_of_mem_chain (hin : isLabel input.toList = true) :
    ∀ node ∈ chain number input bodies,
      isLabel node.input.toList = true ∧ isLabel node.output.toList = true := by
  induction bodies generalizing number input with
  | nil => simp [chain]
  | cons body bodies ih =>
    simp only [chain, List.forall_mem_cons]
    exact ⟨⟨hin, isLabel_label number⟩, ih (isLabel_label number)⟩

end Assembly

end OpenCaptions
