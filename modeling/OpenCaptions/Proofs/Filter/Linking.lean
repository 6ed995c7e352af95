import OpenCaptions.Proofs.Filter.Checking

/-!
What the structural check says about graph text of any origin. The text is accepted exactly if it splits into labelled
segments, each of which reads what the one before it has produced, no two of which produce the same label, and the
filters of which are accepted. The label that the chain starts from is kept apart from the first output only.
-/
namespace OpenCaptions.Filter

variable {graph filter s : List Char} {outputs parts segments : List (List Char)} {sep : Char} {nesting : Nesting}

theorem ne_nil_of_splitFrom {offset : Nat} (h : splitFrom sep nesting offset s = .ok parts) : parts ≠ [] := by
  have hextend (c : Char) (parts : List (List Char)) : extendFirst c parts ≠ [] := by
    cases parts <;> simp [extendFirst]
  cases s with
  | nil =>
    rw [splitFrom] at h
    split_ifs at h
    cases h
    simp
  | cons c rest =>
    rw [splitFrom] at h
    dsimp only at h
    split_ifs at h
    all_goals
      obtain ⟨tail, -, rfl⟩ := Failure.map_eq_ok.1 h
      simp [hextend]

/-- Segments are accepted exactly if each has labels, the labels are linked and each body is accepted. -/
theorem checkSegments_eq_ok (i : Nat) :
    checkSegments i outputs segments = .ok () ↔
      ∃ parts, List.Forall₂ (fun segment part => splitLabels? segment = some part) segments parts ∧
        Linked outputs (parts.map fun part => (part.input, part.output)) ∧
        ∀ part ∈ parts, checkBody part.body = .ok () := by
  induction segments generalizing i outputs with
  | nil =>
    simp only [List.forall₂_nil_left_iff, exists_eq_left]
    simp [checkSegments, Linked]
  | cons segment segments ih =>
    simp only [List.forall₂_cons_left_iff]
    cases hsplit : splitLabels? segment with
    | none => simp [checkSegments, hsplit, throw, throwThe, MonadExceptOf.throw]
    | some part =>
      rw [checkSegments_cons hsplit, ih]
      constructor
      · rintro ⟨⟨hinput, hnew, hmoves⟩, hbody, parts, hparts, hlinked, hbodies⟩
        refine ⟨part :: parts, ⟨part, parts, rfl, hparts, rfl⟩, ⟨hinput, hnew, hmoves, hlinked⟩, ?_⟩
        rw [List.forall_mem_cons]
        exact ⟨hbody, hbodies⟩
      · rintro ⟨_, ⟨first, parts, hfirst, hparts, rfl⟩, ⟨hinput, hnew, hmoves, hlinked⟩, hbodies⟩
        obtain rfl := Option.some.inj hfirst
        rw [List.forall_mem_cons] at hbodies
        exact ⟨⟨hinput, hnew, hmoves⟩, hbodies.1, parts, hparts, hlinked, hbodies.2⟩

/-- Linked labels form a chain with distinct outputs. Past the first pair an output differs from what its segment
reads since that is an output too. -/
theorem linked_cons_iff {pair : List Char × List Char} {pairs : List (List Char × List Char)} :
    Linked outputs (pair :: pairs) ↔
      (∀ previous ∈ outputs.head?, pair.1 = previous) ∧ pair.2 ≠ pair.1 ∧
        List.IsChain (fun pair next => next.1 = pair.2) (pair :: pairs) ∧
        ((pair :: pairs).map Prod.snd).Nodup ∧ ∀ output ∈ (pair :: pairs).map Prod.snd, output ∉ outputs := by
  induction pairs generalizing pair outputs with
  | nil =>
    simp only [Linked, List.map_cons, List.map_nil, List.nodup_singleton, List.isChain_singleton, List.forall_mem_singleton]
    tauto
  | cons next pairs ih =>
    have hnodup : ((pair :: next :: pairs).map Prod.snd).Nodup ↔
        pair.2 ∉ (next :: pairs).map Prod.snd ∧ ((next :: pairs).map Prod.snd).Nodup := List.nodup_cons
    have hall : (∀ output ∈ (pair :: next :: pairs).map Prod.snd, output ∉ outputs) ↔
        pair.2 ∉ outputs ∧ ∀ output ∈ (next :: pairs).map Prod.snd, output ∉ outputs := List.forall_mem_cons
    rw [Linked, ih, hnodup, hall, List.isChain_cons_cons]
    constructor
    · rintro ⟨hinput, hnew, hmoves, hnext, -, hchain, hnodup, hothers⟩
      refine ⟨hinput, hmoves, ⟨hnext _ rfl, hchain⟩, ⟨fun hm => ?_, hnodup⟩, hnew, fun output hm => ?_⟩
      · exact hothers _ hm List.mem_cons_self
      · exact List.not_mem_of_not_mem_cons (hothers output hm)
    · rintro ⟨hinput, hmoves, ⟨hnext, hchain⟩, ⟨hfresh, hnodup⟩, hnew, hothers⟩
      refine ⟨hinput, hnew, hmoves, ?_, ?_, hchain, hnodup, fun output hm => ?_⟩
      · rintro _ ⟨⟩
        exact hnext
      · -- What the next segment reads is the output in front of it, which is not produced again.
        rintro heq
        exact hfresh (by simp [← hnext, ← heq])
      · rw [List.mem_cons, not_or]
        refine ⟨?_, hothers output hm⟩
        rintro rfl
        exact hfresh hm

def filterName (filter : List Char) : String := String.ofList (filter.takeWhile (· != '='))

private theorem fst_splitOnce? (sep : Char) (s : List Char) :
    ((Text.splitOnce? sep s).getD (s, [])).1 = s.takeWhile (· != sep) := by
  induction s with
  | nil => rfl
  | cons c s ih =>
    rw [Text.splitOnce?]
    by_cases hc : c = sep
    · simp [hc]
    · rw [if_neg hc, List.takeWhile_cons_of_pos (by simpa using hc), ← ih]
      cases Text.splitOnce? sep s <;> rfl

theorem filterName_mem_of_checkFilter (h : checkFilter filter = .ok ()) : filterName filter ∈ knownFilters := by
  rw [filterName, ← fst_splitOnce?]
  unfold checkFilter at h
  exact Classical.not_not.1 (Failure.guard_eq_ok.1 h).1

theorem checkBody_eq_ok {body : List Char} :
    checkBody body = .ok () ↔
      ∃ filters, splitTopLevel ',' body = .ok filters ∧ ∀ filter ∈ filters, checkFilter filter = .ok () := by
  rw [checkBody, Failure.bind_eq_ok]
  simp only [split, Failure.mapError_eq_ok, Failure.forM_eq_ok]

/-- Text is accepted exactly if its segments form a chain with distinct outputs and all filters are accepted. -/
theorem checkStructure_eq_ok :
    checkStructure graph = .ok () ↔ Text.isBlankText graph = false ∧
      ∃ segments first rest, splitTopLevel ';' graph = .ok segments ∧
        List.Forall₂ (fun segment part => splitLabels? segment = some part) segments (first :: rest) ∧
        List.IsChain (fun part next => next.input = part.output) (first :: rest) ∧
        ((first :: rest).map Labelled.output).Nodup ∧ first.output ≠ first.input ∧
        ∀ part ∈ first :: rest, checkBody part.body = .ok () := by
  have hpairs (first : Labelled) (rest : List Labelled) :
      Linked [] ((first :: rest).map fun part => (part.input, part.output)) ↔
        List.IsChain (fun part next => next.input = part.output) (first :: rest) ∧
          ((first :: rest).map Labelled.output).Nodup ∧ first.output ≠ first.input := by
    have hchain := List.isChain_map (R := fun pair next : List Char × List Char => next.1 = pair.2)
      (fun part : Labelled => (part.input, part.output)) (l := first :: rest)
    have houtputs : ((first :: rest).map fun part => (part.input, part.output)).map Prod.snd =
        (first :: rest).map Labelled.output := List.map_map
    rw [List.map_cons] at hchain houtputs ⊢
    rw [linked_cons_iff, houtputs, hchain]
    simp only [List.head?_nil, Option.mem_def, reduceCtorEq, false_implies, implies_true, true_and, List.not_mem_nil,
      not_false_eq_true, and_true]
    constructor
    · exact fun ⟨hmoves, hchain, hnodup⟩ => ⟨hchain, hnodup, hmoves⟩
    · exact fun ⟨hchain, hnodup, hmoves⟩ => ⟨hmoves, hchain, hnodup⟩
  rw [checkStructure, Failure.guard_eq_ok, Bool.not_eq_true, Failure.bind_eq_ok]
  simp only [split, Failure.mapError_eq_ok, checkSegments_eq_ok]
  refine and_congr_right fun _ => ?_
  constructor
  · rintro ⟨segments, hsplit, parts, hparts, hlinked, hbodies⟩
    cases hparts with
    | nil => exact absurd rfl (ne_nil_of_splitFrom hsplit)
    | @cons _ first _ rest hfirst hrest =>
      obtain ⟨hchain, hnodup, hmoves⟩ := (hpairs first rest).1 hlinked
      exact ⟨_, first, rest, hsplit, .cons hfirst hrest, hchain, hnodup, hmoves, hbodies⟩
  · rintro ⟨segments, first, rest, hsplit, hparts, hchain, hnodup, hmoves, hbodies⟩
    exact ⟨segments, hsplit, first :: rest, hparts, (hpairs first rest).2 ⟨hchain, hnodup, hmoves⟩, hbodies⟩

/-- What acceptance says about labels and filters. Each segment reads what the one before it has produced, the outputs
are distinct, and all filters are known. The label that the chain starts from is distinct from them exactly if no
segment behind the first produces it again. -/
theorem accepted_is_linked (h : checkStructure graph = .ok ()) :
    ∃ segments first rest, splitTopLevel ';' graph = .ok segments ∧
      List.Forall₂ (fun segment part => splitLabels? segment = some part) segments (first :: rest) ∧
      List.IsChain (fun part next => next.input = part.output) (first :: rest) ∧
      ((first :: rest).map Labelled.output).Nodup ∧
      ((first.input :: (first :: rest).map Labelled.output).Nodup ↔ first.input ∉ rest.map Labelled.output) ∧
      ∀ part ∈ first :: rest, ∃ filters, splitTopLevel ',' part.body = .ok filters ∧
        ∀ filter ∈ filters, filterName filter ∈ knownFilters := by
  obtain ⟨-, segments, first, rest, hsplit, hparts, hchain, hnodup, hmoves, hbodies⟩ := checkStructure_eq_ok.1 h
  refine ⟨segments, first, rest, hsplit, hparts, hchain, hnodup, ?_, fun part hm => ?_⟩
  · rw [List.nodup_cons, List.map_cons, List.mem_cons, not_or, ← List.map_cons]
    constructor
    · exact fun hlabels => hlabels.1.2
    · exact fun hstart => ⟨⟨hmoves.symm, hstart⟩, hnodup⟩
  · obtain ⟨filters, hfilters, haccepted⟩ := checkBody_eq_ok.1 (hbodies part hm)
    exact ⟨filters, hfilters, fun filter hf => filterName_mem_of_checkFilter (haccepted filter hf)⟩

/-- Two segments between three labels, with two filters in the first. -/
theorem accepted_is_linked_resized :
    let graph := "[0:v]scale=w=320:h=180,setsar=sar=1[v0];[v0]null[v1]".toList
    let resized : Labelled := ⟨"0:v".toList, "scale=w=320:h=180,setsar=sar=1".toList, "v0".toList⟩
    let passed : Labelled := ⟨"v0".toList, "null".toList, "v1".toList⟩
    checkStructure graph = .ok () ∧ List.IsChain (fun part next => next.input = part.output) [resized, passed] ∧
      (resized.input :: [resized, passed].map Labelled.output).Nodup := by
  intro graph resized passed
  have haccepted : checkStructure graph = .ok () := by decide +kernel
  have hsegments : splitTopLevel ';' graph =
      .ok ["[0:v]scale=w=320:h=180,setsar=sar=1[v0]".toList, "[v0]null[v1]".toList] := by decide +kernel
  have hresized : splitLabels? "[0:v]scale=w=320:h=180,setsar=sar=1[v0]".toList = some resized := by decide +kernel
  have hpassed : splitLabels? "[v0]null[v1]".toList = some passed := by decide +kernel
  obtain ⟨segments, first, rest, hsplit, hparts, hchain, -, hdistinct, -⟩ := accepted_is_linked haccepted
  obtain rfl := Except.ok.inj (hsegments.symm.trans hsplit)
  cases hparts with
  | cons hfirst hrest =>
    obtain rfl := Option.some.inj (hresized.symm.trans hfirst)
    cases hrest with
    | cons hsecond hnone =>
      obtain rfl := Option.some.inj (hpassed.symm.trans hsecond)
      cases hnone
      exact ⟨haccepted, hchain, hdistinct.2 (by decide)⟩

/-- The last segment may produce the label that the chain starts from. -/
theorem accepted_circle :
    let graph := "[a]null[b];[b]null[a]".toList
    checkStructure graph = .ok () ∧ splitTopLevel ';' graph = .ok ["[a]null[b]".toList, "[b]null[a]".toList] ∧
      splitLabels? "[a]null[b]".toList = some ⟨['a'], "null".toList, ['b']⟩ ∧
      splitLabels? "[b]null[a]".toList = some ⟨['b'], "null".toList, ['a']⟩ ∧
      ¬ [['a'], ['b'], ['a']].Nodup := by
  refine ⟨rfl, rfl, rfl, rfl, ?_⟩
  decide

end OpenCaptions.Filter
