import OpenCaptions.Proofs.Filter.Accepting
import OpenCaptions.Proofs.Filter.Isolating
import OpenCaptions.Proofs.Render.DryRuns

/-!
Preparing an assembled graph with dry runs of an engine that looks at the bodies of a chain one by one. A
caption that the engine rejects does not take others with it.
-/
namespace OpenCaptions.Validation

open OpenCaptions.Filter Prepare

variable {σ : Type}

/-- Dry runs of chains start always, and succeed exactly if each body is one that the engine takes. -/
def NodeLocal (engine : Engine σ) (takes : String → Prop) : Prop :=
  ∀ graph : FilterGraph, graph.IsChain → checkStructure graph.text.toList = .ok () → ∀ world,
    ∃ run, (engine.run (dryRunArguments graph.text graph.outputLabel) world).1 = .ok run ∧
      (run.succeeded = true ↔ ∀ node ∈ graph.nodes, takes node.body)

def Good (takes : String → Prop) (body : String) : Prop :=
  checkBody body.toList = .ok () ∧ takes body

variable {engine : Engine σ} {takes : String → Prop}

private theorem NodeLocal.local (h : NodeLocal engine takes) : Local (judge engine .dryRun) (Good takes) := by
  intro graph hc s
  have hcheck := hc.checkStructure_iff
  rcases judge_cases engine .dryRun graph.text graph.outputLabel s with
    ⟨hm, -⟩ | ⟨-, flaw, hflaw, hj⟩ | ⟨hm, -, -⟩ | ⟨-, hok, hj⟩
  · cases hm
  · have hbad : ¬ ∀ node ∈ graph.nodes, checkBody node.body.toList = .ok () := by
      rw [← hcheck, hflaw]
      simp
    rw [hj]
    constructor
    · intro hv
      cases hv
    · exact fun hall => absurd (fun node hm => (hall node hm).1) hbad
  · cases hm
  · obtain ⟨run, hrun, hsucceeded⟩ := h graph hc hok s.world
    have hresult : (Session.run engine (dryRunArguments graph.text graph.outputLabel) s).1 = .ok run := hrun
    have hverdict : (judge engine .dryRun graph.text graph.outputLabel s).1 = .accepted ↔
        run.succeeded = true := by
      rw [hj, hresult, verdictOf]
      cases run.succeeded <;> simp
    rw [hverdict, hsucceeded]
    exact ⟨fun hall node hm => ⟨hcheck.1 hok node hm, hall node hm⟩, fun hall node hm => (hall node hm).2⟩

/-- The nodes of an assembled graph can be repaired, if the engine takes the plain form of each caption and the
conversion of the frame. -/
theorem repairable_of_assemble {request : GraphRequest} {isFile : String → Bool} {source : Option (Nat × Nat)}
    {built : AssembledGraph} (h : request.assemble isFile source = .ok built)
    (hconversion : ∀ node ∈ built.graph.nodes, node.source = none → takes node.body)
    (hfallback : ∀ node ∈ built.graph.nodes, ∀ caption, node.source = some caption →
      takes caption.fallback ∧
        checkStructure (labelledText inputLabel caption.fallback checkLabel).toList = .ok ()) :
    ∀ node ∈ built.graph.nodes, Repairable (Good takes) node := by
  intro node hm
  refine ⟨(GraphRequest.isChain_of_assemble h).whole node hm, fun body hb => ?_, fun hs => ?_, fun caption hs => ?_⟩
  · obtain ⟨sanitized, hsan, hnew⟩ := GraphRequest.sanitize?_of_mem_nodes h node hm
    rw [hsan] at hb
    exact Option.some.inj hb ▸ hnew
  · exact ⟨GraphRequest.checkBody_of_captionless h node hm hs, hconversion node hm hs⟩
  · have hplain := GraphRequest.isBody_fallback h node hm caption hs
    obtain ⟨htakes, hcheck⟩ := hfallback node hm caption hs
    exact ⟨hplain, (checkStructure_alone hplain).1 hcheck, htakes⟩

/-- For an engine that looks at bodies one by one, preparing an assembled graph gives one that is accepted,
if the engine takes the plain form of each caption and the conversion of the frame. Where neither the graph
nor its sanitized form is accepted, each caption that is accepted alone keeps its filters. -/
theorem prepare_isolates {request : GraphRequest} {isFile : String → Bool} {source : Option (Nat × Nat)}
    {built : AssembledGraph} (h : request.assemble isFile source = .ok built)
    (hlocal : NodeLocal engine takes)
    (hconversion : ∀ node ∈ built.graph.nodes, node.source = none → takes node.body)
    (hfallback : ∀ node ∈ built.graph.nodes, ∀ caption, node.source = some caption →
      takes caption.fallback ∧
        checkStructure (labelledText inputLabel caption.fallback checkLabel).toList = .ok ())
    (s : Session σ) :
    ∃ prepared sanitized, (built.graph.prepare (judge engine .dryRun) s).1 = some prepared ∧
      built.graph.sanitize? = some sanitized ∧
      (∀ t, (judge engine .dryRun prepared.graph.text prepared.graph.outputLabel t).1 = .accepted) ∧
      ∀ t u, (judge engine .dryRun built.graph.text built.graph.outputLabel t).1 ≠ .accepted →
        (judge engine .dryRun sanitized.text sanitized.outputLabel u).1 ≠ .accepted →
        List.Forall₂ (fun node node' => node.source.isSome → ∀ v,
          (judgeAlone (judge engine .dryRun) node.body v).1 = .accepted → node'.body = node.body)
          built.graph.nodes prepared.graph.nodes := by
  have hchain := GraphRequest.isChain_of_assemble h
  have hr := repairable_of_assemble h hconversion hfallback
  obtain ⟨sanitized, hs⟩ := GraphRequest.exists_sanitize? h
  obtain ⟨prepared, hp, haccepted, hkept⟩ := hlocal.local.isolates_prepare hchain hr hs s
  refine ⟨prepared, sanitized, hp, hs, haccepted, fun t u hg hsan => ?_⟩
  refine ((List.forall₂_and_left _ _).2 ⟨hr, hkept t u hg hsan⟩).imp ?_
  rintro node node' ⟨hnode, hk⟩ - v hv
  rw [hk ((hlocal.local.judgeAlone ⟨hnode.whole.body, hnode.whole.bodyNe⟩ v).1 hv)]

def doesWithout (key : String) (body : List Char) : Bool :=
  match splitTopLevel ',' body with
  | .error _ => false
  | .ok filters => filters.all fun filter =>
    match Text.splitOnce? '=' filter with
    | none => true
    | some (_, arguments) =>
      match splitTopLevel ':' arguments with
      | .error _ => false
      | .ok options => options.all fun option => (Text.splitOnce? '=' option).map (·.1) != some key.toList

def runsWithout (key : String) (graph : List Char) : Bool :=
  match splitTopLevel ';' graph with
  | .error _ => false
  | .ok segments => segments.all fun segment =>
    (splitLabels? segment).any fun labelled => doesWithout key labelled.body

/-- An engine that lacks an option, and can do nothing but dry runs. -/
def lacking (key : String) : Engine Unit where
  probe _ := return .error .noVideo
  run arguments := return .ok ⟨some (if (Engine.argumentAfter "-filter_complex" arguments).any
    fun graph => runsWithout key graph.toList then 0 else 1), "Option not found"⟩
  spawn _ := return .error "no output"
  hasEncoder _ := return false

private theorem runsWithout_text (key : String) {graph : FilterGraph} (h : graph.IsChain) :
    runsWithout key graph.text.toList = true ↔ ∀ node ∈ graph.nodes, doesWithout key node.body.toList = true := by
  rw [runsWithout, FilterGraph.splitTopLevel_text h.ne_nil h.whole]
  simp only [List.all_map, List.all_eq_true, Function.comp_apply]
  refine forall₂_congr fun node hm => ?_
  rw [(h.whole node hm).splitLabels?, Option.any_some]

theorem nodeLocal_lacking (key : String) :
    NodeLocal (lacking key) fun body => doesWithout key body.toList = true := by
  intro graph hc _ world
  refine ⟨_, rfl, ?_⟩
  rw [← runsWithout_text key hc]
  change ((some (if runsWithout key graph.text.toList = true then 0 else 1) : Option Int) == some 0) = true ↔ _
  cases runsWithout key graph.text.toList <;> decide

theorem doesWithout_joined (key : String) {ops : List (Operation Float)} (hne : ops ≠ [])
    (h : ∀ op ∈ ops, op.IsTame) :
    doesWithout key (Operation.joined ops).toList = true ↔
      ∀ op ∈ ops, ∀ option ∈ op.options, option.1 ≠ key := by
  rw [doesWithout, Operation.splitTopLevel_joined hne h]
  simp only [List.all_map, List.all_eq_true, Function.comp_apply]
  refine forall₂_congr fun op hop => ?_
  have htame := h op hop
  by_cases ho : op.options = []
  · have hn : '=' ∉ op.chars := by
      rw [Operation.chars, ho, htame.bare ho]
      decide
    rw [Text.splitOnce?_eq_none hn, ho]
    simp
  · simp only [htame.splitOnce?_chars ho, htame.splitTopLevel_options ho, List.all_map, List.all_eq_true,
      Function.comp_apply]
    refine forall₂_congr fun option hm => ?_
    rw [Operation.splitOnce?_optionChars (htame.keys option hm)]
    simp [String.toList_inj]

private theorem parse_default :
    Expr.parse (α := Float) (Style.defaultX (α := Float)).chars = .ok Style.defaultX ∧
      Expr.parse (α := Float) (Style.defaultY (α := Float)).chars = .ok Style.defaultY := by
  have hfinite : (Scalar.ofNat 2 : Float).isFinite = true ∧ (Scalar.ofNat 100 : Float).isFinite = true := by
    decide
  have hself : (Literal.isSigned (Scalar.ofNat 2 : Float) = false ∧
      Literal.magnitude (Scalar.ofNat 2 : Float) = Scalar.ofNat 2) ∧
      Literal.isSigned (Scalar.ofNat 100 : Float) = false ∧
        Literal.magnitude (Scalar.ofNat 100 : Float) = Scalar.ofNat 100 := by decide +kernel
  have hx : (Style.defaultX (α := Float)).Forall (·.isFinite = true) := ⟨⟨trivial, trivial⟩, hfinite.1⟩
  have hy : (Style.defaultY (α := Float)).Forall (·.isFinite = true) := ⟨trivial, hfinite.2⟩
  constructor
  · rw [Expr.parse_chars_eq_ok hx (by decide +kernel) (by decide)]
    exact congrArg Except.ok (Expr.reread_eq_self ⟨⟨trivial, trivial⟩, hself.1⟩)
  · rw [Expr.parse_chars_eq_ok hy (by decide +kernel) (by decide)]
    exact congrArg Except.ok (Expr.reread_eq_self ⟨trivial, hself.2⟩)

/-- The plain filter of a caption whose preset has the default position is accepted. -/
theorem checkBody_plain (isFile : String → Bool) (fonts : FontRegistry) {p : Preset}
    (hp : p.x = "(w-text_w)/2" ∧ p.y = "h-100") (c : Caption Float) :
    checkBody (Drawtext.plain c (Style.ofPreset isFile fonts p)).text.toList = .ok () := by
  have htext : (Style.defaultX (α := Float)).chars = p.x.toList ∧
      (Style.defaultY (α := Float)).chars = p.y.toList := by
    rw [hp.1, hp.2]
    decide +kernel
  have hx : (Style.ofPreset (α := Float) isFile fonts p).x = Style.defaultX := by
    change (Style.checkPosition p.x "x" Style.defaultX).1 = _
    rw [Style.checkPosition, ← htext.1, parse_default.1]
  have hy : (Style.ofPreset (α := Float) isFile fonts p).y = Style.defaultY := by
    change (Style.checkPosition p.y "y" Style.defaultY).1 = _
    rw [Style.checkPosition, ← htext.2, parse_default.2]
  have htame := Drawtext.isTame_plain (c := c) (Style.isTame_ofPreset isFile fonts p)
  have hplaces : (Drawtext.plain c (Style.ofPreset isFile fonts p)).Places "x" ∧
      (Drawtext.plain c (Style.ofPreset isFile fonts p)).Places "y" :=
    ⟨⟨_, rfl, _, hx ▸ parse_default.1⟩, ⟨_, rfl, _, hy ▸ parse_default.2⟩⟩
  rw [← Operation.joined_singleton, checkBody_joined_iff (by simp) (by simpa using htame), List.forall_mem_singleton]
  exact ((Drawtext.draws_plain c _).checkFilter_iff htame rfl).2 hplaces

theorem doesWithout_plain {style : Style Float} (h : style.IsTame) (c : Caption Float) :
    doesWithout "box" (Drawtext.plain c style).text.toList = true := by
  have htame := Drawtext.isTame_plain (c := c) h
  rw [← Operation.joined_singleton, doesWithout_joined "box" (by simp) (by simpa using htame)]
  rw [List.forall_mem_singleton]
  simp only [Drawtext.plain, Drawtext.textOption, List.forall_mem_cons]
  exact ⟨by decide, by decide, by decide, by decide, by decide, by decide, by simp⟩

def boxed : GraphRequest where
  captions := [⟨0, 2, "first", "boxed", none, false⟩, ⟨2, 4, "second", "plain", none, false⟩]
  presets := .ofList [("boxed", { background := true })]
  fonts := .ofList []

private theorem position_boxed (name : String) :
    ((boxed.presets.get? name).getD {}).x = "(w-text_w)/2" ∧ ((boxed.presets.get? name).getD {}).y = "h-100" := by
  have hget : boxed.presets.get? name = [("boxed", ({ background := true } : Preset))].lookup name := rfl
  rw [hget, List.lookup]
  split <;> exact ⟨rfl, rfl⟩

theorem prepare_isolates_boxed :
    ∃ built prepared sanitized, boxed.assemble (fun _ => false) none = .ok built ∧
      (built.graph.prepare (judge (lacking "box") .dryRun) ⟨⟨(), .empty, false⟩, []⟩).1 = some prepared ∧
      built.graph.sanitize? = some sanitized ∧
      (∀ t, (judge (lacking "box") .dryRun prepared.graph.text prepared.graph.outputLabel t).1 = .accepted) ∧
      ∀ t u, (judge (lacking "box") .dryRun built.graph.text built.graph.outputLabel t).1 ≠ .accepted →
        (judge (lacking "box") .dryRun sanitized.text sanitized.outputLabel u).1 ≠ .accepted →
        List.Forall₂ (fun node node' => node.source.isSome → ∀ v,
          (judgeAlone (judge (lacking "box") .dryRun) node.body v).1 = .accepted → node'.body = node.body)
          built.graph.nodes prepared.graph.nodes := by
  obtain ⟨built, h⟩ : ∃ built, boxed.assemble (fun _ => false) none = .ok built := ⟨_, rfl⟩
  have hconversion : ∀ node ∈ built.graph.nodes, node.source = none →
      doesWithout "box" node.body.toList = true := by
    intro node hm hs
    rcases GraphRequest.node_cases h node hm with ⟨-, ops, hops | rfl, hbody⟩ | ⟨caption, c, hc, -⟩
    · cases hops
    · rw [hbody]
      decide
    · rw [hs] at hc
      cases hc
  have hfallback : ∀ node ∈ built.graph.nodes, ∀ caption, node.source = some caption →
      doesWithout "box" caption.fallback.toList = true ∧
        checkStructure (labelledText inputLabel caption.fallback checkLabel).toList = .ok () := by
    intro node hm caption hs
    have hbody := GraphRequest.isBody_fallback h node hm caption hs
    rw [checkStructure_alone hbody]
    rcases GraphRequest.node_cases h node hm with ⟨hnone, -⟩ | ⟨caption', c, hc, hplain⟩
    · rw [hs] at hnone
      cases hnone
    · obtain rfl := Option.some.inj (hs.symm.trans hc)
      rw [hplain]
      exact ⟨doesWithout_plain (Style.isTame_ofPreset _ _ _) c,
        checkBody_plain _ _ (position_boxed c.presetId) c⟩
  obtain ⟨prepared, sanitized, hresult⟩ :=
    prepare_isolates h (nodeLocal_lacking "box") hconversion hfallback ⟨⟨(), .empty, false⟩, []⟩
  exact ⟨built, prepared, sanitized, h, hresult⟩

end OpenCaptions.Validation
