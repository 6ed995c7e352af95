import OpenCaptions.Proofs.Render.Output

/-!
The reports of a render. Warnings come first, then the lines that each encode reads, and at last the end of the
render if it succeeds. A render that cannot begin reports nothing.
-/
namespace OpenCaptions

variable {σ : Type}

def Warning.report (w : Warning) : Report := (-1, "warning: " ++ w.text)

/-- Blank lines are not reported, and all others are. -/
theorem Progress.report?_eq_none_iff {duration : Float} {line : String} :
    report? duration line = none ↔ Text.isBlankText line.toList = true := by
  rw [← Text.trim_eq_nil_iff]
  simp [report?]

theorem Session.files_apply (s : Session σ) : files s = (s.world.files, s) := rfl

namespace RenderJob

open Session

variable (job : RenderJob) (engine : Engine σ) (options : RenderOptions) (part : Part)

/-- What a render needs before it asks anything of the engine: an input, something to do, the properties of the video
and a graph. -/
structure Begins (s t : Session σ) (video : VideoInfo) (aspect : Option (AspectRatio Float))
    (assembled : AssembledGraph) : Prop where
  isFile : s.world.files.isFile job.input = true
  something : part.captions ≠ [] ∨ job.aspect ≠ none
  probed : Session.act (engine.probe job.input) s = (.ok video, t)
  readsAspect : job.readAspect = .ok aspect
  assembles : (job.graphRequest part.captions part.firstIndex aspect options.fade).assemble t.world.files.isFile
    (some (video.width, video.height)) = .ok assembled

/-- The last encode of a render, by its graph and the session in which it starts, behind the reports of an encode
that it repeats. -/
inductive LastEncode (encoding : EncodeJob) (prepared : Prepared) (t : Session σ) :
    List Report → FilterGraph → Session σ → Prop
  | first (once : ¬ ∃ e, Repeats engine encoding prepared e t) : LastEncode encoding prepared t [] prepared.graph t
  | second {e : RenderError} {sanitized : FilterGraph} (repeats : Repeats engine encoding prepared e t)
      (repair : prepared.graph.sanitize? = some sanitized) :
      LastEncode encoding prepared t
        ((encoding.linesRead engine prepared.graph t).filterMap (Progress.report? encoding.duration) ++
          [(-1, "warning: " ++ e.message ++ "; retrying with a sanitized filter graph")])
        sanitized (warned e (encoding.encode engine prepared.graph t).2)

section LastEncode

variable {engine} {encoding : EncodeJob} {prepared : Prepared} {t w : Session σ} {earlier : List Report}
  {graph : FilterGraph}

theorem exists_lastEncode {sanitized : FilterGraph} (hs : prepared.graph.sanitize? = some sanitized) :
    ∃ earlier graph w, LastEncode engine encoding prepared t earlier graph w := by
  by_cases h : ∃ e, Repeats engine encoding prepared e t
  · obtain ⟨e, he⟩ := h
    exact ⟨_, _, _, .second he hs⟩
  · exact ⟨_, _, _, .first h⟩

theorem LastEncode.encodeTwice_eq (h : LastEncode engine encoding prepared t earlier graph w) :
    encodeTwice encoding engine prepared t = encoding.encode engine graph w := by
  cases h with
  | first once => exact encodeTwice_of_not_repeats once
  | second repeats repair => exact encodeTwice_of_repeats repeats repair

theorem LastEncode.exists_log (h : LastEncode engine encoding prepared t earlier graph w) :
    ∃ events, w.log = t.log ++ events ∧ reports events = earlier := by
  cases h with
  | first once => exact ⟨[], (List.append_nil t.log).symm, rfl⟩
  | @second e sanitized repeats repair =>
    obtain ⟨events, hlog, hreports⟩ := EncodeJob.exists_reports_encode encoding engine prepared.graph t
    refine ⟨events ++ [repetition e], ?_, ?_⟩
    · change (encoding.encode engine prepared.graph t).2.log ++ [repetition e] = _
      rw [hlog, List.append_assoc]
    · rw [reports_append, hreports]
      rfl

/-- Warnings and lines do not report the end of a render. -/
theorem done_notMem_warnings (warnings : List Warning) : (100, "done") ∉ warnings.map Warning.report := by
  rw [List.mem_map]
  rintro ⟨w, -, heq⟩
  cases heq

theorem done_notMem_lines (duration : Float) (lines : List String) :
    (100, "done") ∉ lines.filterMap (Progress.report? duration) := by
  rw [List.mem_filterMap]
  rintro ⟨line, -, hline⟩
  exact Progress.report?_ne_done duration line hline

theorem LastEncode.done_notMem (h : LastEncode engine encoding prepared t earlier graph w) :
    (100, "done") ∉ earlier := by
  cases h with
  | first once => exact List.not_mem_nil
  | second repeats repair =>
    rw [List.mem_append, not_or, List.mem_singleton]
    refine ⟨done_notMem_lines _ _, fun heq => ?_⟩
    cases heq

end LastEncode

theorem reportWarnings_apply (warnings : List Warning) (s : Session σ) :
    (reportWarnings warnings s).2 = { s with log := s.log ++ (warnings.map Warning.report).map .ofReport } := by
  induction warnings generalizing s with
  | nil =>
    rw [List.map_nil, List.map_nil, List.append_nil]
    rfl
  | cons w warnings ih =>
    change (reportWarnings warnings _).2 = _
    rw [ih]
    rw [List.map_cons, List.map_cons, List.append_cons]
    rfl

theorem deliver_ok (s : Session σ) : deliver part (.ok ()) s =
    if s.world.files.hasContent part.output then
      (.ok part.output, (Session.record (.ofReport (100, "done")) s).2)
    else (.error (.noOutput part.output), s) := by
  simp only [deliver, State.bind_apply, State.ite_apply]
  rfl

theorem isOk_deliver_iff (result : Except RenderError Unit) (s : Session σ) :
    (deliver part result s).1.isOk = true ↔ result = .ok () ∧ s.world.files.hasContent part.output = true := by
  cases result with
  | error e =>
    constructor
    · intro h
      cases h
    · intro h
      cases h.1
  | ok u =>
    rw [deliver_ok]
    cases s.world.files.hasContent part.output <;> simp [Except.isOk, Except.toBool]

/-- The end of a render is reported exactly if there is a result. -/
theorem exists_reports_deliver (result : Except RenderError Unit) (s : Session σ) :
    ∃ events, (deliver part result s).2.log = s.log ++ events ∧
      reports events = if (deliver part result s).1.isOk then [(100, "done")] else [] := by
  cases result with
  | error e => exact ⟨[], (List.append_nil s.log).symm, rfl⟩
  | ok u =>
    rw [deliver_ok]
    cases s.world.files.hasContent part.output with
    | true => exact ⟨[.ofReport (100, "done")], rfl, rfl⟩
    | false => exact ⟨[], (List.append_nil s.log).symm, rfl⟩

variable {job engine options part} {s t : Session σ} {video : VideoInfo} {aspect : Option (AspectRatio Float)}
  {assembled : AssembledGraph}

theorem ready_of_not_begins
    (h : ¬ ∃ t video aspect assembled, Begins job engine options part s t video aspect assembled) :
    ∃ e, job.ready engine options part s = (.error e, s) ∨
      job.ready engine options part s = (.error e, (Session.act (engine.probe job.input) s).2) := by
  simp only [ready, State.bind_apply]
  cases hc : job.checkInput part (Session.files s).1 with
  | error e => exact ⟨e, .inl rfl⟩
  | ok u =>
    simp only [State.bind_apply]
    cases hp : Session.act (engine.probe job.input) (Session.files s).2 with
    | mk probed t =>
      cases probed with
      | error e =>
        refine ⟨.resolution { stage := .probe } e.message, .inr ?_⟩
        have ht : (Session.act (engine.probe job.input) s).2 = t := congrArg Prod.snd hp
        rw [ht]
        rfl
      | ok video =>
        simp only [State.bind_apply]
        cases ha : job.assemble options part video (Session.files t).1 with
        | error e =>
          refine ⟨e, .inr ?_⟩
          have ht : (Session.act (engine.probe job.input) s).2 = t := congrArg Prod.snd hp
          rw [ht]
          rfl
        | ok assembled =>
          obtain ⟨hfile, hsomething⟩ := checkInput_eq_ok.1 hc
          obtain ⟨aspect, hreads, hassembles⟩ := assemble_eq_ok.1 ha
          exact absurd ⟨t, video, aspect, assembled, hfile, hsomething, hp, hreads, hassembles⟩ h

theorem Begins.log_eq (h : Begins job engine options part s t video aspect assembled) : t.log = s.log := by
  have hlog : (Session.act (engine.probe job.input) s).2.log = s.log := rfl
  rwa [h.probed] at hlog

/-- A graph that has been assembled can be repaired, and so preparing it does not fail. -/
theorem Begins.exists_prepare (h : Begins job engine options part s t video aspect assembled) :
    ∃ prepared u, assembled.graph.prepare (Validation.judge engine options.validation)
      (reportWarnings assembled.warnings t).2 = (some prepared, u) := by
  cases hp : assembled.graph.prepare (Validation.judge engine options.validation)
      (reportWarnings assembled.warnings t).2 with
  | mk prepared? u =>
    cases prepared? with
    | none =>
      obtain ⟨sanitized, hs⟩ := FilterGraph.exists_sanitize?_of_proper (GraphRequest.proper_of_assemble h.assembles)
      have hnone := ((FilterGraph.prepare_eq_none_iff _ _ _).1 (congrArg Prod.fst hp)).2
      rw [← FilterGraph.sanitize?_eq_none_iff, hs] at hnone
      cases hnone
    | some prepared => exact ⟨prepared, u, rfl⟩

private theorem Begins.ready_eq (h : Begins job engine options part s t video aspect assembled) {prepared : Prepared}
    {u : Session σ} (hp : assembled.graph.prepare (Validation.judge engine options.validation)
      (reportWarnings assembled.warnings t).2 = (some prepared, u)) :
    ∃ encoding, job.ready engine options part s = (.ok (encoding, prepared),
      (Session.selectEncoder engine options.preferHardware (reportWarnings prepared.warnings u).2).2) := by
  have hc : job.checkInput part s.world.files = .ok () := checkInput_eq_ok.2 ⟨h.isFile, h.something⟩
  have ha : job.assemble options part video t.world.files = .ok assembled :=
    assemble_eq_ok.2 ⟨aspect, h.readsAspect, h.assembles⟩
  simp only [ready, State.bind_apply, Session.files_apply, hc, h.probed, ha, prepare, hp, State.pure_apply]
  exact ⟨_, rfl⟩

/-- A render that begins gets ready: it reports its warnings, and no other. -/
theorem ready_of_begins (h : Begins job engine options part s t video aspect assembled) :
    ∃ prepared u encoding v events,
      assembled.graph.prepare (Validation.judge engine options.validation) (reportWarnings assembled.warnings t).2 =
        (some prepared, u) ∧
      job.ready engine options part s = (.ok (encoding, prepared), v) ∧
      v.log = s.log ++ events ∧
      reports events = assembled.warnings.map Warning.report ++ prepared.warnings.map Warning.report := by
  obtain ⟨prepared, u, hp⟩ := h.exists_prepare
  obtain ⟨encoding, hready⟩ := h.ready_eq hp
  obtain ⟨asked, hasked, -⟩ := Validation.dryRuns_prepare engine options.validation assembled.graph
    (reportWarnings assembled.warnings t).2
  rw [hp] at hasked
  generalize hdry : asked.map _ = dry at hasked
  have hundry : reports dry = [] := by
    apply reports_eq_nil
    rw [← hdry, List.forall_mem_map]
    exact fun _ _ => rfl
  have hsilent : Does (fun event => event.report? = none) (fun _ => True)
      (Session.selectEncoder engine options.preferHardware) := does_selectEncoder engine (fun _ => rfl) _
  obtain ⟨-, choosing, hchoosing, hnone⟩ := hsilent (reportWarnings prepared.warnings u).2
  refine ⟨prepared, u, encoding, _, (assembled.warnings.map Warning.report).map .ofReport ++ dry ++
    (prepared.warnings.map Warning.report).map .ofReport ++ choosing, hp, hready, ?_, ?_⟩
  · rw [hchoosing, reportWarnings_apply, hasked, reportWarnings_apply, h.log_eq]
    simp only [List.append_assoc]
  · simp only [reports_append, reports_map_ofReport, hundry, reports_eq_nil hnone, List.append_nil]

/-- A render that cannot begin calls the engine for nothing and reports nothing. Any other reports its warnings, then
the lines that its encodes read, with one more warning in front of a second encode. The end is the last report exactly
if the render succeeds, and that is if the last encode is not cancelled, exits with zero and leaves an output with
content. -/
theorem reports_of_execute (s : Session σ) :
    ((¬ ∃ t video aspect assembled, Begins job engine options part s t video aspect assembled) →
      (job.execute engine options part s).2.log = s.log ∧
        ∃ e, job.execute engine options part s = (.error e, s) ∨
          job.execute engine options part s = (.error e, (Session.act (engine.probe job.input) s).2)) ∧
    (∀ t video aspect assembled, Begins job engine options part s t video aspect assembled →
      ∃ prepared u encoding v earlier graph w events,
        assembled.graph.prepare (Validation.judge engine options.validation)
          (reportWarnings assembled.warnings t).2 = (some prepared, u) ∧
        job.ready engine options part s = (.ok (encoding, prepared), v) ∧
        LastEncode engine encoding prepared v earlier graph w ∧
        (job.execute engine options part s).2.log = s.log ++ events ∧
        reports events = assembled.warnings.map Warning.report ++ prepared.warnings.map Warning.report ++ earlier ++
          (encoding.linesRead engine graph w).filterMap (Progress.report? encoding.duration) ++
          (if (job.execute engine options part s).1.isOk then [(100, "done")] else []) ∧
        ((reports events).getLast? = some (100, "done") ↔ (job.execute engine options part s).1.isOk = true) ∧
        ((job.execute engine options part s).1.isOk = true ↔
          (∃ invocation x, EncodeJob.Exits encoding engine graph w invocation x (some 0)) ∧
            (encoding.encode engine graph w).2.world.files.hasContent part.output = true)) ∧
    ∀ (duration : Float) (line : String),
      (Progress.report? duration line = none ↔ Text.isBlankText line.toList = true) ∧
      ∀ percent text, Progress.report? duration line = some (percent, text) →
        text.toList = Text.trim line.toList ∧ (Progress.time? text.toList = none → percent = -1) ∧
          ((Progress.time? text.toList).isSome = true → 0 ≤ percent ∧ percent ≤ 100) := by
  refine ⟨fun h => ?_, fun t video aspect assembled h => ?_, fun duration line =>
    ⟨Progress.report?_eq_none_iff, fun percent text => Progress.percent_of_report?⟩⟩
  · obtain ⟨e, hr | hr⟩ := ready_of_not_begins h
    · rw [execute_of_error job engine options part hr]
      exact ⟨rfl, e, .inl rfl⟩
    · rw [execute_of_error job engine options part hr]
      exact ⟨rfl, e, .inr rfl⟩
  · obtain ⟨prepared, u, encoding, v, preparing, hp, hready, hpreparing, hwarnings⟩ := ready_of_begins h
    obtain ⟨sanitized, hlabel⟩ := (job.does_ready engine options part s).1 encoding prepared (by rw [hready])
    obtain ⟨earlier, graph, w, hlast⟩ := exists_lastEncode hlabel.repair
    have hexecute : job.execute engine options part s =
        deliver part (encoding.encode engine graph w).1 (encoding.encode engine graph w).2 := by
      rw [execute_of_ready job engine options part hready, hlast.encodeTwice_eq]
    obtain ⟨repeating, hrepeating, hearlier⟩ := hlast.exists_log
    obtain ⟨encode, hencode, hlines⟩ := EncodeJob.exists_reports_encode encoding engine graph w
    obtain ⟨delivering, hdelivering, hdone⟩ := exists_reports_deliver part (encoding.encode engine graph w).1
      (encoding.encode engine graph w).2
    have hreports : reports (preparing ++ repeating ++ encode ++ delivering) =
        assembled.warnings.map Warning.report ++ prepared.warnings.map Warning.report ++ earlier ++
          (encoding.linesRead engine graph w).filterMap (Progress.report? encoding.duration) ++
          (if (job.execute engine options part s).1.isOk then [(100, "done")] else []) := by
      rw [reports_append, reports_append, reports_append, hwarnings, hearlier, hlines, hdone, hexecute]
    refine ⟨prepared, u, encoding, v, earlier, graph, w, _, hp, hready, hlast, ?_, hreports, ?_, ?_⟩
    · rw [hexecute, hdelivering, hencode, hrepeating, hpreparing]
      simp only [List.append_assoc]
    · rw [hreports]
      cases (job.execute engine options part s).1.isOk with
      | true => simp
      | false =>
        simp only [Bool.false_eq_true, if_false, List.append_nil, iff_false]
        intro hend
        have hm := List.mem_of_getLast? hend
        rw [List.mem_append, List.mem_append, List.mem_append] at hm
        rcases hm with ((hm | hm) | hm) | hm
        · exact done_notMem_warnings _ hm
        · exact done_notMem_warnings _ hm
        · exact hlast.done_notMem hm
        · exact done_notMem_lines _ _ hm
    · rw [hexecute, isOk_deliver_iff, EncodeJob.encode_eq_ok_iff]

/-- A session with an engine that misses a font at first and then succeeds. -/
def recovering : Session Script where
  world := {
    engine := {
      video := .ok ⟨Scalar.ofNat 10, 1920, 1080, false⟩
      run := .error ""
      encodes := [{ lines := [" ", "Could not load font "], code := some 1 },
        { lines := ["time=00:00:05.0 speed=2x"], code := some 0, writes := some ⟨#[1]⟩ }] }
    files := ⟨[(["clip.mp4"], .file .empty)]⟩ }

theorem reports_of_execute_recovering :
    ∃ t video aspect assembled prepared encoding v earlier graph w events,
      Begins reshaping Script.engine untried whole recovering t video aspect assembled ∧
      LastEncode Script.engine encoding prepared v earlier graph w ∧
      (reshaping.execute Script.engine untried whole recovering).2.log = recovering.log ++ events ∧
      reports events = assembled.warnings.map Warning.report ++ prepared.warnings.map Warning.report ++ earlier ++
        (encoding.linesRead Script.engine graph w).filterMap (Progress.report? encoding.duration) ++ [(100, "done")] ∧
      reports events =
        [(-1, "Could not load font"),
          (-1, "warning: a font file could not be found during encode: Could not load font; " ++
            "retrying with a sanitized filter graph"),
          (50, "time=00:00:05.0 speed=2x"), (100, "done")] := by
  obtain ⟨hidle, hbegun, -⟩ :=
    @reports_of_execute Script reshaping Script.engine untried whole recovering
  have hok : (reshaping.execute Script.engine untried whole recovering).1.isOk = true := by decide +kernel
  obtain ⟨t, video, aspect, assembled, hbegins⟩ :
      ∃ t video aspect assembled, Begins reshaping Script.engine untried whole recovering t video aspect assembled := by
    by_contra hno
    obtain ⟨-, e, he | he⟩ := hidle hno
    · rw [he] at hok
      cases hok
    · rw [he] at hok
      cases hok
  obtain ⟨prepared, u, encoding, v, earlier, graph, w, events, -, -, hlast, hlog, hreports, -, -⟩ :=
    hbegun t video aspect assembled hbegins
  have hlisted : reports (reshaping.execute Script.engine untried whole recovering).2.log =
      [(-1, "Could not load font"),
        (-1, "warning: a font file could not be found during encode: Could not load font; " ++
          "retrying with a sanitized filter graph"),
        (50, "time=00:00:05.0 speed=2x"), (100, "done")] := by
    decide +kernel
  have hnew : reports events = reports (recovering.log ++ events) := rfl
  rw [hok] at hreports
  exact ⟨t, video, aspect, assembled, prepared, encoding, v, earlier, graph, w, events, hbegins, hlast, hlog, hreports,
    by rw [hnew, ← hlog, hlisted]⟩

end RenderJob
end OpenCaptions
