import OpenCaptions.Proofs.Number.Clamping
import OpenCaptions.Proofs.Render.Cancelling
import OpenCaptions.Proofs.Text.Lines

/-!
What becomes of the lines that are read. Each line that is not blank is reported, and the last few of those that do
not tell the time are kept.
-/
namespace OpenCaptions

open LineRead

variable {σ : Type}

abbrev Report := Int × String

def Event.report? : Event → Option Report
  | .reported percent message => some (percent, message)
  | _ => none

def reports (events : List Event) : List Report := events.filterMap Event.report?

def Event.ofReport (report : Report) : Event := .reported report.1 report.2

theorem reports_append (first second : List Event) : reports (first ++ second) = reports first ++ reports second :=
  List.filterMap_append

theorem reports_eq_nil {events : List Event} (h : ∀ event ∈ events, event.report? = none) : reports events = [] :=
  List.filterMap_eq_nil_iff.2 h

theorem reports_map_ofReport (list : List Report) : reports (list.map .ofReport) = list := by
  rw [reports, List.filterMap_map]
  exact List.filterMap_some

private theorem count_map_ofReport (list : List Report) : (list.map Event.ofReport).count .readLine = 0 := by
  rw [List.count_eq_zero, List.mem_map]
  rintro ⟨report, -, h⟩
  cases h

/-- An attempt to read and the reports of its line, in front of other events. -/
theorem reports_readLine (list : List Report) (events : List Event) :
    reports (.readLine :: (list.map .ofReport ++ events)) = list ++ reports events := by
  change reports (list.map .ofReport ++ events) = list ++ reports events
  rw [reports_append, reports_map_ofReport]

theorem count_readLine (list : List Report) (events : List Event) :
    (Event.readLine :: (list.map .ofReport ++ events)).count .readLine = events.count .readLine + 1 := by
  rw [List.count_cons_self, List.count_append, count_map_ofReport, Nat.zero_add]

namespace Progress

/-- The report of a line, unless the line is blank. -/
def report? (duration : Float) (line : String) : Option Report :=
  let text := Text.trim line.toList
  if text = [] then none
  else some ((time? text).elim (-1) fun time => (percent time duration : Int), String.ofList text)

/-- What a line says, unless it is blank or tells the time. -/
def remark? (line : String) : Option String :=
  let text := Text.trim line.toList
  if text = [] ∨ (time? text).isSome then none else some (String.ofList text)

theorem percent_le (elapsed duration : Float) : percent elapsed duration ≤ 100 := by
  unfold percent
  split
  · exact Nat.zero_le _
  · exact Number.truncatedNat_le _ _

/-- Lines that tell the time have a percentage, and all others none. -/
theorem percent_of_report? {duration : Float} {line text : String} {percent : Int}
    (h : report? duration line = some (percent, text)) :
    text.toList = Text.trim line.toList ∧ (time? text.toList = none → percent = -1) ∧
      ((time? text.toList).isSome = true → 0 ≤ percent ∧ percent ≤ 100) := by
  simp only [report?, Option.ite_none_left_eq_some, Option.some.injEq, Prod.mk.injEq] at h
  obtain ⟨-, rfl, rfl⟩ := h
  rw [String.toList_ofList]
  cases time? (Text.trim line.toList) with
  | none => simp
  | some time =>
    have hle := percent_le time duration
    refine ⟨rfl, by simp, fun _ => ?_⟩
    rw [Option.elim_some]
    omega

theorem report?_ne_done (duration : Float) (line : String) : report? duration line ≠ some (100, "done") := by
  intro h
  have hpercent := (percent_of_report? h).2.1 EncodeJob.time?_done
  omega

end Progress

def LineRead.lines (reads : List LineRead) : List String := reads.filterMap fun attempt => attempt.outcome.toOption

theorem LineRead.lines_cons (attempt : LineRead) (reads : List LineRead) :
    lines (attempt :: reads) = attempt.outcome.toOption.toList ++ lines reads := by
  cases h : attempt.outcome with
  | error message =>
    rw [lines, List.filterMap_cons_none (by rw [h]; rfl)]
    rfl
  | ok line =>
    rw [lines, List.filterMap_cons_some (by rw [h]; rfl)]
    rfl

/-- The remarks of the engine in the lines that attempts give. -/
def LineRead.remarks (reads : List LineRead) : List String := (lines reads).filterMap Progress.remark?

theorem Text.lastN_lastN_append {α : Type} (n : Nat) (xs : List α) (x : α) :
    lastN n (lastN n xs ++ [x]) = lastN n (xs ++ [x]) := by
  change List.rtake (List.rtake xs n ++ [x]) n = List.rtake (xs ++ [x]) n
  cases n with
  | zero => rw [List.rtake_zero, List.rtake_zero]
  | succ n =>
    have hinner : List.rtake (List.rtake xs (n + 1)) n = List.rtake xs n := by
      simp only [List.rtake_eq_reverse_take_reverse, List.reverse_reverse, List.take_take]
      rw [Nat.min_eq_left (Nat.le_succ n)]
    rw [List.rtake_concat_succ, List.rtake_concat_succ, hinner]

namespace EncodeJob

def keep (kept : List String) (line : String) : List String :=
  (Progress.remark? line).elim kept fun text => Text.lastN keptLines (kept ++ [text])

/-- Keeping line by line comes to keeping the last ones. -/
theorem foldl_keep (before lines : List String) :
    lines.foldl keep (Text.lastN keptLines before) =
      Text.lastN keptLines (before ++ lines.filterMap Progress.remark?) := by
  induction lines generalizing before with
  | nil => simp
  | cons line lines ih =>
    rw [List.foldl_cons, keep]
    cases h : Progress.remark? line with
    | none => rw [List.filterMap_cons_none h, Option.elim_none, ih]
    | some text =>
      rw [List.filterMap_cons_some h, Option.elim_some, Text.lastN_lastN_append, ih, List.append_assoc,
        List.singleton_append]

private theorem takeLine_apply (duration : Float) (kept : List String) (line : String) (s : Session σ) :
    takeLine duration kept line s =
      (keep kept line,
        { s with log := s.log ++ (Progress.report? duration line).toList.map .ofReport }) := by
  unfold takeLine keep Progress.report? Progress.remark?
  simp only [State.ite_apply]
  by_cases hblank : Text.trim line.toList = []
  · simp [hblank, State.pure_apply]
  · cases ht : Progress.time? (Text.trim line.toList) with
    | none =>
      simp only [hblank]
      rfl
    | some time =>
      simp only [hblank]
      rfl

section ReadOutput

variable {duration : Float} {invocation : Invocation} {kept : List String} {s t : Session σ} {reads : List LineRead}
  {ending : Ending}

/-- Reading reports the lines that its attempts give, and if it comes to the end it has kept the last ones. -/
theorem ReadsThrough.exists_log (h : ReadsThrough duration invocation kept s reads ending t) :
    ∃ events, t.log = s.log ++ events ∧
      reports events =
        (LineRead.lines (reads.take (events.count .readLine))).filterMap (Progress.report? duration) ∧
      ∀ tail, ending = .ended tail → tail = (LineRead.lines reads).foldl keep kept := by
  induction h with
  | cancelled hc => exact ⟨[], by simp, rfl, by simp⟩
  | @ended kept s hc hf =>
    refine ⟨[.readLine], rfl, rfl, fun tail htail => ?_⟩
    cases htail
    rfl
  | failedAtEnd hc hf => exact ⟨[.readLine], rfl, rfl, by simp⟩
  | @failed kept s attempt reads message hc ho =>
    refine ⟨[.readLine], rfl, ?_, by simp⟩
    change [] = (LineRead.lines [attempt]).filterMap _
    rw [LineRead.lines_cons, ho]
    rfl
  | @line kept s t attempt reads line ending hc ho h ih =>
    have hlines (rest : List LineRead) : LineRead.lines (attempt :: rest) = line :: LineRead.lines rest := by
      rw [LineRead.lines_cons, ho]
      rfl
    rw [takeLine_apply] at ih
    obtain ⟨events, hlog, hreports, htail⟩ := ih
    refine ⟨.readLine :: ((Progress.report? duration line).toList.map .ofReport ++ events), ?_, ?_, ?_⟩
    · rw [hlog]
      simp [attempted]
    · rw [count_readLine, reports_readLine, hreports, List.take_succ_cons, hlines]
      cases hr : Progress.report? duration line with
      | none => rw [List.filterMap_cons_none hr, Option.toList_none, List.nil_append]
      | some report => rw [List.filterMap_cons_some hr, Option.toList_some, List.singleton_append]
    · rw [hlines, List.foldl_cons]
      exact htail

end ReadOutput

section Encode

variable (encoding : EncodeJob) (engine : Engine σ) (graph : FilterGraph) (s : Session σ)

/-- The lines that an encode reads: those that its invocation gives at the attempts in its part of the log. -/
def linesRead : List String :=
  match (Session.spawn engine (encoding.arguments graph.text) s).1 with
  | .error _ => []
  | .ok invocation =>
    LineRead.lines (invocation.reads.take
      (((encoding.encode engine graph s).2.log.drop s.log.length).count .readLine))

/-- An encode that is neither cancelled nor hit by an I/O error, and whose invocation exits with a code. -/
structure Exits (invocation : Invocation) (t : Session σ) (code : Option Int) : Prop where
  spawned : Session.spawn engine (encoding.arguments graph.text) s = (.ok invocation, t)
  ends : Ends t.world.cancelled invocation.failsAtEnd invocation.reads
  uninterrupted : interrupted t.world.cancelled invocation = false
  exit : (invocation.wait false t.world.files).1 = .ok code

variable {encoding engine graph s} {invocation : Invocation} {t : Session σ}

theorem conclusion_eq_ok_iff {tail : List String} {cancelled : Bool} {waited : Except String (Option Int)} :
    encoding.conclusion graph tail cancelled waited = .ok () ↔ cancelled = false ∧ waited = .ok (some 0) := by
  cases waited with
  | error message => simp [conclusion]
  | ok code =>
    cases cancelled with
    | true => simp [conclusion]
    | false =>
      simp only [conclusion, Bool.false_eq_true, if_false, true_and]
      split
      · rename_i hcode
        simp [hcode]
      · rename_i hcode
        simp [hcode]

private theorem exists_log_behind
    (hs : Session.spawn engine (encoding.arguments graph.text) s = (.ok invocation, t)) :
    ∃ rest, (encoding.encode engine graph s).2.log =
        (readOutput encoding.duration invocation [] invocation.reads t).2.log ++ rest ∧
      ∀ event ∈ rest, event = .killed ∨ event = .waited := by
  cases hr : readOutput encoding.duration invocation [] invocation.reads t with
  | mk ending u =>
    cases ending with
    | cancelled =>
      rw [encode_of_cancelled encoding engine graph s hs hr]
      refine ⟨[.killed, .waited], ?_, by simp⟩
      rw [Session.log_wait, Session.log_kill, List.append_assoc, List.singleton_append]
    | failed message =>
      rw [encode_of_failed encoding engine graph s hs hr]
      exact ⟨[], (List.append_nil u.log).symm, by simp⟩
    | ended tail =>
      rw [encode_of_ended encoding engine graph s hs hr]
      exact ⟨[.waited], Session.log_wait u invocation false, by simp⟩

/-- An encode reports the lines that it reads. -/
theorem exists_reports_encode (encoding : EncodeJob) (engine : Engine σ) (graph : FilterGraph) (s : Session σ) :
    ∃ events, (encoding.encode engine graph s).2.log = s.log ++ events ∧
      reports events = (encoding.linesRead engine graph s).filterMap (Progress.report? encoding.duration) := by
  cases hs : Session.spawn engine (encoding.arguments graph.text) s with
  | mk started t =>
    have hspawned := Session.log_spawn s hs
    cases started with
    | error message =>
      refine ⟨_, (congrArg (·.2.log) (encode_of_error encoding engine graph s hs)).trans hspawned, ?_⟩
      rw [linesRead, hs]
      rfl
    | ok invocation =>
      obtain ⟨reading, hreading, hreports, -⟩ :=
        (readsThrough_readOutput encoding.duration invocation [] t invocation.reads).exists_log
      obtain ⟨rest, hrest, hbehind⟩ := exists_log_behind hs
      have hlog : (encoding.encode engine graph s).2.log =
          s.log ++ (.spawned (encoding.arguments graph.text) true :: (reading ++ rest)) := by
        rw [hrest, hreading, hspawned]
        simp [Except.isOk, Except.toBool]
      have hnone : reports rest = [] := by
        apply reports_eq_nil
        intro event hm
        rcases hbehind event hm with rfl | rfl
        · rfl
        · rfl
      have hcount : rest.count .readLine = 0 := by
        rw [List.count_eq_zero]
        intro hm
        rcases hbehind _ hm with h | h
        · cases h
        · cases h
      refine ⟨_, hlog, ?_⟩
      rw [linesRead, hs, hlog, List.drop_left]
      change reports (reading ++ rest) = _
      rw [reports_append, hnone, List.append_nil, hreports]
      simp [List.count_append, hcount]

/-- What the end of an encode means, if its invocation exits. -/
theorem encode_of_exits {code : Option Int} (h : Exits encoding engine graph s invocation t code) :
    (encoding.encode engine graph s).1 =
      if code = some 0 then .ok ()
      else .error (diagnose encoding.stage graph code ((remarks invocation.reads).rtake keptLines)) := by
  have hthrough := readsThrough_readOutput encoding.duration invocation [] t invocation.reads
  obtain ⟨n, hreads, hattempts, hended⟩ := hthrough.attempts
  obtain ⟨-, -, -, htail⟩ := hthrough.exists_log
  cases hr : readOutput encoding.duration invocation [] invocation.reads t with
  | mk ending u =>
    rw [hr] at hreads hattempts hended htail
    cases hreads with
    | cancelled seen => exact absurd h.ends (not_ends_of_seenAt seen)
    | failed fails => exact absurd fails (not_failsAt_of_ends h.ends)
    | @ended tail ends =>
      have hkept : tail = (remarks invocation.reads).rtake keptLines := by
        rw [htail tail rfl]
        exact foldl_keep [] (LineRead.lines invocation.reads)
      have hnot := h.uninterrupted
      rw [interrupted_of_ends h.ends] at hnot
      rw [encode_of_ended encoding engine graph s h.spawned hr, hended tail rfl, hattempts.files, hnot, h.exit, hkept]
      rfl

/-- An encode succeeds exactly if its invocation exits with zero. -/
theorem encode_eq_ok_iff :
    (encoding.encode engine graph s).1 = .ok () ↔
      ∃ invocation t, Exits encoding engine graph s invocation t (some 0) := by
  constructor
  · intro hok
    cases hs : Session.spawn engine (encoding.arguments graph.text) s with
    | mk started t =>
      cases started with
      | error message =>
        rw [encode_of_error encoding engine graph s hs] at hok
        cases hok
      | ok invocation =>
        have h := encodesTo_encode hs
        generalize (encoding.encode engine graph s).1 = result at h hok
        generalize (encoding.encode engine graph s).2 = u at h
        cases h with
        | cancelled seen attempts => cases hok
        | failed fails attempts => cases hok
        | ended ends attempts =>
          rw [conclusion_eq_ok_iff] at hok
          exact ⟨invocation, t, hs, ends, (interrupted_of_ends ends).trans hok.1, hok.2⟩
  · rintro ⟨invocation, t, h⟩
    rw [encode_of_exits h, if_pos rfl]

end Encode

end EncodeJob
end OpenCaptions
