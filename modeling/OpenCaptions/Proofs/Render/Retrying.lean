import OpenCaptions.Proofs.Render.Encoding
import OpenCaptions.Proofs.Render.Ready

/-!
The encodes of a render. There are two at most, and the second differs from the first in its graph only.
-/
namespace OpenCaptions

variable {σ : Type}

def Event.command? : Event → Option (List String)
  | .spawned arguments _ => some arguments
  | _ => none

def commands (events : List Event) : List (List String) := events.filterMap Event.command?

theorem commands_eq_nil {events : List Event} (h : ∀ event ∈ events, event.command? = none) :
    commands events = [] := List.filterMap_eq_nil_iff.2 h

theorem Event.IsPreparing.command?_eq_none {event : Event} (h : event.IsPreparing) : event.command? = none := by
  cases event <;> first | rfl | exact h.elim

theorem Event.IsReading.command?_eq_none {event : Event} (h : event.IsReading) : event.command? = none := by
  cases event <;> first | rfl | exact h.elim

theorem commands_append (first second : List Event) :
    commands (first ++ second) = commands first ++ commands second := List.filterMap_append

namespace RenderJob

open Session

variable (job : RenderJob) (engine : Engine σ) (options : RenderOptions) (part : Part)

/-- One encode spawns one process, and reports no end of the render. -/
theorem exists_log_encode (encoding : EncodeJob) (graph : FilterGraph) (s : Session σ) :
    ∃ events, (encoding.encode engine graph s).2.log = s.log ++ events ∧
      commands events = [encoding.arguments graph.text] ∧ .reported 100 "done" ∉ events := by
  cases hs : Session.spawn engine (encoding.arguments graph.text) s with
  | mk started t =>
    have hspawned := Session.log_spawn s hs
    cases started with
    | error message =>
      rw [EncodeJob.encode_of_error encoding engine graph s hs]
      exact ⟨_, hspawned, rfl, by simp⟩
    | ok invocation =>
      obtain ⟨reading, rest, hlog, hreading, hrest⟩ := (EncodeJob.encodesTo_encode hs).exists_log
      have hend : ∀ event ∈ rest, event = .killed ∨ event = .waited := by
        rcases hrest with ⟨rfl, -⟩ | ⟨rfl, -⟩ | ⟨rfl, -⟩
        · simp
        · simp
        · simp
      have hnone : commands (reading ++ rest) = [] := by
        apply commands_eq_nil
        rw [List.forall_mem_append]
        constructor
        · exact fun event hm => (hreading event hm).command?_eq_none
        · intro event hm
          rcases hend event hm with rfl | rfl
          · rfl
          · rfl
      refine ⟨.spawned (encoding.arguments graph.text) true :: (reading ++ rest), ?_, ?_, ?_⟩
      · rw [hlog, hspawned]
        simp [Except.isOk, Except.toBool]
      · change encoding.arguments graph.text :: commands (reading ++ rest) = _
        rw [hnone]
      · rw [List.mem_cons, List.mem_append]
        rintro (hm | hm | hm)
        · cases hm
        · exact hreading _ hm ⟨rfl, rfl⟩
        · rcases hend _ hm with hm | hm
          · cases hm
          · cases hm

section Twice

variable (encoding : EncodeJob) (prepared : Prepared)

def repetition (e : RenderError) : Event :=
  .reported (-1) ("warning: " ++ e.message ++ "; retrying with a sanitized filter graph")

def warned (e : RenderError) (s : Session σ) : Session σ := (Session.record (repetition e) s).2

/-- Why an encode is repeated: it failed over a graph that has not been repaired. -/
structure Repeats (e : RenderError) (s : Session σ) : Prop where
  failed : (encoding.encode engine prepared.graph s).1 = .error e
  related : e.isGraphRelated = true
  unsanitized : prepared.sanitized = false

variable {encoding prepared} {engine}

theorem encodeTwice_of_repeats {e : RenderError} {sanitized : FilterGraph} {s : Session σ}
    (h : Repeats engine encoding prepared e s) (hs : prepared.graph.sanitize? = some sanitized) :
    encodeTwice encoding engine prepared s =
      encoding.encode engine sanitized (warned e (encoding.encode engine prepared.graph s).2) := by
  simp only [encodeTwice, State.bind_apply, h.failed, h.related, h.unsanitized, hs]
  rfl

theorem encodeTwice_of_not_repeats {s : Session σ} (h : ¬ ∃ e, Repeats engine encoding prepared e s) :
    encodeTwice encoding engine prepared s = encoding.encode engine prepared.graph s := by
  simp only [encodeTwice, State.bind_apply]
  cases hr : encoding.encode engine prepared.graph s with
  | mk result t =>
    cases result with
    | ok u => rfl
    | error e =>
      have hno : (e.isGraphRelated && !prepared.sanitized) = false := by
        by_contra hyes
        rw [Bool.not_eq_false, Bool.and_eq_true, Bool.not_eq_true'] at hyes
        exact h ⟨e, by rw [hr], hyes.1, hyes.2⟩
      simp only [hno]
      rfl

variable (encoding engine)

/-- The processes of one encode, or of two. -/
theorem exists_log_encodeTwice {sanitized : FilterGraph} (hs : prepared.graph.sanitize? = some sanitized)
    (s : Session σ) :
    ∃ events, (encodeTwice encoding engine prepared s).2.log = s.log ++ events ∧ .reported 100 "done" ∉ events ∧
      ((∃ e, Repeats engine encoding prepared e s) ∧
          commands events = [encoding.arguments prepared.graph.text, encoding.arguments sanitized.text] ∨
        (¬ ∃ e, Repeats engine encoding prepared e s) ∧
          commands events = [encoding.arguments prepared.graph.text]) := by
  obtain ⟨first, hfirst, hcommand, hdone⟩ := exists_log_encode engine encoding prepared.graph s
  by_cases h : ∃ e, Repeats engine encoding prepared e s
  · obtain ⟨e, he⟩ := h
    obtain ⟨second, hsecond, hcommand', hdone'⟩ :=
      exists_log_encode engine encoding sanitized (warned e (encoding.encode engine prepared.graph s).2)
    have hwarned : (warned e (encoding.encode engine prepared.graph s).2).log =
        (encoding.encode engine prepared.graph s).2.log ++ [repetition e] := rfl
    rw [encodeTwice_of_repeats he hs]
    refine ⟨first ++ repetition e :: second, ?_, ?_, .inl ⟨⟨e, he⟩, ?_⟩⟩
    · rw [hsecond, hwarned, hfirst]
      simp
    · simp [hdone, hdone', repetition]
    · rw [commands_append, hcommand]
      change _ ++ commands second = _
      rw [hcommand']
      rfl
  · rw [encodeTwice_of_not_repeats h]
    exact ⟨first, hfirst, hdone, .inr ⟨h, hcommand⟩⟩

end Twice

/-- Delivering reports the end of the render if anything, and nothing behind an error. -/
theorem exists_log_deliver (result : Except RenderError Unit) (s : Session σ) :
    ∃ events, (deliver part result s).2.log = s.log ++ events ∧ commands events = [] := by
  cases result with
  | error e => exact ⟨[], (List.append_nil s.log).symm, rfl⟩
  | ok u =>
    simp only [deliver, State.bind_apply, State.ite_apply]
    split
    · exact ⟨[.reported 100 "done"], rfl, rfl⟩
    · exact ⟨[], (List.append_nil s.log).symm, rfl⟩

theorem execute_of_error {e : RenderError} {s t : Session σ} (h : job.ready engine options part s = (.error e, t)) :
    job.execute engine options part s = (.error e, t) := by
  rw [execute, State.bind_apply, h]
  rfl

theorem execute_of_ready {encoding : EncodeJob} {prepared : Prepared} {s t : Session σ}
    (h : job.ready engine options part s = (.ok (encoding, prepared), t)) :
    job.execute engine options part s =
      deliver part (encodeTwice encoding engine prepared t).1 (encodeTwice encoding engine prepared t).2 := by
  rw [execute, State.bind_apply, h]
  rfl

private theorem exists_arguments (encoding : EncodeJob) : ∃ front back, ∀ graph,
    encoding.arguments graph =
      front ++ ["-filter_complex", graph, "-map", "[" ++ encoding.label ++ "]"] ++ back := by
  obtain ⟨back, hback⟩ : ∃ back, back = encoding.encoder.arguments ++
      (if encoding.hasAudio then EncodeJob.audioArguments else []) ++ [encoding.output] := ⟨_, rfl⟩
  cases hs : encoding.segment with
  | none =>
    refine ⟨["-hide_banner", "-nostdin", "-y", "-i", encoding.input], back, fun graph => ?_⟩
    simp [EncodeJob.arguments, hs, hback]
  | some segment =>
    refine ⟨["-hide_banner", "-nostdin", "-y", "-ss", EncodeJob.secondsText segment.start, "-i", encoding.input,
      "-t", EncodeJob.secondsText segment.duration], back, fun graph => ?_⟩
    simp [EncodeJob.arguments, hs, hback]

/-- A run encodes twice at most. It does so exactly if the first encode fails over a graph that can still be
repaired, and then with nothing but the graph exchanged for its repair. -/
theorem encodes_twice_at_most (s : Session σ) :
    ∃ events, (job.execute engine options part s).2.log = s.log ++ events ∧
      (commands events).length ≤ 2 ∧
      (∀ e t, job.ready engine options part s = (.error e, t) →
        (job.execute engine options part s).1 = .error e ∧ commands events = []) ∧
      ∀ encoding prepared t, job.ready engine options part s = (.ok (encoding, prepared), t) →
        ∃ sanitized front back, FitsLabel encoding prepared.graph sanitized ∧
          (∀ graph, encoding.arguments graph =
            front ++ ["-filter_complex", graph, "-map", "[" ++ encoding.label ++ "]"] ++ back) ∧
          ((∃ e, Repeats engine encoding prepared e t ∧
              commands events =
                [encoding.arguments prepared.graph.text, encoding.arguments sanitized.text] ∧
              ∀ e', (encoding.encode engine sanitized
                  (warned e (encoding.encode engine prepared.graph t).2)).1 = .error e' →
                (job.execute engine options part s).1 = .error e') ∨
            (¬ ∃ e, Repeats engine encoding prepared e t) ∧
              commands events = [encoding.arguments prepared.graph.text] ∧
              ∀ e, (encoding.encode engine prepared.graph t).1 = .error e →
                (job.execute engine options part s).1 = .error e) := by
  obtain ⟨hready, before, hbefore, hpreparing⟩ := job.does_ready engine options part s
  have hnone : commands before = [] := commands_eq_nil fun event hm => (hpreparing event hm).command?_eq_none
  cases hr : job.ready engine options part s with
  | mk result t =>
    rw [hr] at hready hbefore
    cases result with
    | error e =>
      rw [execute_of_error job engine options part hr]
      refine ⟨before, hbefore, by simp [hnone], ?_, ?_⟩
      · intro e' t' heq
        cases heq
        exact ⟨rfl, hnone⟩
      · intro encoding prepared t' heq
        cases heq
    | ok ready =>
      obtain ⟨encoding, prepared⟩ := ready
      obtain ⟨sanitized, hlabel⟩ := hready encoding prepared rfl
      obtain ⟨front, back, harguments⟩ := exists_arguments encoding
      obtain ⟨during, hduring, -, hcommands⟩ := exists_log_encodeTwice engine encoding hlabel.repair t
      obtain ⟨after, hafter, hnone'⟩ := exists_log_deliver part (encodeTwice encoding engine prepared t).1
        (encodeTwice encoding engine prepared t).2
      -- Only the part of the log between the preparations and the delivery has processes in it.
      have hall : commands (before ++ (during ++ after)) = commands during := by
        rw [commands_append, commands_append, hnone, hnone', List.nil_append, List.append_nil]
      have hfails : ∀ e, (encodeTwice encoding engine prepared t).1 = .error e →
          (job.execute engine options part s).1 = .error e := by
        intro e he
        rw [execute_of_ready job engine options part hr, he]
        rfl
      refine ⟨before ++ (during ++ after), ?_, ?_, ?_, ?_⟩
      · rw [execute_of_ready job engine options part hr, hafter, hduring, hbefore]
        simp
      · rw [hall]
        rcases hcommands with ⟨-, hc⟩ | ⟨-, hc⟩
        · simp [hc]
        · simp [hc]
      · intro e t' heq
        cases heq
      · intro encoding' prepared' t' heq
        cases heq
        refine ⟨sanitized, front, back, hlabel, harguments, ?_⟩
        rw [hall]
        rcases hcommands with ⟨⟨e, he⟩, hc⟩ | ⟨h, hc⟩
        · rw [encodeTwice_of_repeats he hlabel.repair] at hfails
          exact .inl ⟨e, he, hc, hfails⟩
        · rw [encodeTwice_of_not_repeats h] at hfails
          exact .inr ⟨h, hc, hfails⟩

def reshaping : RenderJob where
  input := "clip.mp4"
  captions := []
  presets := .ofList []
  aspect := some "9:16"

def whole : Part := ⟨[], 0, none, "out.mp4", .encode⟩

def untried : RenderOptions := { validation := .off }

def failing : Session Script where
  world := {
    engine := {
      video := .ok ⟨Scalar.ofNat 10, 1920, 1080, false⟩
      run := .error ""
      encodes := [{ code := some 1 }, { code := some 1 }] }
    files := ⟨[(["clip.mp4"], .file .empty)]⟩ }

example : (commands (reshaping.execute Script.engine untried whole failing).2.log).length = 2 := by
  decide +kernel

end RenderJob
end OpenCaptions
