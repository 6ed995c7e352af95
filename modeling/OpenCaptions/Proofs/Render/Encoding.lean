import OpenCaptions.Engine.Scripted
import OpenCaptions.Proofs.Render.Reading

/-!
One encode, whatever the engine does. A started invocation is waited for if its output was read to the end or the
render was cancelled, and left alone if reading failed.
-/
namespace OpenCaptions

open LineRead

variable {σ : Type}

namespace Session

variable (s : Session σ)

theorem log_spawn {engine : Engine σ} {arguments : List String} {started : Except String Invocation}
    {t : Session σ} (h : spawn engine arguments s = (started, t)) :
    t.log = s.log ++ [.spawned arguments started.isOk] := by
  cases h
  rfl

theorem log_kill (invocation : Invocation) : (kill invocation s).2.log = s.log ++ [.killed] := rfl

theorem wait_apply (invocation : Invocation) (killed : Bool) :
    wait invocation killed s =
      ((invocation.wait killed s.world.files).1,
        { s with
          world := { s.world with
            files := (invocation.wait killed s.world.files).2
            cancelled := s.world.cancelled || invocation.cancelsAtWait }
          log := s.log ++ [.waited] }) := rfl

theorem log_wait (invocation : Invocation) (killed : Bool) :
    (wait invocation killed s).2.log = s.log ++ [.waited] := rfl

end Session

namespace EncodeJob

def ioError (job : EncodeJob) (message : String) : RenderError := .io { stage := job.stage } message

def conclusion (job : EncodeJob) (graph : FilterGraph) (lines : List String) (cancelled : Bool) :
    Except String (Option Int) → Except RenderError Unit
  | .error message => .error (job.ioError message)
  | .ok code =>
    if cancelled then .error .cancelled
    else if code = some 0 then .ok ()
    else .error (diagnose job.stage graph code lines)

section Encode

variable (job : EncodeJob) (engine : Engine σ) (graph : FilterGraph) (s : Session σ)

/-- An encode that cannot be started is over. -/
theorem encode_of_error {message : String} {t : Session σ}
    (hs : Session.spawn engine (job.arguments graph.text) s = (.error message, t)) :
    job.encode engine graph s = (.error (job.ioError message), t) := by
  simp only [encode, State.bind_apply, hs]
  rfl

variable {invocation : Invocation} {t u : Session σ}
  (hs : Session.spawn engine (job.arguments graph.text) s = (.ok invocation, t))
include hs

theorem encode_of_failed {message : String}
    (hr : readOutput job.duration invocation [] invocation.reads t = (.failed message, u)) :
    job.encode engine graph s = (.error (job.ioError message), u) := by
  simp only [encode, State.bind_apply, hs, hr]
  rfl

theorem encode_of_cancelled (hr : readOutput job.duration invocation [] invocation.reads t = (.cancelled, u)) :
    job.encode engine graph s =
      (.error .cancelled, (Session.wait invocation true (Session.kill invocation u).2).2) := by
  simp only [encode, State.bind_apply, hs, hr]
  rfl

theorem encode_of_ended {lines : List String}
    (hr : readOutput job.duration invocation [] invocation.reads t = (.ended lines, u)) :
    job.encode engine graph s =
      (job.conclusion graph lines (u.world.cancelled || invocation.cancelsAtWait)
        (invocation.wait false u.world.files).1, (Session.wait invocation false u).2) := by
  simp only [encode, State.bind_apply, hs, hr, Session.wait_apply]
  cases (invocation.wait false u.world.files).1 with
  | error message => rfl
  | ok code =>
    change (if (u.world.cancelled || invocation.cancelsAtWait) = true then pure (.error .cancelled)
      else if code = some 0 then pure (.ok ()) else pure (.error (diagnose job.stage graph code lines)) :
        SessionM σ (Except RenderError Unit)) _ = _
    simp only [State.ite_apply, State.pure_apply, conclusion]
    split
    · rfl
    · split <;> rfl

end Encode

/-- Everything that can happen to an invocation which has been started: the result of its encode, and the
session behind it. -/
inductive EncodesTo (job : EncodeJob) (graph : FilterGraph) (invocation : Invocation) (t : Session σ) :
    Except RenderError Unit → Session σ → Prop
  | cancelled {n : Nat} {u : Session σ} (seen : SeenAt t.world.cancelled invocation.reads n)
      (attempts : Attempts n t u) :
      EncodesTo job graph invocation t (.error .cancelled)
        (Session.wait invocation true (Session.kill invocation u).2).2
  | failed {n : Nat} {message : String} {u : Session σ}
      (fails : FailsAt t.world.cancelled invocation.failsAtEnd invocation.reads n message)
      (attempts : Attempts (n + 1) t u) : EncodesTo job graph invocation t (.error (job.ioError message)) u
  | ended {lines : List String} {u : Session σ}
      (ends : Ends t.world.cancelled invocation.failsAtEnd invocation.reads)
      (attempts : Attempts (invocation.reads.length + 1) t u) :
      EncodesTo job graph invocation t
        (job.conclusion graph lines (invocation.cancelsAtEnd || invocation.cancelsAtWait)
          (invocation.wait false t.world.files).1) (Session.wait invocation false u).2

theorem encodesTo_encode {job : EncodeJob} {engine : Engine σ} {graph : FilterGraph} {s t : Session σ}
    {invocation : Invocation}
    (hs : Session.spawn engine (job.arguments graph.text) s = (.ok invocation, t)) :
    EncodesTo job graph invocation t (job.encode engine graph s).1 (job.encode engine graph s).2 := by
  obtain ⟨n, hreads, hattempts, hended⟩ := (readsThrough_readOutput job.duration invocation [] t invocation.reads).attempts
  cases hr : readOutput job.duration invocation [] invocation.reads t with
  | mk ending u =>
    rw [hr] at hreads hattempts hended
    cases hreads with
    | cancelled seen =>
      rw [encode_of_cancelled job engine graph s hs hr]
      exact .cancelled seen hattempts
    | failed fails =>
      rw [encode_of_failed job engine graph s hs hr]
      exact .failed fails hattempts
    | @ended lines ends =>
      rw [encode_of_ended job engine graph s hs hr, hended lines rfl, hattempts.files]
      exact .ended ends hattempts

/-- What an encode adds to the log: what is read, and then one of three ends. -/
theorem EncodesTo.exists_log {job : EncodeJob} {graph : FilterGraph} {invocation : Invocation} {t u : Session σ}
    {result : Except RenderError Unit} (h : EncodesTo job graph invocation t result u) :
    ∃ reading rest, u.log = t.log ++ (reading ++ rest) ∧ (∀ event ∈ reading, event.IsReading) ∧
      (rest = [.killed, .waited] ∧ result = .error .cancelled ∧
          SeenAt t.world.cancelled invocation.reads (reading.count .readLine) ∨
        rest = [] ∧ (∃ n message, FailsAt t.world.cancelled invocation.failsAtEnd invocation.reads n message ∧
          result = .error (job.ioError message)) ∨
        rest = [.waited] ∧ Ends t.world.cancelled invocation.failsAtEnd invocation.reads) := by
  cases h with
  | cancelled seen attempts =>
    obtain ⟨reading, hlog, rfl, hreading⟩ := attempts.log
    refine ⟨reading, [.killed, .waited], ?_, hreading, .inl ⟨rfl, rfl, seen⟩⟩
    rw [Session.log_wait, Session.log_kill, hlog]
    simp
  | failed fails attempts =>
    obtain ⟨reading, hlog, -, hreading⟩ := attempts.log
    exact ⟨reading, [], by simpa using hlog, hreading, .inr (.inl ⟨rfl, _, _, fails, rfl⟩)⟩
  | ended ends attempts =>
    obtain ⟨reading, hlog, -, hreading⟩ := attempts.log
    refine ⟨reading, [.waited], ?_, hreading, .inr (.inr ⟨rfl, ends⟩)⟩
    rw [Session.log_wait, hlog, List.append_assoc]

/-- An invocation that was started is waited for exactly if no attempt to read fails before a request to cancel
is seen, and then once. If one fails, the invocation is not killed either. -/
theorem waited_iff {job : EncodeJob} {engine : Engine σ} {graph : FilterGraph} {s t : Session σ}
    {invocation : Invocation}
    (hs : Session.spawn engine (job.arguments graph.text) s = (.ok invocation, t)) :
    ∃ events, (job.encode engine graph s).2.log = t.log ++ events ∧ events.count .waited ≤ 1 ∧
      (.waited ∈ events ↔
        ¬ ∃ n message, FailsAt t.world.cancelled invocation.failsAtEnd invocation.reads n message) ∧
      ∀ n message, FailsAt t.world.cancelled invocation.failsAtEnd invocation.reads n message →
        .killed ∉ events ∧ (job.encode engine graph s).1 = .error (job.ioError message) := by
  obtain ⟨reading, rest, hlog, hreading, hrest⟩ := (encodesTo_encode hs).exists_log
  have hwaited : .waited ∉ reading := fun hm => hreading _ hm
  have hkilled : .killed ∉ reading := fun hm => hreading _ hm
  have hcount : reading.count .waited = 0 := List.count_eq_zero.2 hwaited
  rcases hrest with ⟨rfl, -, hseen⟩ | ⟨rfl, n, message, hfails, hresult⟩ | ⟨rfl, hends⟩
  · refine ⟨_, hlog, by simp [List.count_append, hcount], ?_, ?_⟩
    · simpa using fun n message => not_failsAt_of_seenAt hseen
    · exact fun n message hf => absurd hf (not_failsAt_of_seenAt hseen)
  · refine ⟨_, hlog, by simp [hcount], ?_, ?_⟩
    · simpa [hwaited] using ⟨n, message, hfails⟩
    · intro n' message' hf
      obtain rfl := failsAt_unique hfails hf
      exact ⟨by simpa using hkilled, hresult⟩
  · refine ⟨_, hlog, by simp [List.count_append, hcount], ?_, ?_⟩
    · simpa using fun n message => not_failsAt_of_ends hends
    · exact fun n message hf => absurd hf (not_failsAt_of_ends hends)

def silent : EncodeJob where
  input := "clip.mp4"
  output := "clip_captioned.mp4"
  label := "v0"
  encoder := .software
  hasAudio := false
  segment := none
  duration := Scalar.ofNat 10
  stage := .encode

/-- A session with an engine that fails at the first attempt to read its output. -/
def mute : Session Script where
  world := { engine := { video := .error .noVideo, run := .error "", encodes := [{ failAtRead := some 0 }] }
             files := .empty }

theorem waited_iff_silent :
    ∃ invocation t, Session.spawn Script.engine (silent.arguments (FilterGraph.mk []).text) mute =
        (.ok invocation, t) ∧
      ∃ events, (silent.encode Script.engine ⟨[]⟩ mute).2.log = t.log ++ events ∧ events.count .waited ≤ 1 ∧
        (.waited ∈ events ↔
          ¬ ∃ n message, FailsAt t.world.cancelled invocation.failsAtEnd invocation.reads n message) ∧
        ∀ n message, FailsAt t.world.cancelled invocation.failsAtEnd invocation.reads n message →
          .killed ∉ events ∧ (silent.encode Script.engine ⟨[]⟩ mute).1 = .error (silent.ioError message) :=
  ⟨_, _, rfl, waited_iff rfl⟩

theorem unwaited_mute :
    (Session.spawn Script.engine (silent.arguments (FilterGraph.mk []).text) mute).1.isOk = true ∧
      .waited ∉ (silent.encode Script.engine ⟨[]⟩ mute).2.log := by
  decide +kernel

end EncodeJob

end OpenCaptions
