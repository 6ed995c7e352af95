import OpenCaptions.Proofs.Steps
import OpenCaptions.Render.Encode

/-!
Reading the output of an invocation, whatever it gives. Reading goes on until a request to cancel is seen, an
attempt fails or the output ends, and only one of the three can be the case.
-/
namespace OpenCaptions

variable {σ : Type}

theorem Session.isCancelled_apply (s : Session σ) : isCancelled s = (s.world.cancelled, s) := rfl

/-- What reading adds to the log: attempts, and reports other than the last one of a render. -/
def Event.IsReading : Event → Prop
  | .readLine => True
  | .reported percent message => ¬ (percent = 100 ∧ message = "done")
  | _ => False

/-- From one session to another `n` attempts to read were made, and what they read was reported. -/
structure Attempts (n : Nat) (s t : Session σ) : Prop where
  files : t.world.files = s.world.files
  log : ∃ events, t.log = s.log ++ events ∧ events.count .readLine = n ∧ ∀ event ∈ events, event.IsReading

namespace Attempts

variable {m n : Nat} {s t u : Session σ}

theorem refl (s : Session σ) : Attempts 0 s s := ⟨rfl, [], by simp⟩

theorem trans (hs : Attempts m s t) (ht : Attempts n t u) : Attempts (m + n) s u := by
  obtain ⟨first, hfirst, hm, hreading⟩ := hs.log
  obtain ⟨second, hsecond, hn, hreading'⟩ := ht.log
  refine ⟨ht.files.trans hs.files, first ++ second, ?_, ?_, ?_⟩
  · rw [hsecond, hfirst, List.append_assoc]
  · rw [List.count_append, hm, hn]
  · rw [List.forall_mem_append]
    exact ⟨hreading, hreading'⟩

end Attempts

namespace LineRead

structure ReadLines (reads : List LineRead) (n : Nat) : Prop where
  le : n ≤ reads.length
  lines : ∀ attempt ∈ reads.take n, attempt.outcome.isOk = true

/-- Whether the render has been cancelled in front of attempt `n`. -/
def cancelledBy (cancelled : Bool) (reads : List LineRead) (n : Nat) : Bool :=
  cancelled || (reads.take n).any (·.cancels)

/-- Why attempt `n` reads no line, if it fails. The attempt behind all others finds the end of the output. -/
def failure? (failsAtEnd : Option String) (reads : List LineRead) (n : Nat) : Option String :=
  match reads[n]? with
  | none => failsAtEnd
  | some attempt =>
    match attempt.outcome with
    | .error message => some message
    | .ok _ => none

structure SeenAt (cancelled : Bool) (reads : List LineRead) (n : Nat) : Prop where
  read : ReadLines reads n
  seen : cancelledBy cancelled reads n = true
  first : ∀ m < n, cancelledBy cancelled reads m = false

instance {reads : List LineRead} {n : Nat} : Decidable (ReadLines reads n) :=
  decidable_of_iff (n ≤ reads.length ∧ ∀ attempt ∈ reads.take n, attempt.outcome.isOk = true)
    ⟨fun h => ⟨h.1, h.2⟩, fun h => ⟨h.le, h.lines⟩⟩

instance {cancelled : Bool} {reads : List LineRead} {n : Nat} : Decidable (SeenAt cancelled reads n) :=
  decidable_of_iff (ReadLines reads n ∧ cancelledBy cancelled reads n = true ∧
      ∀ m < n, cancelledBy cancelled reads m = false)
    ⟨fun h => ⟨h.1, h.2.1, h.2.2⟩, fun h => ⟨h.read, h.seen, h.first⟩⟩
/-- Attempt `n` fails, and no request to cancel has been seen by then. -/
structure FailsAt (cancelled : Bool) (failsAtEnd : Option String) (reads : List LineRead) (n : Nat)
    (message : String) : Prop where
  read : ReadLines reads n
  unseen : cancelledBy cancelled reads n = false
  failure : failure? failsAtEnd reads n = some message

structure Ends (cancelled : Bool) (failsAtEnd : Option String) (reads : List LineRead) : Prop where
  read : ReadLines reads reads.length
  unseen : cancelledBy cancelled reads reads.length = false
  failure : failsAtEnd = none

variable {attempt : LineRead} {reads : List LineRead} {m n : Nat} {cancelled : Bool}
  {failsAtEnd : Option String} {message : String}

theorem cancelledBy_cons : cancelledBy cancelled (attempt :: reads) (n + 1) =
    cancelledBy (cancelled || attempt.cancels) reads n := by
  simp [cancelledBy, Bool.or_assoc]

/-- A request to cancel stays. -/
theorem lt_of_cancelledBy (hm : cancelledBy cancelled reads m = false)
    (hn : cancelledBy cancelled reads n = true) : m < n := by
  by_contra hle
  have hsub : (reads.take n).Sublist (reads.take m) := List.take_sublist_take_left (by omega)
  simp only [cancelledBy, Bool.or_eq_true, List.any_eq_true] at hn
  rw [cancelledBy, Bool.or_eq_false_iff, List.any_eq_false] at hm
  rcases hn with hc | ⟨attempt, ha, hc⟩
  · simp [hm.1] at hc
  · exact hm.2 attempt (hsub.subset ha) hc

theorem ReadLines.cons (hok : attempt.outcome.isOk = true) (h : ReadLines reads n) :
    ReadLines (attempt :: reads) (n + 1) :=
  ⟨Nat.succ_le_succ h.le, by simpa using ⟨hok, h.lines⟩⟩

theorem ReadLines.failure?_eq_none (h : ReadLines reads n) (failsAtEnd : Option String) (hm : m < n) :
    failure? failsAtEnd reads m = none := by
  have hlt : m < reads.length := by have := h.le; omega
  have hok := h.lines reads[m] (List.mem_take_iff_getElem.2 ⟨m, by omega, rfl⟩)
  rw [failure?, List.getElem?_eq_getElem hlt]
  cases ho : reads[m].outcome with
  | error message => simp [ho, Except.isOk, Except.toBool] at hok
  | ok line => simp [ho]

end LineRead

namespace EncodeJob

open LineRead

/-- What reading comes to, and the number of attempts that it takes. -/
inductive ReadsTo (cancelled : Bool) (failsAtEnd : Option String) (reads : List LineRead) : Ending → Nat → Prop
  | cancelled {n : Nat} (h : SeenAt cancelled reads n) : ReadsTo cancelled failsAtEnd reads .cancelled n
  | failed {n : Nat} {message : String} (h : FailsAt cancelled failsAtEnd reads n message) :
      ReadsTo cancelled failsAtEnd reads (.failed message) (n + 1)
  | ended {lines : List String} (h : Ends cancelled failsAtEnd reads) :
      ReadsTo cancelled failsAtEnd reads (.ended lines) (reads.length + 1)

namespace ReadsTo

variable {attempt : LineRead} {reads : List LineRead} {k n : Nat} {cancelled : Bool}
  {failsAtEnd : Option String} {ending : Ending} {message : String}

theorem cons (hok : attempt.outcome.isOk = true) (h : ReadsTo attempt.cancels failsAtEnd reads ending n) :
    ReadsTo false failsAtEnd (attempt :: reads) ending (n + 1) := by
  cases h with
  | cancelled h =>
    have hseen : cancelledBy false (attempt :: reads) (n + 1) = true := by
      rw [cancelledBy_cons]
      exact h.seen
    refine .cancelled ⟨h.read.cons hok, hseen, fun m hm => ?_⟩
    cases m with
    | zero => rfl
    | succ m =>
      rw [cancelledBy_cons]
      exact h.first m (by omega)
  | @failed n message h =>
    have hunseen : cancelledBy false (attempt :: reads) (n + 1) = false := by
      rw [cancelledBy_cons]
      exact h.unseen
    exact .failed ⟨h.read.cons hok, hunseen, by simpa [failure?] using h.failure⟩
  | ended h =>
    have hunseen : cancelledBy false (attempt :: reads) (reads.length + 1) = false := by
      rw [cancelledBy_cons]
      exact h.unseen
    exact .ended ⟨h.read.cons hok, hunseen, h.failure⟩

theorem zero (failsAtEnd : Option String) (reads : List LineRead) : ReadsTo true failsAtEnd reads .cancelled 0 :=
  .cancelled ⟨⟨Nat.zero_le _, by simp⟩, rfl, by simp⟩

/-- Nothing but a request to cancel ends reading where one is seen. -/
theorem of_seenAt (h : ReadsTo cancelled failsAtEnd reads ending n) (hs : SeenAt cancelled reads k) :
    ending = .cancelled ∧ n = k := by
  cases h with
  | cancelled h =>
    refine ⟨rfl, le_antisymm (not_lt.1 fun hlt => ?_) (not_lt.1 fun hlt => ?_)⟩
    · simpa [hs.seen] using h.first _ hlt
    · simpa [h.seen] using hs.first _ hlt
  | failed h =>
    have hnone := hs.read.failure?_eq_none failsAtEnd (lt_of_cancelledBy h.unseen hs.seen)
    rw [h.failure] at hnone
    cases hnone
  | ended h =>
    have hlt := lt_of_cancelledBy h.unseen hs.seen
    have hle := hs.read.le
    omega

/-- Nothing but a failure ends reading where an attempt fails. -/
theorem of_failsAt (h : ReadsTo cancelled failsAtEnd reads ending n)
    (hf : FailsAt cancelled failsAtEnd reads k message) : ending = .failed message ∧ n = k + 1 := by
  have hearlier {m : Nat} (hm : ReadLines reads m) : m ≤ k := by
    by_contra hlt
    have hnone := hm.failure?_eq_none failsAtEnd (not_le.1 hlt)
    rw [hf.failure] at hnone
    cases hnone
  cases h with
  | cancelled h =>
    have hlt := lt_of_cancelledBy hf.unseen h.seen
    have hle := hearlier h.read
    omega
  | @failed n message' h =>
    have hle : k ≤ n := by
      by_contra hlt
      have hnone := hf.read.failure?_eq_none failsAtEnd (not_le.1 hlt)
      rw [h.failure] at hnone
      cases hnone
    obtain rfl : n = k := le_antisymm (hearlier h.read) hle
    obtain rfl : message' = message := Option.some.inj (h.failure.symm.trans hf.failure)
    exact ⟨rfl, rfl⟩
  | ended h =>
    obtain rfl : k = reads.length := le_antisymm hf.read.le (hearlier h.read)
    have hnone : failure? failsAtEnd reads reads.length = none := by simp [failure?, h.failure]
    rw [hf.failure] at hnone
    cases hnone

end ReadsTo

section Exclusive

variable {reads : List LineRead} {k n : Nat} {cancelled : Bool} {failsAtEnd : Option String} {message : String}

theorem seenAt_unique (h : SeenAt cancelled reads n) (hs : SeenAt cancelled reads k) : n = k :=
  ((.cancelled h : ReadsTo cancelled none reads .cancelled n).of_seenAt hs).2

theorem failsAt_unique {message' : String} (h : FailsAt cancelled failsAtEnd reads n message)
    (hf : FailsAt cancelled failsAtEnd reads k message') : message = message' := by
  cases ((ReadsTo.failed h).of_failsAt hf).1
  rfl

theorem not_failsAt_of_seenAt (h : SeenAt cancelled reads n) : ¬ FailsAt cancelled failsAtEnd reads k message := by
  intro hf
  cases ((ReadsTo.cancelled h).of_failsAt hf).1

theorem not_failsAt_of_ends (h : Ends cancelled failsAtEnd reads) :
    ¬ FailsAt cancelled failsAtEnd reads k message := by
  intro hf
  cases ((.ended h : ReadsTo cancelled failsAtEnd reads (.ended []) _).of_failsAt hf).1

theorem not_ends_of_seenAt (h : SeenAt cancelled reads n) : ¬ Ends cancelled failsAtEnd reads := by
  intro he
  cases ((.ended he : ReadsTo cancelled failsAtEnd reads (.ended []) _).of_seenAt h).1

end Exclusive

/-- A line that tells the time is not the last report of a render. -/
theorem time?_done : Progress.time? "done".toList = none := by decide +kernel

/-- Taking a line adds reports and nothing else. -/
theorem takeLine_spec (duration : Float) (kept : List String) (line : String) (s : Session σ) :
    Attempts 0 s (takeLine duration kept line s).2 ∧ (takeLine duration kept line s).2.world = s.world := by
  unfold takeLine
  simp only [State.ite_apply, State.pure_apply]
  split
  · exact ⟨.refl s, rfl⟩
  · cases ht : Progress.time? (Text.trim line.toList) with
    | none => exact ⟨⟨rfl, [.reported (-1) _], rfl, by simp, by simp [Event.IsReading]⟩, rfl⟩
    | some time =>
      refine ⟨⟨rfl, [.reported _ _], rfl, by simp, ?_⟩, rfl⟩
      rw [List.forall_mem_singleton]
      rintro ⟨-, hdone⟩
      rw [← String.toList_ofList (l := Text.trim line.toList), hdone, time?_done] at ht
      cases ht

def attempted (cancels : Bool) (s : Session σ) : Session σ :=
  ⟨{ s.world with cancelled := s.world.cancelled || cancels }, s.log ++ [.readLine]⟩

theorem attempts_attempted (cancels : Bool) (s : Session σ) : Attempts 1 s (attempted cancels s) :=
  ⟨rfl, [.readLine], rfl, by simp, by simp [Event.IsReading]⟩

section ReadOutput

variable (duration : Float) (invocation : Invocation) (kept : List String) (s : Session σ)

theorem readOutput_of_cancelled (reads : List LineRead) (hc : s.world.cancelled = true) :
    readOutput duration invocation kept reads s = (.cancelled, s) := by
  cases reads <;> simp only [readOutput, State.bind_apply, Session.isCancelled_apply, hc] <;> rfl

theorem readOutput_nil (hc : s.world.cancelled = false) :
    readOutput duration invocation kept [] s =
      ((invocation.failsAtEnd.map Ending.failed).getD (.ended kept), attempted invocation.cancelsAtEnd s) := by
  simp only [readOutput, State.bind_apply, Session.isCancelled_apply, hc]
  cases invocation.failsAtEnd <;> rfl

private theorem readOutput_cons (attempt : LineRead) (reads : List LineRead) (hc : s.world.cancelled = false) :
    readOutput duration invocation kept (attempt :: reads) s =
      match attempt.outcome with
      | .error message => (.failed message, attempted attempt.cancels s)
      | .ok line =>
        readOutput duration invocation (takeLine duration kept line (attempted attempt.cancels s)).1 reads
          (takeLine duration kept line (attempted attempt.cancels s)).2 := by
  simp only [readOutput, State.bind_apply, Session.isCancelled_apply, hc]
  cases attempt.outcome <;> rfl

/-- How reading goes on from a session, attempt by attempt: what it comes to, and in which session. -/
inductive ReadsThrough : List String → Session σ → List LineRead → Ending → Session σ → Prop
  | cancelled {kept : List String} {s : Session σ} {reads : List LineRead} (hc : s.world.cancelled = true) :
      ReadsThrough kept s reads .cancelled s
  | ended {kept : List String} {s : Session σ} (hc : s.world.cancelled = false) (hf : invocation.failsAtEnd = none) :
      ReadsThrough kept s [] (.ended kept) (attempted invocation.cancelsAtEnd s)
  | failedAtEnd {kept : List String} {s : Session σ} {message : String} (hc : s.world.cancelled = false)
      (hf : invocation.failsAtEnd = some message) :
      ReadsThrough kept s [] (.failed message) (attempted invocation.cancelsAtEnd s)
  | failed {kept : List String} {s : Session σ} {attempt : LineRead} {reads : List LineRead} {message : String}
      (hc : s.world.cancelled = false) (ho : attempt.outcome = .error message) :
      ReadsThrough kept s (attempt :: reads) (.failed message) (attempted attempt.cancels s)
  | line {kept : List String} {s t : Session σ} {attempt : LineRead} {reads : List LineRead} {line : String}
      {ending : Ending} (hc : s.world.cancelled = false) (ho : attempt.outcome = .ok line)
      (h : ReadsThrough (takeLine duration kept line (attempted attempt.cancels s)).1
        (takeLine duration kept line (attempted attempt.cancels s)).2 reads ending t) :
      ReadsThrough kept s (attempt :: reads) ending t

theorem readsThrough_readOutput (reads : List LineRead) :
    ReadsThrough duration invocation kept s reads (readOutput duration invocation kept reads s).1
      (readOutput duration invocation kept reads s).2 := by
  induction reads generalizing kept s with
  | nil =>
    cases hc : s.world.cancelled with
    | true =>
      rw [readOutput_of_cancelled duration invocation kept s [] hc]
      exact .cancelled hc
    | false =>
      rw [readOutput_nil duration invocation kept s hc]
      cases hf : invocation.failsAtEnd with
      | none => exact .ended hc hf
      | some message => exact .failedAtEnd hc hf
  | cons attempt reads ih =>
    cases hc : s.world.cancelled with
    | true =>
      rw [readOutput_of_cancelled duration invocation kept s _ hc]
      exact .cancelled hc
    | false =>
      rw [readOutput_cons duration invocation kept s attempt reads hc]
      cases ho : attempt.outcome with
      | error message => exact .failed hc ho
      | ok line => exact .line hc ho (ih _ _)

variable {duration invocation kept s} {t : Session σ} {reads : List LineRead} {ending : Ending}

/-- Reading makes attempts until one of three things ends it. -/
theorem ReadsThrough.attempts (h : ReadsThrough duration invocation kept s reads ending t) :
    ∃ n, ReadsTo s.world.cancelled invocation.failsAtEnd reads ending n ∧ Attempts n s t ∧
      ∀ lines, ending = .ended lines → t.world.cancelled = invocation.cancelsAtEnd := by
  -- A request to cancel that is made during an attempt is the state in which the remaining attempts start.
  induction h with
  | cancelled hc =>
    rw [hc]
    exact ⟨0, .zero _ _, .refl _, by simp⟩
  | ended hc hf =>
    rw [hc, hf]
    exact ⟨1, .ended ⟨⟨Nat.le_refl 0, by simp⟩, rfl, rfl⟩, attempts_attempted _ _, fun _ _ => by simp [attempted, hc]⟩
  | failedAtEnd hc hf =>
    rw [hc, hf]
    exact ⟨1, .failed ⟨⟨Nat.zero_le 0, by simp⟩, rfl, rfl⟩, attempts_attempted _ _, by simp⟩
  | failed hc ho =>
    rw [hc]
    exact ⟨1, .failed ⟨⟨Nat.zero_le _, by simp⟩, rfl, by simp [failure?, ho]⟩, attempts_attempted _ _, by simp⟩
  | @line kept s t attempt reads line ending hc ho _ ih =>
    obtain ⟨htaken, hworld⟩ := takeLine_spec duration kept line (attempted attempt.cancels s)
    obtain ⟨n, hreads, hn, hended⟩ := ih
    have hcancelled : (attempted attempt.cancels s).world.cancelled = attempt.cancels := by simp [attempted, hc]
    rw [hworld, hcancelled] at hreads
    rw [hc]
    refine ⟨n + 1, hreads.cons (by rw [ho]; rfl), ?_, hended⟩
    rw [Nat.add_comm]
    simpa using ((attempts_attempted attempt.cancels s).trans htaken).trans hn

end ReadOutput

end EncodeJob

end OpenCaptions
