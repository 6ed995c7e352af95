import OpenCaptions.Proofs.Render.Retrying

/-!
Cancelling a render. An encode that is cancelled before its invocation has been waited for never succeeds, and
one that ends as cancelled ends the render.
-/
namespace OpenCaptions

open LineRead

variable {σ : Type}

namespace EncodeJob

variable {encoding : EncodeJob} {engine : Engine σ} {graph : FilterGraph} {s t : Session σ}
  {invocation : Invocation}

/-- Whether somebody cancels the render before an invocation has been waited for. -/
def interrupted (cancelled : Bool) (invocation : Invocation) : Bool :=
  cancelled || invocation.reads.any (·.cancels) || invocation.cancelsAtEnd || invocation.cancelsAtWait

/-- A render that has not been cancelled by the end of the output is cancelled behind it, if at all. -/
theorem interrupted_of_ends (h : Ends t.world.cancelled invocation.failsAtEnd invocation.reads) :
    interrupted t.world.cancelled invocation = (invocation.cancelsAtEnd || invocation.cancelsAtWait) := by
  have hunseen := h.unseen
  rw [cancelledBy, List.take_length] at hunseen
  rw [interrupted, hunseen, Bool.false_or]

/-- Cancelled at any moment, an encode ends as cancelled, or with the error of the read or the wait that failed. -/
theorem encode_of_interrupted
    (hs : Session.spawn engine (encoding.arguments graph.text) s = (.ok invocation, t))
    (hi : interrupted t.world.cancelled invocation = true) :
    (encoding.encode engine graph s).1 = .error .cancelled ∨
      (∃ n message, FailsAt t.world.cancelled invocation.failsAtEnd invocation.reads n message ∧
        (encoding.encode engine graph s).1 = .error (encoding.ioError message)) ∨
      ∃ message, Ends t.world.cancelled invocation.failsAtEnd invocation.reads ∧
        (invocation.wait false t.world.files).1 = .error message ∧
        (encoding.encode engine graph s).1 = .error (encoding.ioError message) := by
  have h := encodesTo_encode hs
  generalize (encoding.encode engine graph s).1 = result at h ⊢
  generalize (encoding.encode engine graph s).2 = u at h
  cases h with
  | cancelled seen attempts => exact .inl rfl
  | failed fails attempts => exact .inr (.inl ⟨_, _, fails, rfl⟩)
  | ended ends attempts =>
    rw [interrupted_of_ends ends] at hi
    rw [hi]
    cases hw : (invocation.wait false t.world.files).1 with
    | error message => exact .inr (.inr ⟨message, ends, rfl, rfl⟩)
    | ok code => exact .inl rfl

/-- Where a request to cancel is seen, reading stops, and the invocation is killed and waited for. -/
theorem encode_of_seenAt
    (hs : Session.spawn engine (encoding.arguments graph.text) s = (.ok invocation, t)) {n : Nat}
    (hn : SeenAt t.world.cancelled invocation.reads n) :
    (encoding.encode engine graph s).1 = .error .cancelled ∧
      ∃ reading, (encoding.encode engine graph s).2.log = t.log ++ (reading ++ [.killed, .waited]) ∧
        reading.count .readLine = n ∧ ∀ event ∈ reading, event.IsReading := by
  obtain ⟨reading, rest, hlog, hreading, hrest⟩ := (encodesTo_encode hs).exists_log
  rcases hrest with ⟨rfl, hresult, hseen⟩ | ⟨-, n, message, hfails, -⟩ | ⟨-, hends⟩
  · exact ⟨hresult, reading, hlog, seenAt_unique hseen hn, hreading⟩
  · exact absurd hfails (not_failsAt_of_seenAt hn)
  · exact absurd hends (not_ends_of_seenAt hn)

end EncodeJob

namespace RenderJob

variable (job : RenderJob) (engine : Engine σ) (options : RenderOptions) (part : Part) (s : Session σ)

/-- The encodes of a run, each with its graph and the session in which it starts. -/
inductive Encodes (encoding : EncodeJob) : FilterGraph → Session σ → Prop
  | first {prepared : Prepared} {t : Session σ}
      (ready : job.ready engine options part s = (.ok (encoding, prepared), t)) :
      Encodes encoding prepared.graph t
  | second {prepared : Prepared} {t : Session σ} {e : RenderError} {sanitized : FilterGraph}
      (ready : job.ready engine options part s = (.ok (encoding, prepared), t))
      (repeats : Repeats engine encoding prepared e t)
      (repair : prepared.graph.sanitize? = some sanitized) :
      Encodes encoding sanitized (warned e (encoding.encode engine prepared.graph t).2)

variable {job engine options part s}

/-- An encode that ends as cancelled is the last one of its run. -/
theorem Encodes.encodeTwice_eq {encoding : EncodeJob} {graph : FilterGraph} {t : Session σ}
    (h : Encodes job engine options part s encoding graph t)
    (hc : (encoding.encode engine graph t).1 = .error .cancelled) :
    ∃ prepared u, job.ready engine options part s = (.ok (encoding, prepared), u) ∧
      encodeTwice encoding engine prepared u = encoding.encode engine graph t := by
  cases h with
  | first ready =>
    -- The error of a cancelled encode is none that a repair of the graph could help.
    refine ⟨_, _, ready, encodeTwice_of_not_repeats ?_⟩
    rintro ⟨e, hfailed, hrelated, -⟩
    rw [hc] at hfailed
    cases hfailed
    cases hrelated
  | second ready repeats repair => exact ⟨_, _, ready, encodeTwice_of_repeats repeats repair⟩

/-- Behind an encode that ends as cancelled nothing is done, and the end of the render has not been reported. -/
theorem Encodes.execute_of_cancelled {encoding : EncodeJob} {graph : FilterGraph} {t : Session σ}
    (h : Encodes job engine options part s encoding graph t)
    (hc : (encoding.encode engine graph t).1 = .error .cancelled) :
    job.execute engine options part s = (.error .cancelled, (encoding.encode engine graph t).2) ∧
      ∃ events, (encoding.encode engine graph t).2.log = s.log ++ events ∧ .reported 100 "done" ∉ events := by
  obtain ⟨prepared, u, hr, htwice⟩ := h.encodeTwice_eq hc
  obtain ⟨hready, before, hbefore, hpreparing⟩ := job.does_ready engine options part s
  rw [hr] at hready hbefore
  obtain ⟨sanitized, hlabel⟩ := hready encoding prepared rfl
  obtain ⟨during, hduring, hdone, -⟩ := exists_log_encodeTwice engine encoding hlabel.repair u
  constructor
  · rw [execute_of_ready job engine options part hr, htwice, hc]
    rfl
  · refine ⟨before ++ during, ?_, ?_⟩
    · rw [← htwice, hduring, hbefore, List.append_assoc]
    · rw [List.mem_append, not_or]
      refine ⟨fun hm => ?_, hdone⟩
      have hpercent : (100 : Int) = -1 := hpreparing _ hm
      omega

variable (job engine options part s)

/-- Cancelled at any moment before its invocation has been waited for, no encode succeeds or blames its graph; one
that sees the request reads no further, and kills and waits. An encode that ends as cancelled ends its run. -/
theorem cancelling_ends_execute :
    (∀ (encoding : EncodeJob) (graph : FilterGraph) (u : Session σ) (invocation : Invocation) (t : Session σ),
      Session.spawn engine (encoding.arguments graph.text) u = (.ok invocation, t) →
        (EncodeJob.interrupted t.world.cancelled invocation = true →
          (encoding.encode engine graph u).1 = .error .cancelled ∨
            (∃ n message, FailsAt t.world.cancelled invocation.failsAtEnd invocation.reads n message ∧
              (encoding.encode engine graph u).1 = .error (encoding.ioError message)) ∨
            ∃ message, Ends t.world.cancelled invocation.failsAtEnd invocation.reads ∧
              (invocation.wait false t.world.files).1 = .error message ∧
              (encoding.encode engine graph u).1 = .error (encoding.ioError message)) ∧
        ∀ n, SeenAt t.world.cancelled invocation.reads n →
          (encoding.encode engine graph u).1 = .error .cancelled ∧
            ∃ reading, (encoding.encode engine graph u).2.log = t.log ++ (reading ++ [.killed, .waited]) ∧
              reading.count .readLine = n ∧ ∀ event ∈ reading, event.IsReading) ∧
    ∀ encoding graph t, Encodes job engine options part s encoding graph t →
      (encoding.encode engine graph t).1 = .error .cancelled →
        job.execute engine options part s = (.error .cancelled, (encoding.encode engine graph t).2) ∧
          ∃ events, (encoding.encode engine graph t).2.log = s.log ++ events ∧
            .reported 100 "done" ∉ events := by
  constructor
  · intro encoding graph u invocation t hs
    exact ⟨EncodeJob.encode_of_interrupted hs, fun n hn => EncodeJob.encode_of_seenAt hs hn⟩
  · intro encoding graph t h hc
    exact h.execute_of_cancelled hc

def cancelling : Session Script where
  world := {
    engine := {
      video := .ok ⟨Scalar.ofNat 10, 1920, 1080, false⟩
      run := .error ""
      encodes := [{ lines := ["frame= 1", "time=00:00:05.0", "time=00:00:06.0"], code := some 0,
                    cancelAtRead := some 1 }] }
    files := ⟨[(["clip.mp4"], .file .empty)]⟩ }

theorem cancelling_ends_execute_midway :
    ∃ encoding graph t invocation u,
      Encodes reshaping Script.engine untried whole cancelling encoding graph t ∧
      Session.spawn Script.engine (encoding.arguments graph.text) t = (.ok invocation, u) ∧
      SeenAt u.world.cancelled invocation.reads 2 ∧
      (∃ reading, (encoding.encode Script.engine graph t).2.log = u.log ++ (reading ++ [.killed, .waited]) ∧
        reading.count .readLine = 2 ∧ ∀ event ∈ reading, event.IsReading) ∧
      reshaping.execute Script.engine untried whole cancelling =
        (.error .cancelled, (encoding.encode Script.engine graph t).2) := by
  obtain ⟨hspawned, hends⟩ := cancelling_ends_execute reshaping Script.engine untried whole cancelling
  have hrun : (match reshaping.ready Script.engine untried whole cancelling with
      | (.ok (encoding, prepared), t) =>
        match Session.spawn Script.engine (encoding.arguments prepared.graph.text) t with
        | (.ok invocation, u) => decide (SeenAt u.world.cancelled invocation.reads 2)
        | (.error _, _) => false
      | (.error _, _) => false) = true := by
    decide +kernel
  split at hrun
  · rename_i encoding prepared t hready
    have hfirst : Encodes reshaping Script.engine untried whole cancelling encoding prepared.graph t := .first hready
    split at hrun
    · rename_i invocation u hspawn
      have hseen : SeenAt u.world.cancelled invocation.reads 2 := of_decide_eq_true hrun
      obtain ⟨hcancelled, hlog⟩ := (hspawned encoding prepared.graph t invocation u hspawn).2 2 hseen
      exact ⟨encoding, prepared.graph, t, invocation, u, hfirst, hspawn, hseen, hlog,
        (hends encoding prepared.graph t hfirst hcancelled).1⟩
    · cases hrun
  · cases hrun

end RenderJob
end OpenCaptions
