import OpenCaptions.Proofs.Filter.Attribution
import OpenCaptions.Proofs.Render.DryRuns
import OpenCaptions.Render.Run

/-!
A render up to its encodes. By then nothing has been encoded, and the graph that is ready can be repaired without
a change of its labels.
-/
namespace OpenCaptions

open OpenCaptions.Filter

variable {σ α β γ : Type}

/-- What comes before the encodes: trials of the engine, and messages without a percentage. -/
def Event.IsPreparing : Event → Prop
  | .ran _ | .asked _ => True
  | .reported percent _ => percent = -1
  | _ => False

namespace FilterGraph

def lastLabel? (text : List Char) : Option (List Char) :=
  match splitTopLevel ';' text with
  | .error _ => none
  | .ok segments => segments.getLast?.bind fun segment => (splitLabels? segment).map Labelled.output

variable {graph other : FilterGraph}

private theorem lastLabel?_text (hne : graph.nodes ≠ []) (h : ∀ node ∈ graph.nodes, node.IsWhole) :
    lastLabel? graph.text.toList = some graph.outputLabel.toList := by
  have hlast := List.getLast?_eq_some_getLast hne
  have hwhole := h _ (List.getLast_mem hne)
  rw [lastLabel?, splitTopLevel_text hne h]
  simp [outputLabel, hlast, hwhole.splitLabels?]

/-- Proper nodes in the frame of a graph end in its label. -/
theorem lastLabel?_of_frame (hne : graph.nodes ≠ [])
    (hf : other.nodes.map FilterNode.frame = graph.nodes.map FilterNode.frame)
    (h : ∀ node ∈ other.nodes, node.IsProper) :
    lastLabel? other.text.toList = some graph.outputLabel.toList := by
  have hne' : other.nodes ≠ [] := by
    intro hnil
    rw [hnil, List.map_nil, eq_comm, List.map_eq_nil_iff] at hf
    exact hne hf
  rw [lastLabel?_text hne' fun node hm => (h node hm).isWhole, outputLabel_of_frame hf]

end FilterGraph

namespace Session

/-- All that a computation adds to the log has one property, and its result has another. -/
def Does (p : Event → Prop) (q : β → Prop) (x : SessionM σ β) : Prop :=
  ∀ s, q (x s).1 ∧ ∃ events, (x s).2.log = s.log ++ events ∧ ∀ event ∈ events, p event

namespace Does

variable {p : Event → Prop} {q : β → Prop} {r : γ → Prop} {x : SessionM σ β} {f : β → SessionM σ γ}

theorem pure {b : β} (h : q b) : Does p q (pure b : SessionM σ β) :=
  fun s => ⟨h, [], (List.append_nil s.log).symm, by simp⟩

theorem files : Does p (fun _ => True) (files : SessionM σ FileStore) :=
  fun s => ⟨trivial, [], (List.append_nil s.log).symm, by simp⟩

theorem act (action : StateM (World σ) β) : Does p (fun _ => True) (act action) :=
  fun s => ⟨trivial, [], (List.append_nil s.log).symm, by simp⟩

theorem record {event : Event} (h : p event) : Does p (fun _ => True) (record event : SessionM σ Unit) :=
  fun _ => ⟨trivial, [event], rfl, by simpa using h⟩

theorem bind (hx : Does p q x) (hf : ∀ b, q b → Does p r (f b)) : Does p r (x >>= f) := by
  intro s
  obtain ⟨hq, first, hfirst, hp⟩ := hx s
  obtain ⟨hr, second, hsecond, hp'⟩ := hf (x s).1 hq (x s).2
  refine ⟨hr, first ++ second, ?_, List.forall_mem_append.2 ⟨hp, hp'⟩⟩
  rw [State.bind_apply, hsecond, hfirst, List.append_assoc]

theorem forM {f : α → SessionM σ Unit} (h : ∀ a, Does p (fun _ => True) (f a)) (l : List α) :
    Does p (fun _ => True) (l.forM f) := by
  induction l with
  | nil => exact .pure trivial
  | cons a l ih =>
    rw [List.forM_eq_forM] at ih ⊢
    rw [List.forM_cons]
    exact (h a).bind fun _ _ => ih

end Does

end Session

namespace RenderJob

open Session

variable (job : RenderJob) (engine : Engine σ) (options : RenderOptions) (part : Part)

theorem does_reportWarnings (warnings : List Warning) :
    Does Event.IsPreparing (fun _ => True) (reportWarnings warnings : SessionM σ Unit) := by
  apply Does.forM
  intro w
  exact .record rfl

section Asks

variable {p : Event → Prop} (hp : ∀ name, p (.asked name))
include hp

private theorem does_firstAvailable (encoders : List Encoder) :
    Does p (fun _ => True) (Session.firstAvailable engine encoders) := by
  induction encoders with
  | nil => exact .pure trivial
  | cons encoder encoders ih =>
    have hasked : Does p (fun _ => True) (Session.hasEncoder engine encoder.name) :=
      (Does.record (hp encoder.name)).bind fun _ _ => .act _
    apply hasked.bind
    intro available _
    cases available with
    | true => exact .pure trivial
    | false => exact ih

theorem does_selectEncoder (preferHardware : Bool) :
    Does p (fun _ => True) (Session.selectEncoder engine preferHardware) := by
  cases preferHardware with
  | true => exact (does_firstAvailable engine hp _).bind fun _ _ => .pure trivial
  | false => exact .pure trivial

end Asks

/-- Proper nodes are still proper when they are ready, in the same frame. -/
theorem does_prepare (mode : ValidationMode) {graph : FilterGraph} (h : ∀ node ∈ graph.nodes, node.IsProper) :
    Does Event.IsPreparing
      (fun prepared => prepared.graph.nodes.map FilterNode.frame = graph.nodes.map FilterNode.frame ∧
        ∀ node ∈ prepared.graph.nodes, node.IsProper)
      (prepare engine mode graph) := by
  intro s
  constructor
  · rw [prepare, State.bind_apply, State.pure_apply]
    cases hp : (graph.prepare (Validation.judge engine mode) s).1 with
    | none => exact ⟨rfl, h⟩
    | some prepared => exact ⟨(graph.prepare_eq_some _ hp).1, FilterGraph.proper_of_prepare h hp⟩
  · obtain ⟨asked, hlog, -⟩ := Validation.dryRuns_prepare engine mode graph s
    refine ⟨_, hlog, ?_⟩
    rw [List.forall_mem_map]
    exact fun _ _ => trivial

variable {job part} in
theorem checkInput_eq_ok {files : FileStore} :
    job.checkInput part files = .ok () ↔
      files.isFile job.input = true ∧ (part.captions ≠ [] ∨ job.aspect ≠ none) := by
  unfold checkInput
  cases files.isFile job.input <;> cases part.captions <;> cases job.aspect <;> simp

variable {job options part} in
theorem assemble_eq_ok {video : VideoInfo} {files : FileStore} {built : AssembledGraph} :
    job.assemble options part video files = .ok built ↔
      ∃ aspect, job.readAspect = .ok aspect ∧
        (job.graphRequest part.captions part.firstIndex aspect options.fade).assemble files.isFile
          (some (video.width, video.height)) = .ok built := by
  rw [assemble, Failure.bind_eq_ok]
  refine exists_congr fun aspect => and_congr_right fun _ => ?_
  dsimp only
  split
  · rename_i hb
    rw [hb, Failure.pure_eq_ok, Except.ok.injEq]
  · rename_i hb
    rw [hb]
    exact ⟨fun h => absurd h Failure.throw_ne_ok, fun h => by cases h⟩

structure FitsLabel (encoding : EncodeJob) (graph sanitized : FilterGraph) : Prop where
  repair : graph.sanitize? = some sanitized
  graph : FilterGraph.lastLabel? graph.text.toList = some encoding.label.toList
  sanitized : FilterGraph.lastLabel? sanitized.text.toList = some encoding.label.toList

/-- Nothing is encoded before the encodes, and what is then ready can be repaired. -/
theorem does_ready :
    Does Event.IsPreparing
      (fun result => ∀ encoding prepared, result = .ok (encoding, prepared) →
        ∃ sanitized, FitsLabel encoding prepared.graph sanitized)
      (job.ready engine options part) := by
  apply Does.files.bind
  intro files _
  cases job.checkInput part files with
  | error e => exact .pure (by simp)
  | ok u =>
    apply (Does.act _).bind
    intro probed _
    cases probed with
    | error e => exact .pure (by simp)
    | ok video =>
      apply Does.files.bind
      intro files _
      cases ha : job.assemble options part video files with
      | error e => exact .pure (by simp)
      | ok built =>
        obtain ⟨aspect, -, hbuilt⟩ := assemble_eq_ok.1 ha
        have hproper := GraphRequest.proper_of_assemble hbuilt
        have hne := (GraphRequest.isChain_of_assemble hbuilt).ne_nil
        apply (does_reportWarnings _).bind
        intro _ _
        apply (does_prepare engine _ hproper).bind
        intro prepared hprepared
        apply (does_reportWarnings _).bind
        intro _ _
        apply (does_selectEncoder engine (fun _ => trivial) _).bind
        intro encoder _
        apply Does.pure
        intro encoding prepared' heq
        rw [Except.ok.injEq, Prod.mk.injEq] at heq
        obtain ⟨rfl, rfl⟩ := heq
        -- Neither preparing nor another repair touches the labels, of which the last one is encoded.
        obtain ⟨hframe, hproper'⟩ := hprepared
        obtain ⟨sanitized, hs⟩ := FilterGraph.exists_sanitize?_of_proper hproper'
        have hframe' := (FilterGraph.map_frame_of_sanitize? hs).trans hframe
        exact ⟨sanitized, hs, FilterGraph.lastLabel?_of_frame hne hframe hproper',
          FilterGraph.lastLabel?_of_frame hne hframe' (FilterGraph.proper_of_sanitize? hproper' hs)⟩

end RenderJob
end OpenCaptions
