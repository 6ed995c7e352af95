import OpenCaptions.Proofs.Engine.Blaming
import OpenCaptions.Proofs.Render.Output

/-!
What the failure of an encode says. It rests on the last remarks of the engine alone, and its caption is that of the
filter which the last of the blaming ones among them blames.
-/
namespace OpenCaptions

open Diagnosis LineRead

variable {σ : Type}

/-- What an encode was doing when it failed, from the last remarks of the engine. -/
inductive Diagnosed (stage : Stage) (graph : FilterGraph) (remarks : List String) : FailureContext → Prop
  | owned {number : Nat} {source : CaptionSource} (blames : BlamesLast (remarks.map String.toList) number)
      (owner : graph.captionAtFilter number = some source) :
      Diagnosed stage graph remarks { stage, caption := source.index, presetId := source.presetId }
  | unowned {number : Nat} (blames : BlamesLast (remarks.map String.toList) number)
      (owner : graph.captionAtFilter number = none) : Diagnosed stage graph remarks { stage }
  | unnamed (blames : ∀ remark ∈ remarks, ∀ number, ¬ Blames remark.toList number) :
      Diagnosed stage graph remarks { stage }

namespace Progress

private theorem toList_of_remark? {line remark : String} (h : remark? line = some remark) :
    remark.toList = Text.trim line.toList ∧ remark.toList ≠ [] := by
  simp only [remark?, Option.ite_none_left_eq_some, Option.some.injEq, not_or] at h
  obtain ⟨⟨hne, -⟩, rfl⟩ := h
  rw [String.toList_ofList]
  exact ⟨rfl, hne⟩

end Progress

theorem LineRead.isLine_of_mem_remarks {reads : List LineRead} (h : ∀ line ∈ lines reads, '\n' ∉ line.toList)
    {remark : String} (hm : remark ∈ remarks reads) : Text.IsLine remark.toList ∧ remark.toList ≠ [] := by
  obtain ⟨line, hline, hremark⟩ := List.mem_filterMap.1 hm
  obtain ⟨htrim, hne⟩ := Progress.toList_of_remark? hremark
  exact ⟨htrim ▸ Text.isLine_trim (h line hline), hne⟩

namespace EncodeJob

variable {encoding : EncodeJob} {engine : Engine σ} {graph : FilterGraph} {s : Session σ} {invocation : Invocation}
  {t : Session σ} {code : Option Int}

theorem diagnose_diagnosed (stage : Stage) (graph : FilterGraph) (code : Option Int) {remarks : List String}
    (h : ∀ remark ∈ remarks, Text.IsLine remark.toList ∧ remark.toList ≠ []) :
    ∃ context, diagnose stage graph code remarks = classify context code ("\n".intercalate remarks) ∧
      Diagnosed stage graph remarks context := by
  have hjoin : ("\n".intercalate remarks).toList = Text.join ['\n'] (remarks.map String.toList) :=
    Text.toList_intercalate _ _
  have hlines : ∀ line ∈ remarks.map String.toList, Text.IsLine line := by
    rw [List.forall_mem_map]
    exact fun remark hm => (h remark hm).1
  have hlast : (remarks.map String.toList).getLast? ≠ some [] := by
    intro hnil
    obtain ⟨remark, hm, hempty⟩ := List.mem_map.1 (List.mem_of_getLast? hnil)
    exact (h remark hm).2 hempty
  cases hb : blamedFilter? ("\n".intercalate remarks).toList with
  | none =>
    refine ⟨{ stage }, by rw [diagnose, hb]; rfl, .unnamed ?_⟩
    rw [hjoin, blamedFilter?_join_eq_none_iff hlines hlast, List.forall_mem_map] at hb
    exact hb
  | some number =>
    have hblames := hb
    rw [hjoin, blamedFilter?_join_eq_some_iff hlines hlast] at hblames
    cases ho : graph.captionAtFilter number with
    | none => exact ⟨{ stage }, by rw [diagnose, hb, Option.bind_some, ho], .unowned hblames ho⟩
    | some source => exact ⟨_, by rw [diagnose, hb, Option.bind_some, ho], .owned hblames ho⟩

/-- An encode that exits with another code than zero fails with what its last remarks say, and every output with the
same remarks makes it fail in the same way. -/
theorem encode_of_exits_nonzero (h : Exits encoding engine graph s invocation t code) (hc : code ≠ some 0)
    (hlines : ∀ line ∈ lines invocation.reads, '\n' ∉ line.toList) :
    (∃ context, (encoding.encode engine graph s).1 =
        .error (classify context code ("\n".intercalate ((remarks invocation.reads).rtake 20))) ∧
      Diagnosed encoding.stage graph ((remarks invocation.reads).rtake 20) context) ∧
    ∀ {other : Engine σ} {s' t' : Session σ} {invocation' : Invocation},
      Exits encoding other graph s' invocation' t' code → remarks invocation'.reads = remarks invocation.reads →
        (encoding.encode other graph s').1 = (encoding.encode engine graph s).1 := by
  have hkept : ∀ remark ∈ (remarks invocation.reads).rtake keptLines,
      Text.IsLine remark.toList ∧ remark.toList ≠ [] :=
    fun remark hm => isLine_of_mem_remarks hlines (List.mem_of_mem_drop hm)
  rw [encode_of_exits h, if_neg hc]
  refine ⟨?_, fun h' hsame => ?_⟩
  · obtain ⟨context, hdiagnose, hcontext⟩ := diagnose_diagnosed encoding.stage graph code hkept
    exact ⟨context, congrArg _ hdiagnose, hcontext⟩
  · rw [encode_of_exits h', if_neg hc, hsame]

def drawing : FilterGraph where
  nodes := [⟨"0:v", "scale=640:360", "v0", none⟩,
    ⟨"v0", "drawtext=text=a", "v1", some ⟨4, "bold", "drawtext=text=a"⟩⟩]

/-- A session with an engine that blames the second filter, tells the time and then fails. -/
def blaming : Session Script where
  world := {
    engine := {
      video := .error .noVideo
      run := .error ""
      encodes := [{
        lines := ["[Parsed_scale_0 @ 0x1] slow", "[Parsed_drawtext_1 @ 0x2] Failed to load", "",
          "time=00:00:05.0 [Parsed_scale_0 @ 0x1]", "[Parsed_scale] odd "]
        code := some 1 }] }
    files := .empty }

theorem encode_of_exits_blaming :
    ∃ invocation t, Exits silent Script.engine drawing blaming invocation t (some 1) ∧
      (∀ line ∈ lines invocation.reads, '\n' ∉ line.toList) ∧
      ((∃ context, (silent.encode Script.engine drawing blaming).1 =
          .error (classify context (some 1) ("\n".intercalate ((remarks invocation.reads).rtake 20))) ∧
        Diagnosed .encode drawing ((remarks invocation.reads).rtake 20) context) ∧
      ∀ {other : Engine Script} {s' t' : Session Script} {invocation' : Invocation},
        Exits silent other drawing s' invocation' t' (some 1) → remarks invocation'.reads = remarks invocation.reads →
          (silent.encode other drawing s').1 = (silent.encode Script.engine drawing blaming).1) := by
  have h : Exits silent Script.engine drawing blaming _ _ (some 1) :=
    { spawned := rfl
      ends := ⟨⟨by decide +kernel, by decide +kernel⟩, by decide +kernel, rfl⟩
      uninterrupted := by decide +kernel
      exit := rfl }
  refine ⟨_, _, h, ?_, encode_of_exits_nonzero h (by decide) ?_⟩
  · decide +kernel
  · decide +kernel

example : (silent.encode Script.engine drawing blaming).1 =
    .error (.engine .textRenderer ⟨.encode, some 4, some "bold"⟩ "[Parsed_scale] odd") := by
  decide +kernel

end EncodeJob
end OpenCaptions
