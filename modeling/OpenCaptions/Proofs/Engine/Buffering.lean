import Mathlib
import OpenCaptions.Engine.Lines

/-!
Lines from behind a buffer. What is read are the runs of bytes between the line ends, and how the bytes come into the
buffer makes no difference.
-/
namespace OpenCaptions.Engine

section Runs

variable {bytes before after : List UInt8}

/-- The runs of bytes between line ends that hold something. -/
def runs (bytes : List UInt8) : List (List UInt8) := (bytes.splitOnP isLineEnd).filter (· ≠ [])

theorem runs_eq_of_forall (h : ∀ byte ∈ bytes, isLineEnd byte = false) :
    runs bytes = if bytes = [] then [] else [bytes] := by
  rw [runs, List.splitOnP_eq_singleton h]
  by_cases hnil : bytes = []
  · simp [hnil]
  · simp [hnil]

/-- A line end separates the runs in front of it from those behind it. -/
theorem runs_append_cons (before : List UInt8) {byte : UInt8} (hbyte : isLineEnd byte = true) (after : List UInt8) :
    runs (before ++ byte :: after) = runs before ++ runs after := by
  rw [runs, List.splitOnP_append_cons before after hbyte, List.filter_append]
  rfl

theorem splitChunk?_eq_none (h : splitChunk? bytes = none) : ∀ byte ∈ bytes, isLineEnd byte = false := by
  unfold splitChunk? at h
  split at h
  · rename_i hnil
    simpa using List.dropWhile_eq_nil_iff.1 hnil
  · cases h

theorem splitChunk?_eq_some (h : splitChunk? bytes = some (before, after)) :
    (∀ byte ∈ before, isLineEnd byte = false) ∧ ∃ byte, isLineEnd byte = true ∧ bytes = before ++ byte :: after := by
  unfold splitChunk? at h
  split at h
  · cases h
  · rename_i byte rest hrest
    obtain ⟨rfl, rfl⟩ : bytes.takeWhile (!isLineEnd ·) = before ∧ rest = after := by simpa using h
    refine ⟨fun b hb => by simpa using List.mem_takeWhile_imp hb, byte, ?_, ?_⟩
    · have hhead := List.head_dropWhile_not (p := fun b => !isLineEnd b) (l := bytes) (by simp [hrest])
      simpa [hrest] using hhead
    · rw [← hrest, List.takeWhile_append_dropWhile]

end Runs

/-- A source of bytes with a buffer, which is empty only behind the last byte. -/
structure ByteReader (σ : Type) where
  /-- The bytes that are still to come. -/
  remaining : σ → List UInt8
  /-- The buffer, once there is something in it. -/
  fill : σ → List UInt8 × σ
  /-- Takes so many bytes out of the buffer. -/
  consume : Nat → σ → σ
  fill_prefix (s : σ) : (fill s).1 <+: remaining s
  remaining_eq_nil (s : σ) : (fill s).1 = [] → remaining s = []
  remaining_fill (s : σ) : remaining (fill s).2 = remaining s
  remaining_consume (s : σ) (n : Nat) : n ≤ (fill s).1.length →
    remaining (consume n (fill s).2) = (remaining s).drop n

namespace ByteReader

variable {σ : Type} (reader : ByteReader σ) {line before after : List UInt8} {s : σ}

def skip (n : Nat) (s : σ) : σ := reader.consume n (reader.fill s).2

theorem remaining_skip {n : Nat} (hn : n ≤ (reader.fill s).1.length) :
    reader.remaining (reader.skip n s) = (reader.remaining s).drop n := reader.remaining_consume s n hn

theorem append_remaining_skip (s : σ) :
    (reader.fill s).1 ++ reader.remaining (reader.skip (reader.fill s).1.length s) = reader.remaining s := by
  obtain ⟨rest, hrest⟩ := reader.fill_prefix s
  rw [reader.remaining_skip le_rfl, ← hrest, List.drop_left]

/-- Behind a line that ends in the buffer stands what is behind its end. -/
theorem remaining_skip_line (hsplit : splitChunk? (reader.fill s).1 = some (before, after)) :
    ∃ byte, isLineEnd byte = true ∧
      reader.remaining s = before ++ byte :: reader.remaining (reader.skip (before.length + 1) s) := by
  obtain ⟨-, byte, hbyte, hfill⟩ := splitChunk?_eq_some hsplit
  obtain ⟨rest, hrest⟩ := reader.fill_prefix s
  refine ⟨byte, hbyte, ?_⟩
  rw [reader.remaining_skip (by simp [hfill]), ← hrest, hfill]
  simp

def readLine (line : List UInt8) (s : σ) : Option (List UInt8) × σ :=
  if _hnil : (reader.fill s).1 = [] then (if line = [] then none else some line, (reader.fill s).2)
  else
    match _hsplit : splitChunk? (reader.fill s).1 with
    | some (before, _) =>
      if line ++ before = [] then readLine [] (reader.skip (before.length + 1) s)
      else (some (line ++ before), reader.skip (before.length + 1) s)
    | none => readLine (line ++ (reader.fill s).1) (reader.skip (reader.fill s).1.length s)
termination_by (reader.remaining s).length
decreasing_by
  · obtain ⟨byte, -, hremaining⟩ := reader.remaining_skip_line ‹_›
    have hlength := congrArg List.length hremaining
    rw [List.length_append, List.length_cons] at hlength
    omega
  · have hlength := congrArg List.length (reader.append_remaining_skip s)
    have hpos := List.length_pos_iff.2 ‹(reader.fill s).1 ≠ []›
    rw [List.length_append] at hlength
    omega

theorem runs_of_splitChunk? (hline : ∀ byte ∈ line, isLineEnd byte = false)
    (hsplit : splitChunk? (reader.fill s).1 = some (before, after)) :
    runs (line ++ reader.remaining s) = (if line ++ before = [] then [] else [line ++ before]) ++
      runs (reader.remaining (reader.skip (before.length + 1) s)) := by
  obtain ⟨byte, hbyte, hremaining⟩ := reader.remaining_skip_line hsplit
  have hfront : ∀ byte ∈ line ++ before, isLineEnd byte = false :=
    List.forall_mem_append.2 ⟨hline, (splitChunk?_eq_some hsplit).1⟩
  rw [hremaining, ← List.append_assoc, runs_append_cons _ hbyte, runs_eq_of_forall hfront]

/-- One call gives the first of the runs that are still to come, and leaves the others. -/
theorem readLine_eq (hline : ∀ byte ∈ line, isLineEnd byte = false) :
    (reader.readLine line s).1 = (runs (line ++ reader.remaining s)).head? ∧
      runs (reader.remaining (reader.readLine line s).2) = (runs (line ++ reader.remaining s)).tail := by
  fun_induction readLine with
  | case1 line s hnil =>
    rw [reader.remaining_eq_nil s hnil, List.append_nil, reader.remaining_fill, reader.remaining_eq_nil s hnil,
      runs_eq_of_forall hline]
    by_cases hempty : line = []
    · simp [hempty, runs]
    · simp [hempty, runs]
  | case2 line s _ before after hsplit hempty ih =>
    rw [reader.runs_of_splitChunk? hline hsplit, if_pos hempty]
    exact ih (by simp)
  | case3 line s _ before after hsplit hempty =>
    rw [reader.runs_of_splitChunk? hline hsplit, if_neg hempty]
    exact ⟨rfl, rfl⟩
  | case4 line s _ hsplit ih =>
    rw [← reader.append_remaining_skip s, ← List.append_assoc]
    exact ih (List.forall_mem_append.2 ⟨hline, splitChunk?_eq_none hsplit⟩)

theorem runs_of_none (h : (reader.readLine [] s).1 = none) : runs (reader.remaining s) = [] := by
  have hhead := (reader.readLine_eq (s := s) (List.forall_mem_nil _)).1
  rwa [h, List.nil_append, eq_comm, List.head?_eq_none_iff] at hhead

theorem runs_of_some (h : (reader.readLine [] s).1 = some line) :
    runs (reader.remaining s) = line :: runs (reader.remaining (reader.readLine [] s).2) := by
  obtain ⟨hhead, htail⟩ := reader.readLine_eq (s := s) (List.forall_mem_nil _)
  rw [h, List.nil_append, eq_comm] at hhead
  rw [htail, List.nil_append]
  exact List.eq_cons_of_mem_head? hhead

def next (s : σ) : Option String × σ :=
  let (line, s) := reader.readLine [] s
  (line.map fun line => String.ofList (Text.Utf8.lossy line), s)

def behind (n : Nat) (s : σ) : σ := (fun s => (reader.next s).2)^[n] s

theorem runs_behind (n : Nat) (s : σ) :
    runs (reader.remaining (reader.behind n s)) = (runs (reader.remaining s)).drop n := by
  induction n with
  | zero => rfl
  | succ n ih =>
    have hstep : reader.behind (n + 1) s = (reader.readLine [] (reader.behind n s)).2 :=
      Function.iterate_succ_apply' ..
    rw [hstep, (reader.readLine_eq (by simp)).2, List.nil_append, ih, List.tail_drop]

end ByteReader

section Chunks

variable {chunk : List UInt8} {chunks : Chunks}

def settled (chunks : Chunks) : Chunks := chunks.dropWhile (· = [])

theorem flatten_settled (chunks : Chunks) : (settled chunks).flatten = chunks.flatten := by
  induction chunks with
  | nil => rfl
  | cons chunk chunks ih =>
    by_cases hchunk : chunk = []
    · simpa [settled, hchunk] using ih
    · simp [settled, hchunk]

private theorem settled_eq_nil (h : (settled chunks).headD [] = []) : settled chunks = [] := by
  by_contra hne
  have hhead := List.head_dropWhile_not (p := fun chunk => decide (chunk = [])) (l := chunks) hne
  rw [List.headD_eq_head?_getD, List.head?_eq_some_head hne] at h
  simp [settled] at h hhead
  exact hhead h

/-- The buffer is what is left of the first chunk. -/
def chunkReader : ByteReader Chunks where
  remaining := List.flatten
  fill := fun chunks => ((settled chunks).headD [], settled chunks)
  consume := fun n chunks => chunks.modifyHead (List.drop n)
  fill_prefix := by
    intro chunks
    rw [← flatten_settled]
    cases settled chunks with
    | nil => exact List.prefix_rfl
    | cons chunk chunks => exact List.prefix_append chunk chunks.flatten
  remaining_eq_nil := by
    intro chunks hnil
    rw [← flatten_settled, settled_eq_nil hnil]
    rfl
  remaining_fill := flatten_settled
  remaining_consume := by
    intro chunks n hn
    rw [← flatten_settled chunks]
    cases hsettled : settled chunks with
    | nil => simp
    | cons chunk chunks =>
      rw [hsettled] at hn
      exact (List.drop_append_of_le_length hn).symm

theorem fill_chunks (hchunk : chunk ≠ []) (chunks : Chunks) :
    chunkReader.fill (chunk :: chunks) = (chunk, chunk :: chunks) := by
  simp [chunkReader, settled, hchunk]

theorem readLine_nil_cons (line : List UInt8) (chunks : Chunks) :
    chunkReader.readLine line ([] :: chunks) = chunkReader.readLine line chunks := by
  rw [ByteReader.readLine, ByteReader.readLine.eq_def chunkReader line chunks]
  rfl

private theorem skip_chunks (hchunk : chunk ≠ []) (n : Nat) (chunks : Chunks) :
    chunkReader.skip n (chunk :: chunks) = chunk.drop n :: chunks := by
  rw [ByteReader.skip, fill_chunks hchunk]
  rfl

private theorem readLine_nil (line : List UInt8) :
    chunkReader.readLine line [] = (if line = [] then none else some line, []) := by
  have hnil : (chunkReader.fill []).1 = [] := rfl
  rw [ByteReader.readLine, dif_pos hnil]
  rfl

/-- A chunk either holds the end of the line or is all read. -/
theorem readLine_cons (line chunk : List UInt8) (chunks : Chunks) :
    chunkReader.readLine line (chunk :: chunks) = match splitChunk? chunk with
      | some (before, after) =>
        if line ++ before = [] then chunkReader.readLine [] (after :: chunks)
        else (some (line ++ before), after :: chunks)
      | none => chunkReader.readLine (line ++ chunk) chunks := by
  by_cases hchunk : chunk = []
  · subst hchunk
    rw [show splitChunk? [] = none from rfl, List.append_nil]
    exact readLine_nil_cons line chunks
  · have hfill : (chunkReader.fill (chunk :: chunks)).1 = chunk := by rw [fill_chunks hchunk]
    rw [ByteReader.readLine, dif_neg (by rwa [hfill])]
    simp only [skip_chunks hchunk]
    split
    next before after hsplit =>
      rw [hfill] at hsplit
      obtain ⟨-, byte, -, heq⟩ := splitChunk?_eq_some hsplit
      have hafter : chunk.drop (before.length + 1) = after := by simp [heq]
      simp only [hsplit, hafter]
    next hsplit =>
      rw [hfill] at hsplit
      simp only [hsplit, hfill, List.drop_length]
      exact readLine_nil_cons (line ++ chunk) chunks

theorem nextLine?_eq (line : List UInt8) (chunks : Chunks) :
    nextLine? line chunks = (chunkReader.readLine line chunks).1.map fun next =>
      (next, (chunkReader.readLine line chunks).2) := by
  fun_induction nextLine? line chunks with
  | case1 => rw [readLine_nil]; rfl
  | case2 line hne => rw [readLine_nil, if_neg hne]; rfl
  | case3 line chunk chunks hsplit ih =>
    rw [readLine_cons, hsplit]
    exact ih
  | case4 line chunk chunks before after hsplit hempty ih =>
    rw [readLine_cons, hsplit]
    simpa only [if_pos hempty] using ih
  | case5 line chunk chunks before after hsplit hempty =>
    rw [readLine_cons, hsplit]
    simp only [if_neg hempty, Option.map_some]

private theorem lines_eq (chunks : Chunks) :
    lines chunks = (runs chunks.flatten).map fun line => String.ofList (Text.Utf8.lossy line) := by
  fun_induction lines chunks with
  | case1 chunks hnone =>
    rw [nextLine?_eq, Option.map_eq_none_iff] at hnone
    have hruns : runs chunks.flatten = [] := chunkReader.runs_of_none hnone
    rw [hruns]
    rfl
  | case2 chunks line rest hsome ih =>
    rw [nextLine?_eq, Option.map_eq_some_iff] at hsome
    obtain ⟨next, hnext, heq⟩ := hsome
    obtain ⟨rfl, rfl⟩ := Prod.mk.inj heq
    have hruns : runs chunks.flatten = _ := chunkReader.runs_of_some hnext
    rw [ih, hruns]
    rfl

/-- A character may begin in one chunk and end in the next. -/
example : lines [[13, 0xC3], [0xA9, 13], [10], [97]] = ["é", "a"] := by
  have hruns : runs (List.flatten [[13, 0xC3], [0xA9, 13], [10], [97]]) = [[0xC3, 0xA9], [97]] := by decide
  rw [lines_eq, hruns]
  simp [Text.Utf8.lossy, Text.Utf8.front, Text.Utf8.follow]

end Chunks

/-- However the bytes come into the buffer, each call gives the next run of bytes between line ends as text, and none
once there are no more; and these are the lines of an invocation. -/
theorem lines_ignore_buffering :
    (∀ (σ : Type) (reader : ByteReader σ) (s : σ) (n : Nat), (reader.next (reader.behind n s)).1 =
      (runs (reader.remaining s))[n]?.map fun line => String.ofList (Text.Utf8.lossy line)) ∧
    (∀ chunks, lines chunks = (runs chunks.flatten).map fun line => String.ofList (Text.Utf8.lossy line)) ∧
    ∀ line chunks, nextLine? line chunks = (chunkReader.readLine line chunks).1.map fun next =>
      (next, (chunkReader.readLine line chunks).2) := by
  refine ⟨fun σ reader s n => ?_, lines_eq, nextLine?_eq⟩
  have hread : (reader.readLine [] (reader.behind n s)).1 = (runs (reader.remaining s))[n]? := by
    rw [(reader.readLine_eq (by simp)).1, List.nil_append, reader.runs_behind, List.head?_drop]
  rw [← hread]
  rfl

end OpenCaptions.Engine
