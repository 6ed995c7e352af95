import OpenCaptions.Text.Utf8

/-!
Lines of an invocation's output as it arrives in chunks of bytes. A carriage return or a line feed ends a
line, and empty lines are skipped.
-/
namespace OpenCaptions.Engine

def isLineEnd (byte : UInt8) : Bool := byte == 10 || byte == 13

/-- Bytes that are still to come, chunk by chunk. -/
abbrev Chunks := List (List UInt8)

/-- The bytes of a chunk before its first line end and behind it, if it has one. -/
def splitChunk? (chunk : List UInt8) : Option (List UInt8 × List UInt8) :=
  match chunk.dropWhile (!isLineEnd ·) with
  | [] => none
  | _ :: after => some (chunk.takeWhile (!isLineEnd ·), after)

-- The zero of a sum is that of the core library, whatever else is imported.
attribute [local instance (high)] Zero.ofOfNat0

def amount (chunks : Chunks) : Nat := (chunks.map fun chunk => chunk.length + 1).sum

theorem length_of_splitChunk? {chunk before after : List UInt8}
    (h : splitChunk? chunk = some (before, after)) : after.length < chunk.length := by
  unfold splitChunk? at h
  split at h
  · simp at h
  · rename_i hd
    simp only [Option.some.injEq, Prod.mk.injEq] at h
    have := (List.dropWhile_sublist (fun b => !isLineEnd b) (l := chunk)).length_le
    rw [hd, List.length_cons, h.2] at this
    omega

/-- The next line, where `line` has already been read of it, and the chunks behind it. -/
def nextLine? (line : List UInt8) (chunks : Chunks) : Option (List UInt8 × Chunks) :=
  match chunks with
  | [] => if line = [] then none else some (line, [])
  | chunk :: chunks =>
    match _h : splitChunk? chunk with
    | none => nextLine? (line ++ chunk) chunks
    | some (before, after) =>
      if line ++ before = [] then nextLine? [] (after :: chunks)
      else some (line ++ before, after :: chunks)
termination_by amount chunks
decreasing_by
  · simp only [amount, List.map_cons, List.sum_cons]; omega
  · have := length_of_splitChunk? ‹_›
    simp only [amount, List.map_cons, List.sum_cons]; omega

theorem amount_of_nextLine? {line next : List UInt8} {chunks rest : Chunks}
    (h : nextLine? line chunks = some (next, rest)) : amount rest < amount chunks ∨ chunks = [] := by
  fun_induction nextLine? line chunks with
  | case1 => simp at h
  | case2 => exact .inr rfl
  | case3 line chunk chunks _ ih =>
    left
    rcases ih h with h' | rfl
    · simp only [amount, List.map_cons, List.sum_cons] at *; omega
    · unfold nextLine? at h
      split at h
      · simp at h
      · simp only [Option.some.injEq, Prod.mk.injEq] at h
        simp [amount, ← h.2]
  | case4 line chunk chunks before after hs _ ih =>
    left
    have hl := length_of_splitChunk? hs
    rcases ih h with h' | h'
    · simp only [amount, List.map_cons, List.sum_cons] at *; omega
    · simp at h'
  | case5 line chunk chunks before after hs _ =>
    left
    have hl := length_of_splitChunk? hs
    simp only [Option.some.injEq, Prod.mk.injEq] at h
    simp only [← h.2, amount, List.map_cons, List.sum_cons]; omega

def lines (chunks : Chunks) : List String :=
  match _h : nextLine? [] chunks with
  | none => []
  | some (line, rest) => String.ofList (Text.Utf8.lossy line) :: lines rest
termination_by amount chunks
decreasing_by
  rcases amount_of_nextLine? ‹_› with h | rfl
  · exact h
  · simp [nextLine?] at *

end OpenCaptions.Engine
