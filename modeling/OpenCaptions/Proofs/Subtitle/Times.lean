import OpenCaptions.Proofs.Number.Reading
import OpenCaptions.Proofs.Steps
import OpenCaptions.Proofs.Text.Lines
import OpenCaptions.Subtitle

/-!
Times of subtitles. A time is read as milliseconds below the limit, and every such number is read back from its text.
-/
namespace OpenCaptions.Subtitle

open Failure

section Padded

variable {width limit n : Nat} {c : Char}

theorem isDigit_of_mem_padded (h : c ∈ padded width n) : c.isDigit = true := by
  rw [padded, List.mem_append] at h
  rcases h with h | h
  · exact Number.isDigit_of_mem_replicate h
  · exact Number.isDigit_of_mem_toDigits h

theorem ne_of_mem_padded {d : Char} (hd : d.isDigit = false) (h : c ∈ padded width n) : c ≠ d := by
  rintro rfl
  rw [isDigit_of_mem_padded h] at hd
  cases hd

theorem padded_ne_nil (width n : Nat) : padded width n ≠ [] := by
  simp [padded, Nat.toDigits_ne_nil]

theorem ofDigitChars_padded (width n : Nat) : Nat.ofDigitChars 10 (padded width n) 0 = n := by
  simp [padded, Nat.ofDigitChars_append, Nat.ofDigitChars_replicate_zero]

theorem readNat_padded (h : n < limit) : Number.readNat limit (padded width n) = .ok n := by
  rw [Number.readNat_digits (padded_ne_nil width n) (fun c => isDigit_of_mem_padded)
    (by rwa [ofDigitChars_padded]), ofDigitChars_padded]

theorem length_padded (hwidth : 0 < width) (h : n < 10 ^ width) : (padded width n).length = width := by
  have hlen : (Nat.toDigits 10 n).length ≤ width := (Nat.length_toDigits_le_iff (by omega) hwidth).2 h
  rw [padded, List.length_append, List.length_replicate]
  omega

theorem readFraction?_padded (h : n < 1000) : readFraction? (padded 3 n) = some n := by
  have hlen : (padded 3 n).length = 3 := length_padded (by omega) h
  have hall : (padded 3 n).all Char.isDigit = true :=
    List.all_eq_true.2 fun c => isDigit_of_mem_padded
  simp [readFraction?, padded_ne_nil, hlen, hall, ofDigitChars_padded]

end Padded

/-- What a time is cut into, and what its parts amount to. -/
theorem readTime_eq_ok_iff {time : List Char} {v : Nat} :
    readTime time = .ok v ↔ ∃ clock fraction h m s ms,
      Text.splitLast? (fun c => c == ',' || c == '.') time = some (clock, fraction) ∧
        List.Forall₂ (fun field n => Number.readNat word64 field = .ok n) (clock.splitOn ':') [h, m, s] ∧
        m < 60 ∧ s < 60 ∧ readFraction? fraction = some ms ∧
        ((h * 60 + m) * 60 + s) * 1000 + ms = v ∧ v < word64 := by
  rw [readTime]
  cases hsplit : Text.splitLast? (fun c => c == ',' || c == '.') time with
  | none => simp [throw_ne_ok]
  | some parts =>
    obtain ⟨clock, fraction⟩ := parts
    simp only [bind_eq_ok, mapM_eq_ok, mapError_eq_ok]
    constructor
    · rintro ⟨fields, hfields, h⟩
      split at h
      · rename_i hours minutes seconds
        rw [guard_eq_ok, not_or, Nat.not_le, Nat.not_le] at h
        obtain ⟨⟨hminutes, hseconds⟩, h⟩ := h
        cases hms : readFraction? fraction with
        | none =>
          rw [hms] at h
          exact absurd h throw_ne_ok
        | some ms =>
          rw [hms] at h
          dsimp only at h
          split at h
          · rename_i hlt
            obtain rfl := pure_eq_ok.1 h
            exact ⟨clock, fraction, hours, minutes, seconds, ms, rfl, hfields, hminutes, hseconds, hms, rfl, hlt⟩
          · exact absurd h throw_ne_ok
      · exact absurd h throw_ne_ok
    · rintro ⟨clock', fraction', hours, minutes, seconds, ms, heq, hfields, hminutes, hseconds, hms, rfl, hlt⟩
      cases heq
      refine ⟨_, hfields, ?_⟩
      dsimp only
      rw [guard_eq_ok, not_or, Nat.not_le, Nat.not_le, hms]
      refine ⟨⟨hminutes, hseconds⟩, ?_⟩
      dsimp only
      rw [if_pos hlt]
      rfl

theorem readTime_lt {time : List Char} {v : Nat} (h : readTime time = .ok v) : v < word64 := by
  obtain ⟨_, _, _, _, _, _, -, -, -, -, -, -, hlt⟩ := readTime_eq_ok_iff.1 h
  exact hlt

section TimeText

variable {ms : Nat} {c : Char}

theorem timeText_eq (ms : Nat) :
    timeText ms = Text.join [':'] [padded 2 (ms / 1000 / 3600), padded 2 (ms / 1000 / 60 % 60),
      padded 2 (ms / 1000 % 60)] ++ ',' :: padded 3 (ms % 1000) := by
  simp [timeText, Text.join]

theorem splitOn_fields {hours minutes seconds : List Char} (hh : ':' ∉ hours) (hm : ':' ∉ minutes)
    (hs : ':' ∉ seconds) :
    (Text.join [':'] [hours, minutes, seconds]).splitOn ':' = [hours, minutes, seconds] := by
  rw [Text.join_eq_intercalate, List.splitOn_intercalate]
  · simp [hh, hm, hs]
  · simp

private theorem splitOn_clock (h m s : Nat) :
    (Text.join [':'] [padded 2 h, padded 2 m, padded 2 s]).splitOn ':' = [padded 2 h, padded 2 m, padded 2 s] := by
  have hcolon (n : Nat) : ':' ∉ padded 2 n := fun hc => ne_of_mem_padded rfl hc rfl
  exact splitOn_fields (hcolon h) (hcolon m) (hcolon s)

theorem readTime_timeText (h : ms < word64) : readTime (timeText ms) = .ok ms := by
  have hcut : Text.splitLast? (fun c => c == ',' || c == '.') (timeText ms) =
      some (Text.join [':'] [padded 2 (ms / 1000 / 3600), padded 2 (ms / 1000 / 60 % 60), padded 2 (ms / 1000 % 60)],
        padded 3 (ms % 1000)) := by
    rw [timeText_eq]
    refine Text.splitLast?_append rfl _ fun c hc => ?_
    simpa using ⟨ne_of_mem_padded rfl hc, ne_of_mem_padded rfl hc⟩
  -- The fields are below the limit, as the whole time is.
  have hfield {n : Nat} (hn : n ≤ ms) : Number.readNat word64 (padded 2 n) = .ok n :=
    readNat_padded (Nat.lt_of_le_of_lt hn h)
  have hfields := splitOn_clock (ms / 1000 / 3600) (ms / 1000 / 60 % 60) (ms / 1000 % 60)
  refine readTime_eq_ok_iff.2 ⟨_, _, ms / 1000 / 3600, ms / 1000 / 60 % 60, ms / 1000 % 60, ms % 1000, hcut, ?_,
    by omega, by omega, readFraction?_padded (by omega), by omega, h⟩
  rw [hfields]
  exact .cons (hfield (by omega)) (.cons (hfield (by omega)) (.cons (hfield (by omega)) .nil))

theorem mem_timeText (h : c ∈ timeText ms) : c.isDigit = true ∨ c = ':' ∨ c = ',' := by
  simp only [timeText, List.append_assoc, List.cons_append, List.mem_append, List.mem_cons] at h
  rcases h with h | h | h | h | h | h | h
  · exact .inl (isDigit_of_mem_padded h)
  · exact .inr (.inl h)
  · exact .inl (isDigit_of_mem_padded h)
  · exact .inr (.inl h)
  · exact .inl (isDigit_of_mem_padded h)
  · exact .inr (.inr h)
  · exact .inl (isDigit_of_mem_padded h)

theorem isBlank_of_mem_timeText (h : c ∈ timeText ms) : Text.isBlank c = false := by
  rcases mem_timeText h with h | rfl | rfl
  · exact Text.isBlank_of_isDigit h
  · rfl
  · rfl

end TimeText

theorem readTimes_eq_ok_iff {line : List Char} {start finish : Nat} :
    readTimes line = .ok (start, finish) ↔ ∃ front back,
      Text.splitAtText? "-->".toList line = some (front, back) ∧ readTime (Text.trim front) = .ok start ∧
        readTime (Text.trim back) = .ok finish := by
  rw [readTimes]
  cases hsplit : Text.splitAtText? "-->".toList line with
  | none => simp
  | some parts =>
    obtain ⟨front, back⟩ := parts
    simp only [bind_eq_ok, mapError_eq_ok, pure_eq_ok, Prod.mk.injEq, Option.some.injEq]
    constructor
    · rintro ⟨a, ha, b, hb, rfl, rfl⟩
      exact ⟨front, back, ⟨rfl, rfl⟩, ha, hb⟩
    · rintro ⟨_, _, ⟨rfl, rfl⟩, ha, hb⟩
      exact ⟨start, ha, finish, hb, rfl, rfl⟩

def timesText (start finish : Nat) : List Char := timeText start ++ " --> ".toList ++ timeText finish

theorem readTimes_timesText {start finish : Nat} (hs : start < word64) (hf : finish < word64) :
    readTimes (timesText start finish) = .ok (start, finish) := by
  have hdash : '-' ∉ timeText start ++ [' '] := by
    rw [List.mem_append, not_or]
    refine ⟨fun hm => ?_, by decide⟩
    have hnot : ¬ ('-'.isDigit = true ∨ '-' = ':' ∨ '-' = ',') := by decide
    exact hnot (mem_timeText hm)
  have hsplit : Text.splitAtText? "-->".toList (timesText start finish) =
      some (timeText start ++ [' '], ' ' :: timeText finish) := by
    have hline : timesText start finish = timeText start ++ [' '] ++ (['-', '-', '>'] ++ ' ' :: timeText finish) := by
      simp [timesText]
    rw [hline]
    exact Text.splitAtText?_append hdash ['-', '>'] (' ' :: timeText finish)
  have hvisible (ms : Nat) : ∀ c ∈ timeText ms, Text.isBlank c = false := fun c => isBlank_of_mem_timeText
  have hblank : ∀ c ∈ [' '], Text.isBlank c = true := by simp [Text.isBlank]
  refine readTimes_eq_ok_iff.2 ⟨_, _, hsplit, ?_, ?_⟩
  · have htrim := Text.trim_around [] [' '] (by simp) (hvisible start) hblank
    rw [List.nil_append] at htrim
    rw [htrim, readTime_timeText hs]
  · have htrim := Text.trim_around [' '] [] hblank (hvisible finish) (by simp)
    rw [List.append_nil] at htrim
    rw [← List.singleton_append, htrim, readTime_timeText hf]

end OpenCaptions.Subtitle
