import OpenCaptions.Engine.Failure
import OpenCaptions.Proofs.Text.Lines

/-!
The filter that the engine's diagnostics blame: its number stands in the last line whose first mention of a filter is
well formed.
-/
namespace OpenCaptions.Diagnosis

def mention : List Char := "[Parsed_".toList

/-- The first mention in a line goes on with a name, an underscore and a number, up to a space or a bracket. -/
def Blames (line : List Char) (n : Nat) : Prop :=
  ∃ before name number mark after,
    line = before ++ (mention ++ (name ++ '_' :: number ++ mark :: after)) ∧
      (∀ i < before.length, ¬ mention <+: line.drop i) ∧
      (∀ c ∈ name ++ '_' :: number, c ≠ ' ' ∧ c ≠ ']') ∧ (mark = ' ' ∨ mark = ']') ∧
      '_' ∉ number ∧ Number.readNat word64 number = .ok n

private theorem takeWhile_cut_iff {p : Char → Bool} {s run : List Char} :
    s.takeWhile p = run ∧ run.length ≠ s.length ↔
      ∃ mark after, s = run ++ mark :: after ∧ (∀ c ∈ run, p c = true) ∧ p mark = false := by
  constructor
  · rintro ⟨rfl, hlen⟩
    have hs := List.takeWhile_append_dropWhile (p := p) (l := s)
    have hmark := List.head?_dropWhile_not p s
    cases hd : s.dropWhile p with
    | nil =>
      rw [hd, List.append_nil] at hs
      rw [hs] at hlen
      exact absurd rfl hlen
    | cons mark after =>
      rw [hd] at hs hmark
      exact ⟨mark, after, hs.symm, fun c hc => List.mem_takeWhile_imp hc, hmark⟩
  · rintro ⟨mark, after, rfl, hrun, hmark⟩
    rw [List.takeWhile_append_of_pos hrun, List.takeWhile_cons_of_neg (by simp [hmark])]
    simp

theorem blamedIn?_eq_some_iff {line : List Char} {n : Nat} : blamedIn? line = some n ↔ Blames line n := by
  have hne : "[Parsed_".toList ≠ [] := by decide
  obtain ⟨p, hp⟩ : ∃ p : Char → Bool, p = fun c => !(c == ' ' || c == ']') := ⟨_, rfl⟩
  have hcut : blamedIn? line = some n ↔ ∃ before rest run front number,
      Text.splitAtText? "[Parsed_".toList line = some (before, rest) ∧
        (rest.takeWhile p = run ∧ run.length ≠ rest.length) ∧
        Text.splitLast? (· == '_') run = some (front, number) ∧ Number.readNat word64 number = .ok n := by
    have hread (number : List Char) : (Number.readNat word64 number).toOption = some n ↔
        Number.readNat word64 number = .ok n := by
      cases Number.readNat word64 number <;> simp [Except.toOption]
    simp only [blamedIn?, Option.bind_eq_bind, Option.bind_eq_some_iff, ← hp, Option.bind_none,
      Option.ite_none_left_eq_some, hread]
    constructor
    · rintro ⟨⟨before, rest⟩, hsplit, hlen, ⟨front, number⟩, hlast, hn⟩
      exact ⟨before, rest, _, front, number, hsplit, ⟨rfl, hlen⟩, hlast, hn⟩
    · rintro ⟨before, rest, run, front, number, hsplit, ⟨rfl, hlen⟩, hlast, hn⟩
      exact ⟨(before, rest), hsplit, hlen, (front, number), hlast, hn⟩
  rw [hcut]
  simp only [Text.splitAtText?_eq_some_iff hne, takeWhile_cut_iff, Text.splitLast?_eq_some_iff]
  constructor
  · rintro ⟨before, rest, run, front, number, ⟨hline, hfirst⟩, ⟨mark, after, rfl, hrun, hmark⟩,
      ⟨c, hc, rfl, hnumber⟩, hread⟩
    obtain rfl : c = '_' := by simpa using hc
    refine ⟨before, front, number, mark, after, hline, hfirst, ?_, ?_, ?_, hread⟩
    · intro d hd
      simpa [hp] using hrun d hd
    · simpa [hp, or_iff_not_imp_left] using hmark
    · intro hm
      simpa using hnumber _ hm
  · rintro ⟨before, name, number, mark, after, hline, hfirst, hword, hmark, hnumber, hread⟩
    refine ⟨before, _, _, name, number, ⟨hline, hfirst⟩, ⟨mark, after, rfl, ?_, ?_⟩, ⟨'_', rfl, rfl, ?_⟩, hread⟩
    · intro c hc
      simpa [hp] using hword c hc
    · rcases hmark with rfl | rfl <;> simp [hp]
    · intro c hc
      have hne : c ≠ '_' := fun h => hnumber (h ▸ hc)
      simpa using hne

theorem blamedIn?_eq_none_iff {line : List Char} : blamedIn? line = none ↔ ∀ n, ¬ Blames line n := by
  rw [Option.eq_none_iff_forall_ne_some]
  simp only [ne_eq, blamedIn?_eq_some_iff]

/-- The last of the lines that blame a filter blames the one with a number. -/
def BlamesLast (lines : List (List Char)) (n : Nat) : Prop :=
  ∃ before line after, lines = before ++ line :: after ∧ Blames line n ∧ ∀ later ∈ after, ∀ m, ¬ Blames later m

section Lines

variable {lines : List (List Char)} (h : ∀ line ∈ lines, Text.IsLine line) (hlast : lines.getLast? ≠ some [])

include h hlast

theorem blamedFilter?_join_eq_some_iff {n : Nat} :
    blamedFilter? (Text.join ['\n'] lines) = some n ↔ BlamesLast lines n := by
  rw [blamedFilter?, Text.lines_join h hlast, List.findSome?_eq_some_iff]
  simp only [blamedIn?_eq_some_iff, blamedIn?_eq_none_iff]
  constructor
  · rintro ⟨after, line, before, hlines, hline, hafter⟩
    refine ⟨before.reverse, line, after.reverse, ?_, hline, fun later hm => hafter later (List.mem_reverse.1 hm)⟩
    rw [List.reverse_eq_iff] at hlines
    simpa using hlines
  · rintro ⟨before, line, after, hlines, hline, hafter⟩
    refine ⟨after.reverse, line, before.reverse, ?_, hline, fun later hm => hafter later (List.mem_reverse.1 hm)⟩
    rw [hlines]
    simp

theorem blamedFilter?_join_eq_none_iff :
    blamedFilter? (Text.join ['\n'] lines) = none ↔ ∀ line ∈ lines, ∀ n, ¬ Blames line n := by
  rw [blamedFilter?, Text.lines_join h hlast, List.findSome?_eq_none_iff]
  simp only [blamedIn?_eq_none_iff, List.mem_reverse]

end Lines

end OpenCaptions.Diagnosis
