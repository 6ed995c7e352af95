import OpenCaptions.Proofs.Subtitle.Blocks

/-!
Locality of subtitles. The reader goes through the lines once and keeps the lines of the block that it has begun. A blank
line leaves nothing begun, so what is read behind it does not depend on what stands before it; nor do the blocks depend
on how the lines end.
-/
namespace OpenCaptions.Subtitle

open Failure

section Groups

variable {lines begun : List (List Char)} {line blank : List Char}

private theorem groups_cons_ne_nil (h : Text.isBlankText line = false) (lines : List (List Char)) :
    groups (line :: lines) ≠ [] := by
  intro hnil
  have hflat := flatten_groups (line :: lines)
  rw [hnil, List.filter_cons_of_pos (by simp [h])] at hflat
  cases hflat

/-- No group goes across a blank line. -/
theorem groups_append_blank_line (hb : Text.isBlankText blank = true) (front back : List (List Char)) :
    groups (front ++ blank :: back) = groups front ++ groups back := by
  induction front with
  | nil => simp [groups, hb]
  | cons line front ih =>
    cases hline : Text.isBlankText line with
    | true => simpa [groups, hline] using ih
    | false =>
      cases front with
      | nil => simp [groups, hline, hb]
      | cons next front =>
        rw [List.cons_append] at ih
        cases hnext : Text.isBlankText next with
        | true => simp [groups.eq_def (line :: _), hline, hnext, ih]
        | false =>
          obtain ⟨group, rest, hgroups⟩ := List.exists_cons_of_ne_nil (groups_cons_ne_nil hnext front)
          simp [groups.eq_def (line :: _), hline, hnext, ih, hgroups]

/-- The blocks that have been read, and the lines of the block that has been begun. -/
structure Reading where
  blocks : List SubtitleBlock
  begun : List (List Char)

def Reading.step (reading : Reading) (line : List Char) : Except Error Reading :=
  if Text.isBlankText line then
    if reading.begun = [] then .ok reading
    else do
      let block ← readBlock reading.begun
      return ⟨reading.blocks ++ [block], []⟩
  else .ok { reading with begun := reading.begun ++ [line] }

def readLines (lines : List (List Char)) : Except Error (List SubtitleBlock) := do
  let reading ← (lines ++ [[]]).foldlM Reading.step ⟨[], []⟩
  return reading.blocks

private theorem groups_eq_singleton (hne : begun ≠ []) (h : ∀ line ∈ begun, Text.isBlankText line = false) :
    groups begun = [begun] := by
  have hblank : Text.isBlankText [] = true := rfl
  have hend := groups_append_blank hne h hblank []
  rwa [groups_append_blank_line hblank, groups, List.append_nil] at hend

/-- A blank line ends the block that has been begun, if one has. -/
theorem step_blank (hbegun : ∀ line ∈ begun, Text.isBlankText line = false) (blocks : List SubtitleBlock)
    (hb : Text.isBlankText blank = true) :
    Reading.step ⟨blocks, begun⟩ blank = (do
      let read ← (groups begun).mapM readBlock
      return ⟨blocks ++ read, []⟩) := by
  rw [Reading.step, if_pos hb]
  by_cases hnil : begun = []
  · subst hnil
    rw [if_pos rfl, groups, List.mapM_nil, pure_bind, List.append_nil]
    rfl
  · rw [if_neg hnil, groups_eq_singleton hnil hbegun]
    simp

private theorem step_text (hline : Text.isBlankText line = false) (reading : Reading) :
    reading.step line = .ok { reading with begun := reading.begun ++ [line] } := by
  rw [Reading.step, if_neg (by simp [hline])]

/-- What has been begun is the front of the groups that are still to come. -/
theorem foldlM_step (hbegun : ∀ line ∈ begun, Text.isBlankText line = false) (blocks : List SubtitleBlock)
    (lines : List (List Char)) :
    (lines ++ [[]]).foldlM Reading.step ⟨blocks, begun⟩ = (do
      let read ← (groups (begun ++ lines)).mapM readBlock
      return ⟨blocks ++ read, []⟩) := by
  induction lines generalizing blocks begun with
  | nil =>
    rw [List.nil_append, List.foldlM_cons, step_blank hbegun blocks rfl, List.append_nil]
    simp
  | cons line lines ih =>
    rw [List.cons_append, List.foldlM_cons]
    cases hline : Text.isBlankText line with
    | true =>
      -- The blocks behind a blank line are read as if nothing had been begun.
      have hfresh (read : List SubtitleBlock) := @ih [] (by simp) (blocks ++ read)
      rw [step_blank hbegun blocks hline, groups_append_blank_line hline, List.mapM_append]
      simp only [bind_assoc, pure_bind, hfresh, List.nil_append, List.append_assoc]
    | false =>
      have hgrown : ∀ next ∈ begun ++ [line], Text.isBlankText next = false :=
        List.forall_mem_append.2 ⟨hbegun, by simpa using hline⟩
      rw [step_text hline, List.append_cons begun line lines, ← ih hgrown]
      rfl

theorem readLines_eq (lines : List (List Char)) : readLines lines = (groups lines).mapM readBlock := by
  rw [readLines, foldlM_step (by simp)]
  simp

end Groups

section Lines

def bare (line : List Char) : List Char := Text.dropWhileEnd (· == '\r') line

theorem bare_reverse (line : List Char) : bare line.reverse = (line.dropWhile (· == '\r')).reverse := by
  rw [bare, Text.dropWhileEnd, List.reverse_reverse]

private theorem bare_reverse_tail (line : List Char) :
    bare (if line.head? = some '\r' then line.tail else line).reverse = bare line.reverse := by
  rw [bare_reverse, bare_reverse]
  cases line with
  | nil => rfl
  | cons c line =>
    by_cases hc : c = '\r'
    · simp [hc]
    · simp [hc]

theorem map_bare_go_feed (line rest : List Char) :
    (Text.lines.go line ('\n' :: rest)).map bare = bare line.reverse :: bareLines rest := by
  rw [Text.lines_go_feed, List.map_cons, bare_reverse_tail]
  rfl

private theorem exists_map_bare_go (line front rest : List Char) :
    ∃ blanks : List (List Char), (blanks = [] ∨ blanks = [[]]) ∧
      (Text.lines.go line (front ++ '\n' :: rest)).map bare =
        (Text.lines.go line front).map bare ++ (blanks ++ bareLines rest) := by
  induction front generalizing line with
  | nil =>
    rw [List.nil_append, map_bare_go_feed, Text.lines.go]
    by_cases hline : line = []
    · subst hline
      exact ⟨[[]], .inr rfl, rfl⟩
    · refine ⟨[], .inl rfl, ?_⟩
      rw [if_neg hline]
      rfl
  | cons c front ih =>
    by_cases hc : c = '\n'
    · obtain ⟨blanks, hblanks, hgo⟩ := ih []
      refine ⟨blanks, hblanks, ?_⟩
      rw [hc, List.cons_append, map_bare_go_feed, map_bare_go_feed]
      exact congrArg (bare line.reverse :: ·) hgo
    · obtain ⟨blanks, hblanks, hgo⟩ := ih (c :: line)
      refine ⟨blanks, hblanks, ?_⟩
      rw [List.cons_append, Text.lines_go_char hc, Text.lines_go_char hc, hgo]

/-- An empty line between two texts separates their groups. -/
theorem groups_bareLines_append (a b : List Char) :
    groups (bareLines (a ++ '\n' :: '\n' :: b)) = groups (bareLines a) ++ groups (bareLines b) := by
  obtain ⟨blanks, hblanks, hgo⟩ := exists_map_bare_go [] a ('\n' :: b)
  have hlines : bareLines (a ++ '\n' :: '\n' :: b) = bareLines a ++ (blanks ++ bareLines ('\n' :: b)) := hgo
  have hfeed : bareLines ('\n' :: b) = [] :: bareLines b := map_bare_go_feed [] b
  rw [hlines, hfeed]
  rcases hblanks with rfl | rfl
  · exact groups_append_blank_line rfl _ _
  · rw [List.singleton_append, groups_append_blank_line rfl]
    rfl

/-- A text whose line feeds stand behind a carriage return each. -/
def withReturns (s : List Char) : List Char := s.flatMap fun c => if c = '\n' then ['\r', '\n'] else [c]

theorem withReturns_cons (c : Char) (s : List Char) :
    withReturns (c :: s) = (if c = '\n' then ['\r', '\n'] else [c]) ++ withReturns s := List.flatMap_cons

private theorem map_bare_go_withReturns (line s : List Char) :
    (Text.lines.go line (withReturns s)).map bare = (Text.lines.go line s).map bare := by
  induction s generalizing line with
  | nil => rfl
  | cons c s ih =>
    rw [withReturns_cons]
    by_cases hc : c = '\n'
    · rw [if_pos hc, hc, List.cons_append, Text.lines_go_char (by decide), List.singleton_append, map_bare_go_feed,
        map_bare_go_feed, bareLines, bareLines, bare_reverse, bare_reverse]
      exact congrArg₂ List.cons (by simp) (ih [])
    · rw [if_neg hc, List.singleton_append, Text.lines_go_char hc, Text.lines_go_char hc, ih]

/-- How its lines end makes no difference to the bare lines of a text. -/
theorem bareLines_withReturns (s : List Char) : bareLines (withReturns s) = bareLines s := map_bare_go_withReturns [] s

end Lines

section Marks

def unmarked (s : List Char) : List Char := s.dropWhile (· == '\uFEFF')

theorem parse_eq (s : List Char) : parse s = (groups (bareLines (unmarked s))).mapM readBlock := rfl

theorem unmarked_eq_self {s : List Char} (h : s.head? ≠ some '\uFEFF') : unmarked s = s := by
  cases s with
  | nil => rfl
  | cons c s => simpa [unmarked] using h

/-- Of two texts with a line feed between them only the first has marks at the start. -/
theorem unmarked_append_feed (a rest : List Char) : unmarked (a ++ '\n' :: rest) = unmarked a ++ '\n' :: rest := by
  induction a with
  | nil => rfl
  | cons c a ih =>
    by_cases hc : c = '\uFEFF'
    · subst hc
      exact ih
    · rw [unmarked_eq_self (by simpa using hc), unmarked_eq_self (by simpa using hc)]

theorem unmarked_withReturns (s : List Char) : unmarked (withReturns s) = withReturns (unmarked s) := by
  induction s with
  | nil => rfl
  | cons c s ih =>
    by_cases hc : c = '\uFEFF'
    · subst hc
      exact ih
    · rw [unmarked_eq_self (s := c :: s) (by simpa using hc), unmarked_eq_self]
      rw [withReturns_cons]
      split
      · simp
      · simpa using hc

end Marks

/-- Two texts with an empty line between them are read one after the other. -/
theorem parse_append (a : List Char) {b : List Char} (hb : b.head? ≠ some '\uFEFF') :
    parse (a ++ '\n' :: '\n' :: b) = (do
      let front ← parse a
      let back ← parse b
      return front ++ back) := by
  rw [parse_eq, parse_eq, parse_eq, unmarked_append_feed, unmarked_eq_self hb, groups_bareLines_append, List.mapM_append]

theorem parse_withReturns (s : List Char) : parse (withReturns s) = parse s := by
  rw [parse_eq, parse_eq, unmarked_withReturns, bareLines_withReturns]

/-- Subtitles are read in one pass, a text behind an empty line as if it stood alone, and however the lines end. -/
theorem parsing_is_local :
    (∀ a b : List Char, b.head? ≠ some '\uFEFF' → ∀ blocks, parse (a ++ '\n' :: '\n' :: b) = .ok blocks ↔
      ∃ front back, parse a = .ok front ∧ parse b = .ok back ∧ blocks = front ++ back) ∧
    (∀ s, parse (withReturns s) = parse s) ∧ ∀ s, parse s = readLines (bareLines (unmarked s)) := by
  refine ⟨fun a b hb blocks => ?_, parse_withReturns, fun s => (readLines_eq _).symm⟩
  simp only [parse_append a hb, bind_eq_ok, pure_eq_ok]
  constructor
  · rintro ⟨front, hfront, back, hback, rfl⟩
    exact ⟨front, back, hfront, hback, rfl⟩
  · rintro ⟨front, back, hfront, hback, rfl⟩
    exact ⟨front, hfront, back, hback, rfl⟩

/-- A marked text that ends within a block, and one behind it. -/
theorem parsing_is_local_unfinished :
    let a := "\uFEFF1\n0:0:1,0 --> 0:0:2,5\nHi\r".toList
    let b := "2\r\n0:0:3.25 --> 0:0:4,0\r\nyou\n".toList
    b.head? ≠ some '\uFEFF' ∧
      parse (a ++ '\n' :: '\n' :: b) = .ok [⟨1, 1000, 2500, ["Hi".toList]⟩, ⟨2, 3250, 4000, ["you".toList]⟩] ∧
      parse (withReturns a) = .ok [⟨1, 1000, 2500, ["Hi".toList]⟩] := by
  intro a b
  have hb : b.head? ≠ some '\uFEFF' := by decide
  refine ⟨hb, (parsing_is_local.1 a b hb _).2 ⟨_, _, rfl, rfl, rfl⟩, ?_⟩
  rw [parsing_is_local.2.1]
  rfl

/-- Only at the start of a text are marks left out. -/
example : parse "\uFEFF2\n0:0:3,0 --> 0:0:4,0".toList = .ok [⟨2, 3000, 4000, []⟩] ∧
    parse "\n\n\uFEFF2\n0:0:3,0 --> 0:0:4,0".toList = .error (.badIndex "\uFEFF2".toList .badDigit) := ⟨rfl, rfl⟩

end OpenCaptions.Subtitle
