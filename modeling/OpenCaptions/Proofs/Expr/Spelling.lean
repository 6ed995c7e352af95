import OpenCaptions.Proofs.Expr.Scanning
import OpenCaptions.Proofs.Number.Positional

/-!
How tokens are written. A text is scanned as exactly the tokens that it spells, which are cut at marks, at blanks
and where a number or a word cannot go on.
-/
namespace OpenCaptions.Token

variable {α : Type}

/-- The marks of formulas, each a token of its own. -/
def spelledMarks : List (Char × Token α) :=
  [('+', .operator .add), ('-', .operator .sub), ('*', .operator .mul), ('/', .operator .div),
    ('(', .openParen), (')', .closeParen), (',', .comma)]

def IsFigure (c : Char) : Prop := c.isDigit = true ∨ c = '.'

def IsLetter (c : Char) : Prop := c.isAlpha = true ∨ c = '_'

instance : DecidablePred IsFigure := fun _ => inferInstanceAs (Decidable (_ ∨ _))

instance : DecidablePred IsLetter := fun _ => inferInstanceAs (Decidable (_ ∨ _))

/-- Digits, at least one, with a point among them or without, and the number that they denote. -/
inductive Denotes : List Char → Float → Prop
  | whole {digits : List Char} (hne : digits ≠ []) (hd : ∀ c ∈ digits, c.isDigit = true) :
    Denotes digits (Scalar.ofDecimal (Nat.ofDigitChars 10 digits 0) 0)
  | point {digits places : List Char} (hne : digits ++ places ≠ []) (hd : ∀ c ∈ digits, c.isDigit = true)
    (hp : ∀ c ∈ places, c.isDigit = true) :
    Denotes (digits ++ '.' :: places) (Scalar.ofDecimal (Nat.ofDigitChars 10 (digits ++ places) 0) places.length)

/-- Texts that spell tokens. Blanks are skipped, and a number or a word takes every character that it can. -/
inductive Spells : List Char → List (Token Float) → Prop
  | nil : Spells [] []
  | blank {c : Char} {s : List Char} {tokens : List (Token Float)} (hc : c = ' ' ∨ c = '\t') (h : Spells s tokens) :
    Spells (c :: s) tokens
  | mark {c : Char} {token : Token Float} {s : List Char} {tokens : List (Token Float)}
    (hc : (c, token) ∈ spelledMarks) (h : Spells s tokens) : Spells (c :: s) (token :: tokens)
  | number {figures rest : List Char} {value : Float} {tokens : List (Token Float)} (hv : Denotes figures value)
    (hmax : ∀ d ∈ rest.head?, ¬ IsFigure d) (h : Spells rest tokens) :
    Spells (figures ++ rest) (.number value :: tokens)
  | word {c : Char} {letters rest : List Char} {tokens : List (Token Float)} (hc : IsLetter c)
    (hl : ∀ d ∈ letters, IsLetter d ∨ d.isDigit = true) (hmax : ∀ d ∈ rest.head?, ¬ (IsLetter d ∨ d.isDigit = true))
    (h : Spells rest tokens) : Spells (c :: letters ++ rest) (.word (c :: letters) :: tokens)

theorem ofChar?_eq_some_iff {c : Char} {token : Token α} : ofChar? c = some token ↔ (c, token) ∈ spelledMarks := by
  simp only [spelledMarks, List.mem_cons, Prod.mk.injEq, List.not_mem_nil, or_false]
  constructor
  · intro h
    unfold ofChar? at h
    split at h <;> simp_all
  · rintro (⟨rfl, rfl⟩ | ⟨rfl, rfl⟩ | ⟨rfl, rfl⟩ | ⟨rfl, rfl⟩ | ⟨rfl, rfl⟩ | ⟨rfl, rfl⟩ | ⟨rfl, rfl⟩) <;> rfl

theorem isNumberChar_iff {c : Char} : isNumberChar c = true ↔ IsFigure c := by simp [isNumberChar, IsFigure]

theorem isWordStart_iff {c : Char} : isWordStart c = true ↔ IsLetter c := by simp [isWordStart, IsLetter]

theorem isWordChar_iff {c : Char} : isWordChar c = true ↔ IsLetter c ∨ c.isDigit = true := by
  rw [isWordChar, Bool.or_eq_true, isWordStart_iff]

section Numbers

open Number Number.Numeral

variable {figures : List Char} {value : Float}

theorem Denotes.exists_cons (h : Denotes figures value) : ∃ c rest, figures = c :: rest := by
  cases h with
  | whole hne => exact List.exists_cons_of_ne_nil hne
  | point => exact List.exists_cons_of_ne_nil (by simp)

theorem Denotes.isFigure (h : Denotes figures value) : ∀ c ∈ figures, IsFigure c := by
  cases h with
  | whole _ hd => exact fun c hc => .inl (hd c hc)
  | point _ hd hp =>
    intro c hc
    rcases List.mem_append.1 hc with hc | hc
    · exact .inl (hd c hc)
    · exact (List.mem_cons.1 hc).elim .inr fun hc => .inl (hp c hc)

/-- Neither a sign nor a word starts like a number. -/
theorem read?_cons {c : Char} {rest : List Char} (hc : IsFigure c) :
    read? (c :: rest) = (readDecimal? false (c :: rest)).map Decimal.toFloat := by
  rcases hc with hc | rfl
  · exact read?_of_takeSign (takeSign_digit hc rest) hc
  · simp [read?, takeSign, Char.toLower]

theorem Denotes.read? (h : Denotes figures value) : Numeral.read? figures = some value := by
  obtain ⟨c, rest, hfigures⟩ := h.exists_cons
  have hread : Numeral.read? figures = (readDecimal? false figures).map Decimal.toFloat := by
    rw [hfigures]
    exact read?_cons (h.isFigure c (by rw [hfigures]; exact List.mem_cons_self))
  rw [hread]
  cases h with
  | whole hne hd => rw [readDecimal?_digits hne hd]; rfl
  | point hne hd hp => rw [readDecimal?_point hne hd hp]; rfl

private theorem eq_point {c : Char} {s rest : List Char} (hf : ∀ d ∈ s, IsFigure d)
    (h : s.dropWhile Char.isDigit = c :: rest) : c = '.' := by
  have hc : ¬ c.isDigit = true := by
    have := List.head?_dropWhile_not Char.isDigit s
    simpa [h] using this
  have hmem : c ∈ s := (List.dropWhile_sublist _).subset (h ▸ List.mem_cons_self)
  exact (hf c hmem).resolve_left hc

private theorem exists_denotes {d : Decimal} (hf : ∀ c ∈ figures, IsFigure c)
    (h : readDecimal? false figures = some d) :
    ∃ value, Denotes figures value := by
  have hdigits (s : List Char) : ∀ c ∈ s.takeWhile Char.isDigit, c.isDigit = true := fun c hc =>
    List.mem_takeWhile_imp hc
  have hsplit (s : List Char) : s = s.takeWhile Char.isDigit ++ s.dropWhile Char.isDigit :=
    List.takeWhile_append_dropWhile.symm
  have hne {digits : List Char} {n : Nat} (h : natOfDigits? digits = some n) : digits ≠ [] := by
    rintro rfl
    cases h
  unfold readDecimal? at h
  cases hrest : figures.dropWhile Char.isDigit with
  | nil =>
    simp only [hrest, List.append_nil] at h
    split at h
    · rename_i hn _
      rw [hsplit figures, hrest, List.append_nil]
      exact ⟨_, .whole (hne hn) (hdigits figures)⟩
    · cases h
  | cons c rest =>
    obtain rfl := eq_point hf hrest
    have hbehind : ∀ c ∈ rest, IsFigure c := fun c hc =>
      hf c ((List.dropWhile_sublist _).subset (hrest ▸ List.mem_cons_of_mem _ hc))
    simp only [hrest] at h
    split at h
    · rename_i hn hexponent
      cases htail : rest.dropWhile Char.isDigit with
      | nil =>
        have hplaces : rest = rest.takeWhile Char.isDigit := by simpa [htail] using hsplit rest
        rw [hsplit figures, hrest, hplaces]
        exact ⟨_, .point (hne hn) (hdigits figures) (hdigits rest)⟩
      | cons e tail =>
        -- A second point could only be the mark of an exponent.
        obtain rfl := eq_point hbehind htail
        rw [htail] at hexponent
        cases hexponent
    · cases h

theorem read?_eq_some_iff (hf : ∀ c ∈ figures, IsFigure c) :
    (Written.read? figures : Option Float) = some value ↔ Denotes figures value := by
  refine ⟨fun h => ?_, Denotes.read?⟩
  have hread : Numeral.read? figures = some value := h
  rcases figures with - | ⟨c, rest⟩
  · cases hread
  · rw [read?_cons (hf c List.mem_cons_self), Option.map_eq_some_iff] at hread
    obtain ⟨d, hd, rfl⟩ := hread
    obtain ⟨value, hdenotes⟩ := exists_denotes hf hd
    have hvalue := hdenotes.read?
    rw [read?_cons (hf c List.mem_cons_self), hd, Option.map_some, Option.some.injEq] at hvalue
    rwa [hvalue]

end Numbers

variable {s : List Char} {tokens : List (Token Float)}

/-- What a text spells is found, wherever the text stands. -/
theorem Spells.scan_eq_ok (h : Spells s tokens) (place : Nat) : scan place s = .ok tokens := by
  induction h generalizing place with
  | nil => rw [scan]
  | blank hc _ ih => rw [scan_blank hc, ih]
  | mark hc _ ih => rw [scan_mark (ofChar?_eq_some_iff.2 hc), ih, Except.map]
  | number hv hmax _ ih =>
    have hread := (read?_eq_some_iff hv.isFigure).2 hv
    have hfigure := hv.isFigure
    obtain ⟨c, figures, rfl⟩ := hv.exists_cons
    simp only [← isNumberChar_iff, Bool.not_eq_true, List.forall_mem_cons] at hfigure hmax
    obtain ⟨htake, hdrop⟩ := Text.takeWhile_of_head? hfigure.2 hmax
    rw [List.cons_append, scan_number hfigure.1, htake, hdrop, hread]
    dsimp only
    rw [ih, Except.map]
  | word hc hl hmax _ ih =>
    simp only [← isWordChar_iff, Bool.not_eq_true] at hl hmax
    obtain ⟨htake, hdrop⟩ := Text.takeWhile_of_head? hl hmax
    rw [List.cons_append, scan_word (isWordStart_iff.2 hc), htake, hdrop, ih, Except.map]

private theorem head?_dropWhile (p : Char → Bool) (s : List Char) : ∀ c ∈ (s.dropWhile p).head?, p c = false := by
  intro c hc
  have h := List.head?_dropWhile_not p s
  rw [Option.mem_def.1 hc] at h
  simpa using h

section Runs

variable {c : Char} {place : Nat} {rest : List Char}

/-- A number that is scanned is denoted by all figures from its first one on. -/
theorem scan_number_eq_ok (hc : IsFigure c) (h : scan place (c :: rest) = .ok tokens) :
    ∃ value behind others, Denotes (c :: rest.takeWhile isNumberChar) value ∧
      scan behind (rest.dropWhile isNumberChar) = .ok others ∧ tokens = .number value :: others := by
  rw [scan_number (isNumberChar_iff.2 hc)] at h
  cases hv : (Written.read? (c :: rest.takeWhile isNumberChar) : Option Float) with
  | none =>
    rw [hv] at h
    cases h
  | some value =>
    rw [hv] at h
    obtain ⟨others, hothers, rfl⟩ := Failure.map_eq_ok.1 h
    have hfigure : ∀ d ∈ c :: rest.takeWhile isNumberChar, IsFigure d :=
      List.forall_mem_cons.2 ⟨hc, fun d hd => isNumberChar_iff.1 (List.mem_takeWhile_imp hd)⟩
    exact ⟨value, _, others, (read?_eq_some_iff hfigure).1 hv, hothers, rfl⟩

theorem scan_word_eq_ok (hc : IsLetter c) (h : scan place (c :: rest) = .ok tokens) :
    ∃ behind others, scan behind (rest.dropWhile isWordChar) = .ok others ∧
      tokens = .word (c :: rest.takeWhile isWordChar) :: others := by
  rw [scan_word (isWordStart_iff.2 hc)] at h
  obtain ⟨others, hothers, rfl⟩ := Failure.map_eq_ok.1 h
  exact ⟨_, others, hothers, rfl⟩

end Runs

/-- What is found in a text is what it spells. -/
theorem spells_of_scan {place : Nat} (h : scan place s = .ok tokens) : Spells s tokens := by
  induction hn : s.length using Nat.strong_induction_on generalizing s tokens place with
  | h n ih =>
    subst hn
    rcases s with - | ⟨c, rest⟩
    · rw [scan, Except.ok.injEq] at h
      subst h
      exact .nil
    -- Behind a number or a word stands what the run of its characters leaves.
    have hshorter (p : Char → Bool) : (rest.dropWhile p).length < (c :: rest).length :=
      Nat.lt_succ_of_le (List.dropWhile_sublist p).length_le
    have hrun (p : Char → Bool) : c :: rest = (c :: rest.takeWhile p) ++ rest.dropWhile p := by
      rw [List.cons_append, List.takeWhile_append_dropWhile]
    by_cases hblank : c = ' ' ∨ c = '\t'
    · rw [scan_blank hblank] at h
      exact .blank hblank (ih _ (Nat.lt_succ_self _) h rfl)
    cases hmark : (ofChar? c : Option (Token Float)) with
    | some token =>
      rw [scan_mark hmark, Failure.map_eq_ok] at h
      obtain ⟨others, hothers, rfl⟩ := h
      exact .mark (ofChar?_eq_some_iff.1 hmark) (ih _ (Nat.lt_succ_self _) hothers rfl)
    | none =>
      by_cases hfigure : IsFigure c
      · obtain ⟨value, behind, others, hv, hothers, rfl⟩ := scan_number_eq_ok hfigure h
        have hmax : ∀ d ∈ (rest.dropWhile isNumberChar).head?, ¬ IsFigure d := fun d hd => by
          rw [← isNumberChar_iff, head?_dropWhile _ _ d hd]
          exact Bool.false_ne_true
        rw [hrun isNumberChar]
        exact .number hv hmax (ih _ (hshorter isNumberChar) hothers rfl)
      by_cases hletter : IsLetter c
      · obtain ⟨behind, others, hothers, rfl⟩ := scan_word_eq_ok hletter h
        have hmax : ∀ d ∈ (rest.dropWhile isWordChar).head?, ¬ (IsLetter d ∨ d.isDigit = true) := fun d hd => by
          rw [← isWordChar_iff, head?_dropWhile _ _ d hd]
          exact Bool.false_ne_true
        rw [hrun isWordChar]
        exact .word hletter (fun d hd => isWordChar_iff.1 (List.mem_takeWhile_imp hd)) hmax
          (ih _ (hshorter isWordChar) hothers rfl)
      · rw [scan, if_neg hblank, hmark] at h
        simp only [isNumberChar_iff, isWordStart_iff, hfigure, hletter, if_false] at h
        cases h

/-- Scanning finds exactly what a text spells. -/
theorem scan_eq_ok_iff {place : Nat} : scan place s = .ok tokens ↔ Spells s tokens :=
  ⟨spells_of_scan, fun h => h.scan_eq_ok place⟩

end OpenCaptions.Token
