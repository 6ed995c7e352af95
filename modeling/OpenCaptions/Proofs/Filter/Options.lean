import OpenCaptions.Proofs.Filter.Finding

/-!
The options of filters whose values are repaired, in the order of the text. A search for a key stops at the
first of them with the key. No option starts in one piece of the text and goes on in the next as long as the
pieces are cut where no key is, so the options of a text are those of its pieces.
-/
namespace OpenCaptions.Filter

/-- What a search knows of the text that it has passed. -/
structure Place where
  escaped : Bool := false
  quoted : Bool := false
  separated : Bool := false

namespace Place

def next (p : Place) (c : Char) : Place where
  escaped := c == '\\' && !p.escaped
  quoted := if c == '\'' && !p.escaped then !p.quoted else p.quoted
  separated := c == '=' || c == ':'

def after (p : Place) (s : List Char) : Place := s.foldl next p

def isOpen (p : Place) : Bool := !p.quoted && p.separated

variable {p q : Place} {s : List Char}

@[simp] theorem after_nil (p : Place) : p.after [] = p := rfl

@[simp] theorem after_cons (p : Place) (c : Char) (s : List Char) : p.after (c :: s) = (p.next c).after s := rfl

theorem after_append (p : Place) (u v : List Char) : p.after (u ++ v) = (p.after u).after v :=
  List.foldl_append

theorem quoted_after (p : Place) (s : List Char) : (p.after s).quoted = endsQuoted p.escaped p.quoted s := by
  induction s generalizing p with
  | nil => rfl
  | cons c s ih => exact ih (p.next c)

theorem after_congr (he : p.escaped = q.escaped) (hq : p.quoted = q.quoted) (hs : s ≠ []) :
    p.after s = q.after s := by
  obtain ⟨c, s, rfl⟩ := List.exists_cons_of_ne_nil hs
  have hnext : p.next c = q.next c := by simp only [next, he, hq]
  rw [after_cons, after_cons, hnext]

theorem quoted_of_isOpen (h : p.isOpen = true) : p.quoted = false := by
  rw [isOpen, Bool.and_eq_true, Bool.not_eq_true'] at h
  exact h.1

theorem next_quoted {c : Char} (hc : c ≠ '\'') : (p.next c).quoted = p.quoted := by
  simp [next, hc]

theorem getLast?_of_isOpen_after {c : Char} (h : (p.after s).isOpen = true) (hc : s.getLast? = some c) :
    c = '=' ∨ c = ':' := by
  obtain ⟨front, rfl⟩ := List.getLast?_eq_some_iff.1 hc
  rw [after_append, isOpen, Bool.and_eq_true] at h
  simpa [next] using h.2

end Place

/-- An option of the text, as far as repairs look at it. -/
structure Entry where
  key : List Char
  isQuoted : Bool
deriving DecidableEq

def repairedKeys : List (List Char) := [fontFileKey, textKey, fontKey]

def startsQuoted (value : List Char) : Bool := value.head? == some '\''

/-- The option that text starts with: its key and what is behind the `=`. -/
def optionAt? (s : List Char) : Option (List Char × List Char) :=
  repairedKeys.findSome? fun key => (Text.dropPrefix? (key ++ ['=']) s).map (key, ·)

/-- All options outside quotes that stand behind `=` or `:`. -/
def options (p : Place) : List Char → List Entry
  | [] => []
  | c :: rest =>
    match if p.isOpen then optionAt? (c :: rest) else none with
    | some (key, value) => ⟨key, startsQuoted value⟩ :: options (p.next c) rest
    | none => options (p.next c) rest

variable {p : Place} {key s w rest value : List Char}

theorem isLower_of_mem_key (hk : key ∈ repairedKeys) : ∀ c ∈ key, c.isLower = true := by
  have hall : ∀ key ∈ repairedKeys, key.all Char.isLower = true := by decide
  exact List.all_eq_true.1 (hall key hk)

theorem ne_nil_of_mem_repairedKeys (hk : key ∈ repairedKeys) : key ≠ [] := by
  have hall : ∀ key ∈ repairedKeys, key ≠ [] := by decide
  exact hall key hk

theorem not_mem_key (hk : key ∈ repairedKeys) {c : Char} (hc : c.isLower = false) : c ∉ key := by
  intro hm
  have hlower := isLower_of_mem_key hk c hm
  rw [hc] at hlower
  cases hlower

theorem Place.next_of_isLower {c : Char} (h : c.isLower = true) :
    (p.next c).quoted = p.quoted ∧ (p.next c).separated = false := by
  have hne {d : Char} (hd : d.isLower = false) : c ≠ d := by
    rintro rfl
    rw [hd] at h
    cases h
  refine ⟨Place.next_quoted (hne (by decide)), ?_⟩
  have hequals : c ≠ '=' := hne (by decide)
  have hcolon : c ≠ ':' := hne (by decide)
  simp [Place.next, hequals, hcolon]

theorem dropPrefix?_option (key value : List Char) :
    Text.dropPrefix? (key ++ ['=']) (key ++ '=' :: value) = some value := by
  simpa using Text.dropPrefix?_append (key ++ ['=']) value

theorem optionAt?_eq_some_iff :
    optionAt? s = some (key, value) ↔ key ∈ repairedKeys ∧ s = key ++ '=' :: value := by
  have hread {key value : List Char} (h : optionAt? s = some (key, value)) :
      key ∈ repairedKeys ∧ s = key ++ '=' :: value := by
    obtain ⟨k, hk, h⟩ := List.exists_of_findSome?_eq_some h
    obtain ⟨v, hv, h⟩ := Option.map_eq_some_iff.1 h
    cases h
    have hs := Text.eq_append_of_dropPrefix? hv
    rw [List.append_assoc, List.singleton_append] at hs
    exact ⟨hk, hs⟩
  refine ⟨hread, fun ⟨hk, hs⟩ => ?_⟩
  cases ho : optionAt? s with
  | none =>
    have hnone := List.findSome?_eq_none_iff.1 ho key hk
    rw [hs, dropPrefix?_option] at hnone
    cases hnone
  | some found =>
    obtain ⟨k, v⟩ := found
    obtain ⟨hk', hs'⟩ := hread ho
    have hmark : ('=').isLower = false := by decide
    have h := Text.splitOnce?_append (not_mem_key hk hmark) value
    have h' := Text.splitOnce?_append (not_mem_key hk' hmark) v
    rw [← hs, hs', h'] at h
    cases h
    rfl

theorem dropPrefix?_eq_some_iff_optionAt? (hk : key ∈ repairedKeys) :
    Text.dropPrefix? (key ++ ['=']) s = some value ↔ optionAt? s = some (key, value) := by
  rw [optionAt?_eq_some_iff, Text.dropPrefix?_eq_some_iff]
  simp [hk]

theorem optionAt?_eq_none_of_head? (h : ∀ c ∈ s.head?, c.isLower = false) : optionAt? s = none := by
  cases ho : optionAt? s with
  | none => rfl
  | some found =>
    obtain ⟨k, v⟩ := found
    obtain ⟨hk, rfl⟩ := optionAt?_eq_some_iff.1 ho
    obtain ⟨c, k, rfl⟩ := List.exists_cons_of_ne_nil (ne_nil_of_mem_repairedKeys hk)
    have hc := isLower_of_mem_key hk c List.mem_cons_self
    rw [h c rfl] at hc
    cases hc

abbrev findFrom? (key : List Char) (p : Place) (s : List Char) : Option (List Char × List Char) :=
  findOption? key p.escaped p.quoted p.separated s

theorem findFrom?_cons (hk : key ∈ repairedKeys) (p : Place) (c : Char) (rest : List Char) :
    findFrom? key p (c :: rest) =
      match if p.isOpen then Text.dropPrefix? (key ++ ['=']) (c :: rest) else none with
      | some value => some ([], value)
      | none => passed [c] (findFrom? key (p.next c) rest) := by
  by_cases hc : c = '\''
  · have hd : Text.dropPrefix? (key ++ ['=']) (c :: rest) = none := by
      cases hd : Text.dropPrefix? (key ++ ['=']) (c :: rest) with
      | none => rfl
      | some value =>
        rw [dropPrefix?_eq_some_iff_optionAt? hk, optionAt?_eq_none_of_head?] at hd
        · cases hd
        · rintro d ⟨⟩
          rw [hc]
          decide
    rw [hd, ite_self, findFrom?, findOption?]
    subst hc
    cases he : p.escaped <;> simp [Place.next, passed, he, hd]
  · rw [findFrom?, findOption?]
    have hb : (c == '\'') = false := by simpa using hc
    cases ho : p.isOpen with
    | true =>
      rw [Place.isOpen] at ho
      simp only [hb, ho, Bool.false_and, Bool.false_eq_true, if_false, if_true]
      cases Text.dropPrefix? (key ++ ['=']) (c :: rest) <;> simp [Place.next, passed, hb]
    | false =>
      rw [Place.isOpen] at ho
      simp [ho, Place.next, passed, hb]

/-- The option that a search finds is the first with the key. -/
theorem find?_options (hk : key ∈ repairedKeys) (p : Place) (s : List Char) :
    (options p s).find? (·.key == key) =
      (findFrom? key p s).map fun found => ⟨key, startsQuoted found.2⟩ := by
  induction s generalizing p with
  | nil => rfl
  | cons c rest ih =>
    have honward : (passed [c] (findFrom? key (p.next c) rest)).map
        (fun found => (⟨key, startsQuoted found.2⟩ : Entry)) = (options (p.next c) rest).find? (·.key == key) := by
      rw [ih]
      cases findFrom? key (p.next c) rest <;> rfl
    rw [findFrom?_cons hk, options]
    cases hopen : p.isOpen with
    | false => simpa using honward.symm
    | true =>
      simp only [if_true]
      cases hd : Text.dropPrefix? (key ++ ['=']) (c :: rest) with
      | some value =>
        rw [(dropPrefix?_eq_some_iff_optionAt? hk).1 hd]
        simp
      | none =>
        cases ho : optionAt? (c :: rest) with
        | none => simpa using honward.symm
        | some found =>
          obtain ⟨other, value⟩ := found
          have hne : other ≠ key := by
            rintro rfl
            rw [(dropPrefix?_eq_some_iff_optionAt? hk).2 ho] at hd
            cases hd
          simpa [hne] using honward.symm

/-- No option starts in one piece of text and goes on in the next. -/
def Apart (w rest : List Char) : Prop :=
  (∀ c ∈ w.getLast?, c.isLower = false) ∨ ∀ c ∈ rest.head?, c.isLower = false ∧ c ≠ '='

theorem Apart.of_cons {c : Char} (h : Apart (c :: w) rest) : Apart w rest := by
  refine h.imp_left fun h d hd => h d ?_
  rw [List.getLast?_cons, Option.mem_def.1 hd]
  rfl

theorem apart_of_isOpen (h : (p.after w).isOpen = true) : Apart w rest := by
  refine .inl fun c hc => ?_
  rcases Place.getLast?_of_isOpen_after h hc with rfl | rfl <;> decide

theorem optionAt?_append (hw : w ≠ []) (h : Apart w rest) :
    optionAt? (w ++ rest) = (optionAt? w).map fun (key, value) => (key, value ++ rest) := by
  cases ho : optionAt? w with
  | some found =>
    obtain ⟨key, value⟩ := found
    obtain ⟨hk, rfl⟩ := optionAt?_eq_some_iff.1 ho
    exact optionAt?_eq_some_iff.2 ⟨hk, by simp⟩
  | none =>
    cases hr : optionAt? (w ++ rest) with
    | none => rfl
    | some found =>
      obtain ⟨key, value⟩ := found
      obtain ⟨hk, hs⟩ := optionAt?_eq_some_iff.1 hr
      rw [← List.singleton_append, ← List.append_assoc, List.append_eq_append_iff] at hs
      have hinside (more : List Char) (hs : w = key ++ ['='] ++ more) : False := by
        have hw := optionAt?_eq_some_iff.2 ⟨hk, by simpa using hs⟩
        rw [ho] at hw
        cases hw
      rcases hs with ⟨more, hkey, hrest⟩ | ⟨more, hw', -⟩
      · cases more with
        | nil => exact (hinside [] (by simpa using hkey.symm)).elim
        | cons d more =>
          -- The text ends inside the key.
          have hlast := List.getLast?_eq_some_getLast hw
          have hinit : w <+: key := by
            have hp : w <+: key ++ ['='] := ⟨d :: more, hkey.symm⟩
            have hlen := congrArg List.length hkey
            simp only [List.length_append, List.length_cons, List.length_nil] at hlen
            exact List.prefix_of_prefix_length_le hp (List.prefix_append key ['=']) (by omega)
          have hd : d ∈ key ++ ['='] := hkey ▸ List.mem_append_right w List.mem_cons_self
          rcases h with h | h
          · have hlower := isLower_of_mem_key hk _ (hinit.subset (List.mem_of_getLast? hlast))
            rw [h _ hlast] at hlower
            cases hlower
          · obtain ⟨hl, hne⟩ := h d (by rw [hrest]; rfl)
            rw [List.mem_append, List.mem_singleton] at hd
            rcases hd with hd | hd
            · rw [isLower_of_mem_key hk d hd] at hl
              cases hl
            · exact absurd hd hne
      · exact (hinside more hw').elim

theorem startsQuoted_append (hr : startsQuoted rest = false) (value : List Char) :
    startsQuoted (value ++ rest) = startsQuoted value := by
  cases value with
  | nil => exact hr
  | cons c value => rfl

/-- The options of a text are those of its pieces. -/
theorem options_append (h : Apart w rest) (hr : startsQuoted rest = false) (p : Place) :
    options p (w ++ rest) = options p w ++ options (p.after w) rest := by
  induction w generalizing p with
  | nil => rfl
  | cons c w ih =>
    have ho := optionAt?_append (List.cons_ne_nil c w) h
    rw [List.cons_append] at ho ⊢
    rw [options, options, ho, ih h.of_cons, Place.after_cons]
    cases p.isOpen with
    | false => rfl
    | true =>
      cases optionAt? (c :: w) with
      | none => rfl
      | some found => simp [startsQuoted_append hr]

theorem mem_options_cons {c : Char} {entry : Entry} :
    entry ∈ options p (c :: rest) ↔ entry ∈ options (p.next c) rest ∨
      (p.isOpen = true ∧ ∃ value, optionAt? (c :: rest) = some (entry.key, value) ∧
        entry.isQuoted = startsQuoted value) := by
  obtain ⟨key, isQuoted⟩ := entry
  rw [options]
  cases p.isOpen with
  | false => simp
  | true =>
    cases optionAt? (c :: rest) with
    | none => simp
    | some found =>
      obtain ⟨key', value⟩ := found
      simp only [if_true, List.mem_cons, Entry.mk.injEq, true_and, Option.some.injEq, Prod.mk.injEq]
      constructor
      · rintro (⟨rfl, rfl⟩ | hm)
        · exact .inr ⟨value, ⟨rfl, rfl⟩, rfl⟩
        · exact .inl hm
      · rintro (hm | ⟨value', ⟨rfl, rfl⟩, rfl⟩)
        · exact .inr hm
        · exact .inl ⟨rfl, rfl⟩

theorem options_cons_of_eq_none {c : Char} (h : p.isOpen = true → optionAt? (c :: rest) = none) :
    options p (c :: rest) = options (p.next c) rest := by
  rw [options]
  cases ho : p.isOpen with
  | false => rfl
  | true => simp [h ho]

theorem options_of_not_mem (h : '=' ∉ s) (p : Place) : options p s = [] := by
  induction s generalizing p with
  | nil => rfl
  | cons c rest ih =>
    rw [options_cons_of_eq_none, ih (List.not_mem_of_not_mem_cons h)]
    intro _
    cases ho : optionAt? (c :: rest) with
    | none => rfl
    | some found =>
      obtain ⟨key, value⟩ := found
      rw [(optionAt?_eq_some_iff.1 ho).2] at h
      simp at h

theorem options_congr {q : Place} (he : p.escaped = q.escaped) (hq : p.quoted = q.quoted)
    (hs : ∀ c ∈ s.head?, c.isLower = false) : options p s = options q s := by
  cases s with
  | nil => rfl
  | cons c rest =>
    have hnone := optionAt?_eq_none_of_head? hs
    have hnext : p.next c = q.next c := by simp only [Place.next, he, hq]
    rw [options_cons_of_eq_none (fun _ => hnone), options_cons_of_eq_none (fun _ => hnone), hnext]

private theorem options_inside (hw : ∀ c ∈ w, c.isLower = true) (hs : p.separated = false) (hq : p.quoted = false)
    (value : List Char) : options p (w ++ '=' :: value) = options ⟨false, false, true⟩ value := by
  have hshut {p : Place} (hs : p.separated = false) : p.isOpen = false := by simp [Place.isOpen, hs]
  induction w generalizing p with
  | nil =>
    rw [List.nil_append, options_cons_of_eq_none (by simp [hshut hs])]
    simp [Place.next, hq]
  | cons c w ih =>
    rw [List.forall_mem_cons] at hw
    obtain ⟨hquoted, hseparated⟩ := Place.next_of_isLower hw.1
    rw [List.cons_append, options_cons_of_eq_none (by simp [hshut hs])]
    exact ih hw.2 hseparated (hquoted.trans hq)

private theorem options_key (hk : key ∈ repairedKeys) (hp : p.isOpen = true) (value : List Char) :
    options p (key ++ '=' :: value) = ⟨key, startsQuoted value⟩ :: options ⟨false, false, true⟩ value := by
  have ho : optionAt? (key ++ '=' :: value) = some (key, value) := optionAt?_eq_some_iff.2 ⟨hk, rfl⟩
  obtain ⟨c, rest, rfl⟩ := List.exists_cons_of_ne_nil (ne_nil_of_mem_repairedKeys hk)
  have hlower := isLower_of_mem_key hk
  rw [List.forall_mem_cons] at hlower
  obtain ⟨hquoted, hseparated⟩ := Place.next_of_isLower hlower.1
  rw [List.cons_append] at ho ⊢
  rw [options, hp, if_pos rfl, ho]
  simp only [List.cons.injEq, true_and]
  exact options_inside hlower.2 hseparated (hquoted.trans (Place.quoted_of_isOpen hp)) value

/-- The options of a text with an option at a known place. -/
theorem options_before_key {before : List Char} (hk : key ∈ repairedKeys) (hp : (p.after before).isOpen = true)
    (value : List Char) : options p (before ++ (key ++ '=' :: value)) =
      options p before ++ ⟨key, startsQuoted value⟩ :: options ⟨false, false, true⟩ value := by
  have hstarts : startsQuoted (key ++ '=' :: value) = false := by
    obtain ⟨c, rest, rfl⟩ := List.exists_cons_of_ne_nil (ne_nil_of_mem_repairedKeys hk)
    have hc : '\'' ∉ c :: rest := not_mem_key hk (by decide)
    rw [List.mem_cons, not_or] at hc
    simpa [startsQuoted] using Ne.symm hc.1
  rw [options_append (apart_of_isOpen hp) hstarts, options_key hk hp]

theorem after_key (hk : key ∈ repairedKeys) (hp : p.isOpen = true) :
    p.after (key ++ ['=']) = ⟨false, false, true⟩ := by
  have hpass {w : List Char} (hw : ∀ c ∈ w, c.isLower = true) (q : Place) : (q.after w).quoted = q.quoted := by
    induction w generalizing q with
    | nil => rfl
    | cons c w ih =>
      rw [List.forall_mem_cons] at hw
      exact (ih hw.2 (q.next c)).trans (Place.next_of_isLower hw.1).1
  have hquoted := (hpass (isLower_of_mem_key hk) p).trans (Place.quoted_of_isOpen hp)
  rw [Place.after_append]
  simp [Place.next, hquoted]

theorem options_sealed (h : guards (· == '\'') p.escaped w = true) (hq : p.quoted = true) (rest : List Char) :
    options p (w ++ '\'' :: rest) = options {} rest := by
  induction w generalizing p with
  | nil =>
    have he : p.escaped = false := by simpa [guards] using h
    rw [List.nil_append, options_cons_of_eq_none (by simp [Place.isOpen, hq])]
    simp [Place.next, hq, he]
  | cons c w ih =>
    obtain ⟨hc, hw⟩ := guards_cons.1 h
    rw [List.cons_append, options_cons_of_eq_none (by simp [Place.isOpen, hq])]
    refine ih hw ?_
    simp only [Place.next, hc, Bool.false_eq_true, if_false, hq]

theorem options_quoted (h : isSealed w = true) (he : p.escaped = false) (hq : p.quoted = false)
    (rest : List Char) : options p ('\'' :: w ++ '\'' :: rest) = options {} rest := by
  have hquote : ('\'').isLower = false := by decide
  rw [List.cons_append, options_cons_of_eq_none fun _ => optionAt?_eq_none_of_head? (by simp [hquote])]
  refine options_sealed ?_ (by simp [Place.next, he, hq]) rest
  simpa [Place.next, isSealed] using h

/-- A search passes text without options that have the key. -/
theorem findFrom?_append (hk : key ∈ repairedKeys) (h : Apart w rest)
    (hno : ∀ entry ∈ options p w, entry.key ≠ key) :
    findFrom? key p (w ++ rest) = passed w (findFrom? key (p.after w) rest) := by
  induction w generalizing p with
  | nil => simp
  | cons c w ih =>
    have hw : ∀ entry ∈ options (p.next c) w, entry.key ≠ key :=
      fun entry hm => hno entry (mem_options_cons.2 (.inl hm))
    have hhere : (if p.isOpen then Text.dropPrefix? (key ++ ['=']) (c :: (w ++ rest)) else none) = none := by
      rw [ite_eq_right_iff]
      intro hp
      rw [Option.eq_none_iff_forall_ne_some]
      intro value hd
      have ho := (dropPrefix?_eq_some_iff_optionAt? hk).1 hd
      rw [← List.cons_append, optionAt?_append (List.cons_ne_nil c w) h] at ho
      obtain ⟨⟨k, v⟩, hat, hkey⟩ := Option.map_eq_some_iff.1 ho
      cases hkey
      exact hno ⟨key, startsQuoted v⟩ (mem_options_cons.2 (.inr ⟨hp, v, hat, rfl⟩)) rfl
    rw [List.cons_append, findFrom?_cons hk, hhere, ih h.of_cons hw]
    exact passed_passed [c] w _

private theorem findFrom?_key (hk : key ∈ repairedKeys) (hp : p.isOpen = true) (value : List Char) :
    findFrom? key p (key ++ '=' :: value) = some ([], value) := by
  have hd := dropPrefix?_option key value
  obtain ⟨c, rest, heq⟩ := List.exists_cons_of_ne_nil (ne_nil_of_mem_repairedKeys hk)
  have hcons : key ++ '=' :: value = c :: (rest ++ '=' :: value) := by rw [heq, List.cons_append]
  rw [hcons] at hd ⊢
  rw [findFrom?_cons hk, if_pos hp, hd]

private theorem eq_of_findFrom? {before : List Char} (hk : key ∈ repairedKeys)
    (h : findFrom? key p s = some (before, value)) :
    s = before ++ (key ++ '=' :: value) ∧ (p.after before).isOpen = true ∧
      ∀ entry ∈ options p before, entry.key ≠ key := by
  induction s generalizing p before with
  | nil => simp [findOption?] at h
  | cons c rest ih =>
    rw [findFrom?_cons hk] at h
    split at h
    · rename_i found hd
      cases h
      have hp : p.isOpen = true := by
        by_contra hp
        rw [if_neg hp] at hd
        cases hd
      rw [if_pos hp] at hd
      have hs := (optionAt?_eq_some_iff.1 ((dropPrefix?_eq_some_iff_optionAt? hk).1 hd)).2
      exact ⟨hs, hp, by simp [options]⟩
    · rename_i hd
      obtain ⟨⟨front, found⟩, hfound, heq⟩ := Option.map_eq_some_iff.1 h
      cases heq
      obtain ⟨rfl, hopen, hfirst⟩ := ih hfound
      refine ⟨rfl, hopen, fun entry hm hkey => ?_⟩
      rcases mem_options_cons.1 hm with hm | ⟨hp, v, ho, -⟩
      · exact hfirst entry hm hkey
      · -- The key would be found at the start.
        obtain ⟨-, hs⟩ := optionAt?_eq_some_iff.1 ho
        have hcut : c :: front = key ++ '=' :: v := hkey ▸ hs
        have hfull : c :: (front ++ (key ++ '=' :: value)) = key ++ '=' :: (v ++ (key ++ '=' :: value)) := by
          rw [← List.cons_append, hcut]
          simp
        rw [if_pos hp, hfull, dropPrefix?_option] at hd
        cases hd

/-- Where a search stops. -/
theorem findFrom?_eq_some_iff {before : List Char} (hk : key ∈ repairedKeys) :
    findFrom? key p s = some (before, value) ↔
      s = before ++ (key ++ '=' :: value) ∧ (p.after before).isOpen = true ∧
        ∀ entry ∈ options p before, entry.key ≠ key := by
  refine ⟨eq_of_findFrom? hk, ?_⟩
  rintro ⟨rfl, hopen, hfirst⟩
  rw [findFrom?_append hk (apart_of_isOpen hopen) hfirst, findFrom?_key hk hopen]
  simp [passed]

end OpenCaptions.Filter
