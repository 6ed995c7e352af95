import OpenCaptions.Proofs.Filter.Bounding

/-!
What one repair does to a text. It replaces a stretch in front of the label by text that ends in a quote, so a text keeps
its label for as long as it is repaired. A repair fails only over an option inside the label, no repair brings a font
file, and the repairs of quotes make the text longer.
-/
namespace OpenCaptions.Filter

variable {key s r rest label : List Char}

/-- Text that is replaced ends in a quote then, and the label stays. -/
def Edits (s r : List Char) : Prop :=
  ∃ front old new rest, s = front ++ (old ++ (rest ++ (splitLabel s).2)) ∧
    r = front ++ (new ++ '\'' :: (rest ++ (splitLabel s).2))

theorem Edits.label_eq (h : Edits s r) : (splitLabel r).2 = (splitLabel s).2 := by
  obtain ⟨front, old, new, rest, hs, rfl⟩ := h
  have hold : (splitLabel ((front ++ old) ++ (rest ++ (splitLabel s).2))).2 = (splitLabel s).2 := by
    rw [List.append_assoc, ← hs]
  have hnew := splitLabel_behind_quote hold (front ++ new)
  rwa [List.append_assoc] at hnew

theorem eq_of_find? {found : Found} (hk : key ∈ repairedKeys) (h : find? key s = some (some found)) :
    s = found.before ++ (key ++ '=' :: (found.value ++ found.label)) ∧ found.label = (splitLabel s).2 := by
  obtain ⟨before, value, label⟩ := found
  obtain ⟨hlabel, hfound⟩ := (find?_eq_some_some_iff hk).1 h
  exact ⟨((findFrom?_eq_some_iff hk).1 hfound).1, hlabel⟩

theorem splitBare_append (s : List Char) : (splitBare s).1 ++ (splitBare s).2 = s := by
  rw [splitBare]
  cases hsplit : splitUnescaped? (fun c => c == ':' || c == ',') false s with
  | none => exact List.append_nil s
  | some parts => exact append_of_splitUnescaped? hsplit

theorem edits_of_replaceFontFile (h : replaceFontFile s = some (some r)) : Edits s r := by
  obtain ⟨⟨before, value, label⟩, hfound, rfl⟩ := exists_of_replaceFontFile h
  obtain ⟨hs, rfl⟩ := eq_of_find? (by decide) hfound
  obtain ⟨old, hold⟩ := behindValue_suffix value
  have hfont : standardFont = "font='Arial".toList ++ ['\''] := by decide
  generalize behindValue value = rest at hold ⊢
  subst hold
  exact ⟨before, fontFileKey ++ '=' :: old, "font='Arial".toList, rest, by simpa using hs, by simp [hfont]⟩

theorem exists_of_closeValue? (hk : key ∈ repairedKeys) (h : closeValue? key s = some r) :
    ∃ before value rest, s = before ++ (key ++ '=' :: '\'' :: (value ++ (rest ++ (splitLabel s).2))) ∧
      r = before ++ (key ++ '=' :: '\'' :: (value ++ '\'' :: (rest ++ (splitLabel s).2))) := by
  unfold closeValue? at h
  split at h
  · rename_i before inside label hfound
    obtain ⟨hs, rfl⟩ := eq_of_find? hk hfound
    dsimp only at h hs
    split at h
    · cases h
    · cases h
      have hinside := splitAtOption_append false inside
      refine ⟨before, (splitAtOption false inside).1, (splitAtOption false inside).2, ?_, by simp⟩
      rw [← List.append_assoc _ _ (splitLabel s).2, hinside]
      simpa using hs
  · cases h

theorem exists_of_closeQuote (h : closeQuote s = some (some r)) :
    ∃ key ∈ repairedKeys, closeValue? key s = some r := by
  unfold closeQuote at h
  split at h
  · rw [Option.some.injEq] at h
    cases htext : closeValue? textKey s with
    | some closed =>
      rw [htext] at h
      exact ⟨textKey, by decide, htext.trans h⟩
    | none =>
      rw [htext] at h
      exact ⟨fontKey, by decide, h⟩
  · cases h

theorem edits_of_closeQuote (h : closeQuote s = some (some r)) : Edits s r := by
  obtain ⟨key, hk, hclose⟩ := exists_of_closeQuote h
  obtain ⟨before, value, rest, hs, hr⟩ := exists_of_closeValue? hk hclose
  exact ⟨before ++ (key ++ '=' :: ['\'']), value, value, rest, by simpa using hs, by simpa using hr⟩

private theorem exists_of_quoteBare (h : quoteBare s = some (some r)) :
    ∃ key ∈ repairedKeys, ∃ found, findBare? key s = some (some found) ∧ r = quoteValue key found := by
  rcases quoteBare_cases h with ⟨found, hfound, heq⟩ | ⟨-, ⟨found, hfound, heq⟩ | ⟨-, hnone⟩⟩
  · exact ⟨textKey, by decide, found, hfound, Option.some.inj heq⟩
  · exact ⟨fontKey, by decide, found, hfound, Option.some.inj heq⟩
  · cases hnone

theorem exists_pieces_of_quoteBare (h : quoteBare s = some (some r)) :
    ∃ key ∈ repairedKeys, ∃ before value rest, s = before ++ (key ++ '=' :: (value ++ (rest ++ (splitLabel s).2))) ∧
      r = before ++ (key ++ '=' :: '\'' :: (escapeQuotes false value ++ '\'' :: (rest ++ (splitLabel s).2))) := by
  obtain ⟨key, hk, ⟨before, value, label⟩, hbare, rfl⟩ := exists_of_quoteBare h
  obtain ⟨hs, rfl⟩ := eq_of_find? hk (find?_of_findBare? hbare).1
  refine ⟨key, hk, before, (splitBare value).1, (splitBare value).2, ?_, by simp [quoteValue]⟩
  rw [← List.append_assoc _ _ (splitLabel s).2, splitBare_append]
  exact hs

theorem edits_of_quoteBare (h : quoteBare s = some (some r)) : Edits s r := by
  obtain ⟨key, hk, before, value, rest, hs, hr⟩ := exists_pieces_of_quoteBare h
  exact ⟨before ++ (key ++ ['=']), value, '\'' :: escapeQuotes false value, rest, by simpa using hs, by simpa using hr⟩

theorem length_lt_of_closeQuote (h : closeQuote s = some (some r)) : s.length < r.length := by
  obtain ⟨key, hk, hclose⟩ := exists_of_closeQuote h
  obtain ⟨before, value, rest, hs, hr⟩ := exists_of_closeValue? hk hclose
  have hslength := congrArg List.length hs
  have hrlength := congrArg List.length hr
  simp only [List.length_append, List.length_cons] at hslength hrlength
  omega

private theorem length_le_escapeQuotes (escaped : Bool) (s : List Char) :
    s.length ≤ (escapeQuotes escaped s).length := by
  induction s generalizing escaped with
  | nil => exact le_rfl
  | cons c s ih =>
    have ih := ih (c == '\\' && !escaped)
    rw [escapeQuotes]
    split
    all_goals
      simp only [List.length_cons]
      omega

theorem length_lt_of_quoteBare (h : quoteBare s = some (some r)) : s.length < r.length := by
  obtain ⟨key, hk, before, value, rest, hs, hr⟩ := exists_pieces_of_quoteBare h
  have hescaped := length_le_escapeQuotes false value
  have hslength := congrArg List.length hs
  have hrlength := congrArg List.length hr
  simp only [List.length_append, List.length_cons] at hslength hrlength
  omega

/-- Text without quotes and backslashes that escaped text starts with was there before. -/
theorem prefix_of_prefix_escapeQuotes {w : List Char} {escaped : Bool} (hw : '\\' ∉ w)
    (h : w <+: escapeQuotes escaped s) : w <+: s := by
  induction s generalizing w escaped with
  | nil => exact h
  | cons c s ih =>
    cases w with
    | nil => exact List.nil_prefix
    | cons d w =>
      rw [escapeQuotes] at h
      split at h
      · obtain ⟨rfl, -⟩ := List.cons_prefix_cons.1 h
        exact absurd List.mem_cons_self hw
      · obtain ⟨rfl, h⟩ := List.cons_prefix_cons.1 h
        exact List.cons_prefix_cons.2 ⟨rfl, ih (List.not_mem_of_not_mem_cons hw) h⟩

/-- Whether a text starts with the name of the option for a font file. -/
theorem startsFontFile_iff : (optionAt? s).map Prod.fst = some fontFileKey ↔ fontFileKey ++ ['='] <+: s := by
  rw [Option.map_eq_some_iff]
  constructor
  · rintro ⟨⟨key, value⟩, hat, rfl⟩
    obtain ⟨-, rfl⟩ := optionAt?_eq_some_iff.1 hat
    exact ⟨value, by simp⟩
  · rintro ⟨value, rfl⟩
    exact ⟨(fontFileKey, value), optionAt?_eq_some_iff.2 ⟨by decide, by simp⟩, rfl⟩

theorem fileMentions_cons (c : Char) (s : List Char) :
    fileMentions (c :: s) = fileMentions s + if fontFileKey ++ ['='] <+: c :: s then 1 else 0 := by
  rw [fileMentions]
  simp only [startsFontFile_iff]

/-- Text put together may hold names that its pieces do not hold, but keeps theirs. -/
theorem fileMentions_add_le (w rest : List Char) : fileMentions w + fileMentions rest ≤ fileMentions (w ++ rest) := by
  induction w with
  | nil => simp [fileMentions]
  | cons c w ih =>
    rw [List.cons_append, fileMentions_cons, fileMentions_cons]
    by_cases hstarts : fontFileKey ++ ['='] <+: c :: w
    · have hlonger : fontFileKey ++ ['='] <+: c :: (w ++ rest) := hstarts.trans (List.prefix_append (c :: w) rest)
      rw [if_pos hstarts, if_pos hlonger]
      omega
    · rw [if_neg hstarts]
      omega

theorem fileMentions_quote (w rest : List Char) :
    fileMentions (w ++ '\'' :: rest) = fileMentions w + fileMentions rest := by
  have hapart : Apart w ('\'' :: rest) := by
    refine .inr ?_
    rintro c ⟨⟩
    decide
  have hnone : ¬ fontFileKey ++ ['='] <+: '\'' :: rest := by
    intro h
    exact absurd (List.cons_prefix_cons.1 h).1 (by decide)
  rw [fileMentions_append hapart, fileMentions_cons, if_neg hnone, Nat.add_zero]

private theorem fileMentions_escapeQuotes_le (escaped : Bool) (s : List Char) :
    fileMentions (escapeQuotes escaped s) ≤ fileMentions s := by
  have hkey : '\\' ∉ fontFileKey ++ ['='] := by decide
  induction s generalizing escaped with
  | nil => exact le_rfl
  | cons c s ih =>
    have ih := ih (c == '\\' && !escaped)
    have hkept := @prefix_of_prefix_escapeQuotes (c :: s) (fontFileKey ++ ['=']) escaped hkey
    rw [fileMentions_cons c s]
    rw [escapeQuotes] at hkept ⊢
    split
    · rename_i hc
      obtain ⟨rfl, -⟩ : c = '\'' ∧ escaped = false := by simpa using hc
      have hquote := fileMentions_quote ['\\'] (escapeQuotes ('\'' == '\\' && !escaped) s)
      have hbackslash : fileMentions ['\\'] = 0 := by decide
      rw [List.singleton_append] at hquote
      omega
    · rename_i hc
      rw [if_neg hc] at hkept
      rw [fileMentions_cons]
      by_cases hstarts : fontFileKey ++ ['='] <+: c :: escapeQuotes (c == '\\' && !escaped) s
      · rw [if_pos hstarts, if_pos (hkept hstarts)]
        omega
      · rw [if_neg hstarts]
        omega

theorem fileMentions_le_of_closeQuote (h : closeQuote s = some (some r)) : fileMentions r ≤ fileMentions s := by
  obtain ⟨key, hk, hclose⟩ := exists_of_closeQuote h
  obtain ⟨before, value, rest, hs, hr⟩ := exists_of_closeValue? hk hclose
  generalize rest ++ (splitLabel s).2 = behind at hs hr
  subst hs hr
  have hsplit (more : List Char) : before ++ (key ++ '=' :: '\'' :: more) = (before ++ (key ++ ['='])) ++ '\'' :: more := by simp
  rw [hsplit, hsplit, fileMentions_quote, fileMentions_quote, fileMentions_quote]
  have hle := fileMentions_add_le value behind
  omega

theorem fileMentions_le_of_quoteBare (h : quoteBare s = some (some r)) : fileMentions r ≤ fileMentions s := by
  obtain ⟨key, hk, before, value, rest, hs, hr⟩ := exists_pieces_of_quoteBare h
  generalize rest ++ (splitLabel s).2 = behind at hs hr
  subst hs hr
  have hold : before ++ (key ++ '=' :: (value ++ behind)) = (before ++ (key ++ ['='])) ++ (value ++ behind) := by simp
  have hnew (more : List Char) : before ++ (key ++ '=' :: '\'' :: more) = (before ++ (key ++ ['='])) ++ '\'' :: more := by
    simp
  have hescaped := fileMentions_escapeQuotes_le false value
  have hle := fileMentions_add_le (before ++ (key ++ ['='])) (value ++ behind)
  have hle' := fileMentions_add_le value behind
  rw [hold, hnew, fileMentions_quote, fileMentions_quote]
  omega

/-- A search fails only over an option whose value lies inside the label, so no quote opens that value. -/
theorem inside_label_of_find? (hk : key ∈ repairedKeys) (h : find? key s = none) :
    ∃ before name behind, findFrom? key {} s = some (before, behind) ∧
      (splitLabel s).2 = '[' :: (name ++ behind) ∧ before ++ (key ++ ['=']) = (splitLabel s).1 ++ '[' :: name ∧
      startsQuoted behind = false := by
  have hsearch : findOption? key false false false s = findFrom? key {} s := rfl
  rw [find?, hsearch] at h
  cases hfound : findFrom? key {} s with
  | none =>
    rw [hfound] at h
    cases h
  | some parts =>
    obtain ⟨before, behind⟩ := parts
    simp only [hfound, ite_eq_left_iff, reduceCtorEq, imp_false, Classical.not_not] at h
    have hs : s = (before ++ (key ++ ['='])) ++ behind := by simpa using ((findFrom?_eq_some_iff hk).1 hfound).1
    obtain ⟨hsplit, hl⟩ := splitLabel_spec s
    obtain ⟨more, hmore⟩ := List.suffix_of_suffix_length_le ⟨_, hs.symm⟩ ⟨(splitLabel s).1, hsplit⟩ (Nat.le_of_lt h)
    rcases hl with hnil | ⟨name, hname, -, hquote⟩
    · rw [hnil] at h
      cases h
    · cases more with
      | nil =>
        rw [← hmore] at h
        exact absurd h (Nat.lt_irrefl _)
      | cons c more =>
        obtain rfl : c = '[' := (List.cons.inj (hmore.trans hname)).1
        have hfront : (before ++ (key ++ ['='])) ++ behind = ((splitLabel s).1 ++ '[' :: more) ++ behind := by
          rw [List.append_assoc _ _ behind, List.append_assoc (splitLabel s).1, hmore, hsplit, ← List.append_assoc, ← hs]
        refine ⟨before, more, behind, rfl, hmore.symm, List.append_cancel_right hfront, ?_⟩
        rw [startsQuoted, beq_eq_false_iff_ne]
        intro hhead
        have hm : '\'' ∈ '[' :: name ++ [']'] := hname ▸ hmore ▸ List.mem_append_right _ (List.mem_of_head? hhead)
        simp [hquote] at hm

theorem exists_find? (hk : key ∈ repairedKeys) (h : '=' ∉ (splitLabel s).2) : ∃ found, find? key s = some found := by
  rw [← Option.ne_none_iff_exists']
  intro hnone
  obtain ⟨before, name, behind, -, hlabel, hfront, -⟩ := inside_label_of_find? hk hnone
  have hlast := congrArg List.getLast? hfront
  rw [← List.append_assoc, List.getLast?_concat, List.getLast?_append_of_ne_nil _ (List.cons_ne_nil _ _)] at hlast
  refine h ?_
  rw [hlabel, ← List.cons_append]
  exact List.mem_append_left _ (List.mem_of_getLast? hlast.symm)

theorem exists_replaceFontFile (h : '=' ∉ (splitLabel s).2) : ∃ next, replaceFontFile s = some next := by
  have hk : fontFileKey ∈ repairedKeys := by decide
  obtain ⟨found, hfound⟩ := exists_find? hk h
  rw [replaceFontFile, hfound]
  cases found <;> exact ⟨_, rfl⟩

theorem exists_closeQuote (s : List Char) : ∃ next, closeQuote s = some next := by
  unfold closeQuote
  split <;> exact ⟨_, rfl⟩

private theorem exists_findBare? (hk : key ∈ repairedKeys) (h : '=' ∉ (splitLabel s).2) :
    ∃ found, findBare? key s = some found := by
  obtain ⟨found, hfound⟩ := exists_find? hk h
  rw [findBare?, hfound]
  cases found <;> exact ⟨_, rfl⟩

private theorem exists_quoteBare (h : '=' ∉ (splitLabel s).2) : ∃ next, quoteBare s = some next := by
  have htextKey : textKey ∈ repairedKeys := by decide
  have hfontKey : fontKey ∈ repairedKeys := by decide
  obtain ⟨text, htext⟩ := exists_findBare? htextKey h
  obtain ⟨font, hfont⟩ := exists_findBare? hfontKey h
  rw [quoteBare, htext]
  cases text with
  | some found => exact ⟨_, rfl⟩
  | none =>
    simp only [Option.bind_eq_bind, Option.bind_some, hfont]
    cases font <;> exact ⟨_, rfl⟩

private theorem exists_repeatRepair {repair : List Char → Option (Option (List Char))} {P : List Char → Prop}
    (hrepair : ∀ s, P s → ∃ next, repair s = some next) (hkeep : ∀ s r, P s → repair s = some (some r) → P r)
    (n : Nat) (hs : P s) : ∃ r, repeatRepair repair n s = some r ∧ P r := by
  induction n generalizing s with
  | zero => exact ⟨s, rfl, hs⟩
  | succ n ih =>
    obtain ⟨next, hnext⟩ := hrepair s hs
    rw [repeatRepair, hnext]
    cases next with
    | none => exact ⟨s, rfl, hs⟩
    | some r => exact ih (hkeep s r hs hnext)

/-- Text whose label holds no `=` can be sanitized, and its label stays. -/
theorem exists_sanitize?_of_label (h : '=' ∉ (splitLabel s).2) :
    ∃ r, sanitize? s = some r ∧ (splitLabel r).2 = (splitLabel s).2 := by
  have hkeep {repair : List Char → Option (Option (List Char))}
      (hedits : ∀ s r, repair s = some (some r) → Edits s r) (t r : List Char)
      (ht : (splitLabel t).2 = (splitLabel s).2) (hr : repair t = some (some r)) :
      (splitLabel r).2 = (splitLabel s).2 := (hedits t r hr).label_eq.trans ht
  obtain ⟨replaced, hreplaced, hlabel⟩ := exists_repeatRepair
    (fun t ht => exists_replaceFontFile (by rwa [ht])) (hkeep fun _ _ => edits_of_replaceFontFile) mostRepairs rfl
  obtain ⟨closed, hclosed, hlabel⟩ := exists_repeatRepair
    (fun t _ => exists_closeQuote t) (hkeep fun _ _ => edits_of_closeQuote) mostRepairs hlabel
  obtain ⟨quoted, hquoted, hlabel⟩ := exists_repeatRepair
    (fun t ht => exists_quoteBare (by rwa [ht])) (hkeep fun _ _ => edits_of_quoteBare) mostRepairs hlabel
  refine ⟨quoted, ?_, hlabel⟩
  simp only [sanitize?, hreplaced, hclosed, hquoted, Option.bind_eq_bind, Option.bind_some]

end OpenCaptions.Filter
