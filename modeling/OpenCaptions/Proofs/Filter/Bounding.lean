import OpenCaptions.Proofs.Filter.Options
import OpenCaptions.Proofs.Filter.Sanitizing

/-!
How many repairs a text can take, whatever it holds. A font file that gives way takes its name with it, so as many
repairs are enough as there are such names in the text. Putting quotes around a value may uncover or hide options behind
it but none in front of it, so three repairs at most settle the first text and the first font.
-/
namespace OpenCaptions.Filter

variable {key s u w rest label : List Char}

def IsLabel (label : List Char) : Prop :=
  label = [] ∨ ∃ name, label = '[' :: name ++ [']'] ∧ '[' ∉ name ∧ '\'' ∉ name

theorem splitLabel_label {name : List Char} (hopen : '[' ∉ name) (hquote : '\'' ∉ name) (s : List Char) :
    splitLabel (s ++ ('[' :: name ++ [']'])) = (s, '[' :: name ++ [']']) := by
  have hsplit : Text.splitLast? (· == '[') (s ++ '[' :: name) = some (s, name) :=
    Text.splitLast?_append (by decide) s fun c hc => beq_false_of_ne (by rintro rfl; exact hopen hc)
  have hassoc : s ++ ('[' :: name ++ [']']) = s ++ '[' :: name ++ [']'] := by simp
  rw [hassoc, splitLabel, if_pos List.getLast?_concat, List.dropLast_concat, hsplit]
  simp [hquote]

/-- A label is cut off the text, and it has the form of a label. -/
theorem splitLabel_spec (s : List Char) :
    (splitLabel s).1 ++ (splitLabel s).2 = s ∧ IsLabel (splitLabel s).2 := by
  have hnone : (s, ([] : List Char)).1 ++ (s, ([] : List Char)).2 = s ∧ IsLabel (s, ([] : List Char)).2 :=
    ⟨List.append_nil s, .inl rfl⟩
  by_cases hlast : s.getLast? = some ']'
  · obtain ⟨front, rfl⟩ := List.getLast?_eq_some_iff.1 hlast
    rw [splitLabel, if_pos hlast, List.dropLast_concat]
    cases hsplit : Text.splitLast? (· == '[') front with
    | none => exact hnone
    | some parts =>
      obtain ⟨before, name⟩ := parts
      obtain ⟨c, hc, rfl, hname⟩ := Text.splitLast?_eq_some_iff.1 hsplit
      obtain rfl : c = '[' := by simpa using hc
      by_cases hquote : '\'' ∈ name
      · simpa [hquote] using hnone
      · have hopen : '[' ∉ name := fun hm => by simpa using hname '[' hm
        simp only [hquote, if_false]
        exact ⟨by simp, .inr ⟨name, rfl, hopen, hquote⟩⟩
  · rw [splitLabel, if_neg hlast]
    exact hnone

theorem IsLabel.startsQuoted (h : IsLabel label) : startsQuoted label = false := by
  rcases h with rfl | ⟨name, rfl, -, -⟩ <;> rfl

private theorem exists_append_of_quote_not_mem {front : List Char} (h : w ++ '\'' :: rest = front ++ label)
    (hq : '\'' ∉ label) : ∃ more, rest = more ++ label := by
  rw [← List.singleton_append, ← List.append_assoc, List.append_eq_append_iff] at h
  rcases h with ⟨more, -, hrest⟩ | ⟨more, hw, hlabel⟩
  · exact ⟨more, hrest⟩
  · cases hm : more.getLast? with
    | none =>
      rw [List.getLast?_eq_none_iff.1 hm] at hlabel
      exact ⟨[], hlabel.symm⟩
    | some c =>
      have hlast := congrArg List.getLast? hw
      rw [List.getLast?_concat, List.getLast?_append, hm] at hlast
      obtain rfl : '\'' = c := by simpa using hlast
      exact absurd (hlabel ▸ List.mem_append_left rest (List.mem_of_getLast? hm)) hq

/-- Text behind a quote has the label that it has behind anything else. -/
theorem splitLabel_behind_quote (h : (splitLabel (u ++ (rest ++ label))).2 = label) (w : List Char) :
    (splitLabel (w ++ '\'' :: (rest ++ label))).2 = label := by
  have hlabel := (splitLabel_spec (u ++ (rest ++ label))).2
  rw [h] at hlabel
  rcases hlabel with rfl | ⟨name, rfl, hopen, hquote⟩
  · rw [List.append_nil] at h ⊢
    obtain ⟨happend, hfound⟩ := splitLabel_spec (w ++ '\'' :: rest)
    rcases hfound with hnone | ⟨name, hsome, hopen, hquote⟩
    · exact hnone
    · -- The label lies behind the quote, so it is a label of the other text.
      rw [hsome] at happend
      obtain ⟨more, rfl⟩ := exists_append_of_quote_not_mem happend.symm (by simpa using hquote)
      rw [← List.append_assoc, splitLabel_label hopen hquote] at h
      cases h
  · rw [← List.cons_append, ← List.append_assoc, splitLabel_label hopen hquote]

theorem find?_eq_some_none_iff : find? key s = some none ↔ findFrom? key {} s = none := by
  have hsearch : findOption? key false false false s = findFrom? key {} s := rfl
  rw [find?, hsearch]
  cases findFrom? key {} s with
  | none => simp
  | some found =>
    simp only [reduceCtorEq, iff_false]
    split <;> simp

/-- The option that a repair works on is found by the search, and what is behind it ends in the label. -/
theorem find?_eq_some_some_iff {before value : List Char} (hk : key ∈ repairedKeys) :
    find? key s = some (some ⟨before, value, label⟩) ↔
      label = (splitLabel s).2 ∧ findFrom? key {} s = some (before, value ++ label) := by
  have hsearch : findOption? key false false false s = findFrom? key {} s := rfl
  rw [find?, hsearch]
  cases hf : findFrom? key {} s with
  | none => simp
  | some found =>
    obtain ⟨front, behind⟩ := found
    have hlabel : (splitLabel s).2 <:+ s := ⟨(splitLabel s).1, (splitLabel_spec s).1⟩
    have hbehind : behind <:+ s := by
      obtain ⟨rfl, -, -⟩ := (findFrom?_eq_some_iff hk).1 hf
      exact ⟨front ++ (key ++ ['=']), by simp⟩
    simp only [Option.some.injEq, Prod.mk.injEq]
    split
    · rename_i hlt
      simp only [reduceCtorEq, false_iff, not_and]
      rintro rfl - rfl
      rw [List.length_append] at hlt
      omega
    · rename_i hle
      obtain ⟨value', rfl⟩ := List.suffix_of_suffix_length_le hlabel hbehind (Nat.le_of_not_lt hle)
      rw [List.length_append, Nat.add_sub_cancel, List.take_left']
      · constructor
        · intro h
          cases h
          exact ⟨rfl, rfl, rfl⟩
        · rintro ⟨rfl, rfl, h⟩
          rw [List.append_cancel_right h]
      · rfl

/-- A run of repairs: what each repair brings one step nearer holds when no repair is left. -/
theorem of_repeatRepair {repair : List Char → Option (Option (List Char))} {P : Nat → List Char → Prop}
    {Q : List Char → Prop} (hstep : ∀ n s s', repair s = some (some s') → P (n + 1) s → P n s')
    (hdone : ∀ s, repair s = some none → Q s) (hzero : ∀ s, P 0 s → Q s) {n : Nat} {r : List Char}
    (hP : P n s) (h : repeatRepair repair n s = some r) : Q r := by
  induction n generalizing s with
  | zero =>
    obtain rfl : s = r := by simpa [repeatRepair] using h
    exact hzero s hP
  | succ n ih =>
    rw [repeatRepair] at h
    cases hrepair : repair s with
    | none =>
      rw [hrepair] at h
      cases h
    | some next =>
      rw [hrepair] at h
      cases next with
      | none =>
        obtain rfl : s = r := by simpa using h
        exact hdone s hrepair
      | some next => exact ih (hstep n s next hrepair hP) h

theorem append_of_splitUnescaped? {marks : Char → Bool} {escaped : Bool} {before after : List Char}
    (h : splitUnescaped? marks escaped s = some (before, after)) : before ++ after = s := by
  induction s generalizing escaped before with
  | nil => cases h
  | cons c s ih =>
    rw [splitUnescaped?] at h
    split at h
    · cases h
      rfl
    · obtain ⟨⟨front, rest⟩, hsplit, heq⟩ := Option.map_eq_some_iff.1 h
      cases heq
      rw [List.cons_append, ih hsplit]

theorem behindValue_suffix (s : List Char) : behindValue s <:+ s := by
  have hbare (s : List Char) : (splitBare s).2 <:+ s := by
    rw [splitBare]
    cases hsplit : splitUnescaped? (fun c => c == ':' || c == ',') false s with
    | none => exact List.nil_suffix
    | some parts => exact ⟨parts.1, append_of_splitUnescaped? hsplit⟩
  unfold behindValue
  split
  · rename_i inside
    cases hoption : splitAtOption false inside with
    | mk value rest =>
      have hinside := splitAtOption_append false inside
      rw [hoption] at hinside
      rw [← hinside]
      simp only
      cases hsplit : splitUnescaped? (· == '\'') false value with
      | none => exact ⟨'\'' :: value, by simp⟩
      | some parts =>
        have hvalue := append_of_splitUnescaped? hsplit
        rw [← hvalue]
        refine ⟨'\'' :: (parts.1 ++ parts.2.take 1), ?_⟩
        rw [List.cons_append, List.append_assoc, ← List.append_assoc (parts.2.take 1), List.take_append_drop,
          ← List.append_assoc]
  · exact hbare s

/-- How often the name of the option for a font file stands in a text, between quotes or not. -/
def fileMentions : List Char → Nat
  | [] => 0
  | c :: rest => fileMentions rest + if (optionAt? (c :: rest)).map Prod.fst = some fontFileKey then 1 else 0

theorem fileMentions_append (h : Apart w rest) : fileMentions (w ++ rest) = fileMentions w + fileMentions rest := by
  induction w with
  | nil => simp [fileMentions]
  | cons c w ih =>
    have ho := optionAt?_append (List.cons_ne_nil c w) h
    have hname : (optionAt? (c :: (w ++ rest))).map Prod.fst = (optionAt? (c :: w)).map Prod.fst := by
      rw [← List.cons_append, ho, Option.map_map]
      rfl
    rw [List.cons_append, fileMentions, fileMentions, hname, ih h.of_cons]
    omega

private theorem fileMentions_le_of_suffix (h : w <:+ s) : fileMentions w ≤ fileMentions s := by
  obtain ⟨front, rfl⟩ := h
  induction front with
  | nil => exact le_rfl
  | cons c front ih =>
    rw [List.cons_append, fileMentions]
    omega

theorem exists_of_replaceFontFile {r : List Char} (h : replaceFontFile s = some (some r)) :
    ∃ found, find? fontFileKey s = some (some found) ∧
      r = found.before ++ standardFont ++ behindValue found.value ++ found.label := by
  rw [replaceFontFile, Option.bind_eq_bind, Option.bind_eq_some_iff] at h
  obtain ⟨found, hfound, h⟩ := h
  cases found with
  | none => cases h
  | some found =>
    cases h
    exact ⟨found, hfound, rfl⟩

/-- A repair of a font file takes its name away and brings no other. -/
theorem fileMentions_lt_of_replaceFontFile {r : List Char} (h : replaceFontFile s = some (some r)) :
    fileMentions r < fileMentions s := by
  obtain ⟨⟨before, value, label⟩, hf, rfl⟩ := exists_of_replaceFontFile h
  have hk : fontFileKey ∈ repairedKeys := by decide
  obtain ⟨-, hsome⟩ := (find?_eq_some_some_iff hk).1 hf
  obtain ⟨hs, hopen, -⟩ := (findFrom?_eq_some_iff hk).1 hsome
  have hnew : fileMentions (standardFont ++ (behindValue value ++ label)) =
      fileMentions (behindValue value ++ label) := by
    have hlast : ∀ c ∈ standardFont.getLast?, c.isLower = false := by
      have hquote : standardFont.getLast? = some '\'' := by decide
      rw [hquote]
      rintro c ⟨⟩
      decide
    have hnone : fileMentions standardFont = 0 := by decide
    rw [fileMentions_append (.inl hlast), hnone, Nat.zero_add]
  have hold : fileMentions (value ++ label) < fileMentions (fontFileKey ++ '=' :: (value ++ label)) := by
    have hname : optionAt? (fontFileKey ++ '=' :: (value ++ label)) = some (fontFileKey, value ++ label) :=
      optionAt?_eq_some_iff.2 ⟨hk, rfl⟩
    obtain ⟨c, key, hkey⟩ := List.exists_cons_of_ne_nil (ne_nil_of_mem_repairedKeys hk)
    have hsuffix : value ++ label <:+ key ++ '=' :: (value ++ label) := ⟨key ++ ['='], by simp⟩
    rw [hkey, List.cons_append] at hname ⊢
    rw [fileMentions, hname, ← hkey]
    exact Nat.lt_succ_of_le (fileMentions_le_of_suffix hsuffix)
  have hle : fileMentions (behindValue value ++ label) ≤ fileMentions (value ++ label) := by
    obtain ⟨front, hfront⟩ := behindValue_suffix value
    exact fileMentions_le_of_suffix ⟨front, by rw [← List.append_assoc, hfront]⟩
  simp only [List.append_assoc]
  rw [hs, fileMentions_append (apart_of_isOpen hopen), fileMentions_append (apart_of_isOpen hopen), hnew]
  omega

private theorem key_ne_of_fileMentions {p : Place} (h : fileMentions s = 0) :
    ∀ entry ∈ options p s, entry.key ≠ fontFileKey := by
  induction s generalizing p with
  | nil => simp [options]
  | cons c s ih =>
    rw [fileMentions, Nat.add_eq_zero_iff] at h
    intro entry hm hkey
    rcases mem_options_cons.1 hm with hm | ⟨-, value, hat, -⟩
    · exact ih h.1 entry hm hkey
    · simp [hat, hkey] at h

theorem key_ne_of_replaceFontFile (h : replaceFontFile s = some none) :
    ∀ entry ∈ options {} s, entry.key ≠ fontFileKey := by
  rw [replaceFontFile, Option.bind_eq_bind, Option.bind_eq_some_iff] at h
  obtain ⟨found, hf, h⟩ := h
  cases found with
  | some found => cases h
  | none =>
    have hk : fontFileKey ∈ repairedKeys := by decide
    have hfind := find?_options hk {} s
    rw [find?_eq_some_none_iff.1 hf] at hfind
    simpa using hfind

/-- As many repairs as names of font files leave no font file outside quotes. -/
theorem key_ne_of_repeatRepair {n : Nat} {r : List Char} (hn : fileMentions s ≤ n)
    (h : repeatRepair replaceFontFile n s = some r) : ∀ entry ∈ options {} r, entry.key ≠ fontFileKey := by
  refine @of_repeatRepair s replaceFontFile (fun n s => fileMentions s ≤ n)
    (fun s => ∀ entry ∈ options {} s, entry.key ≠ fontFileKey) ?_ ?_ ?_ n r hn h
  · intro n s s' hrepair hle
    have hlt := fileMentions_lt_of_replaceFontFile hrepair
    omega
  · exact fun s => key_ne_of_replaceFontFile
  · exact fun s hzero => key_ne_of_fileMentions (Nat.le_zero.1 hzero)

/-- Whether the first option with a key, if there is one, has its value between quotes. -/
def Settled (key : List Char) (entries : List Entry) : Prop :=
  ∀ entry, entries.find? (·.key == key) = some entry → entry.isQuoted = true

/-- One repair puts quotes around the first text, or around the first font once the text has them. What is
in front of it stays. -/
inductive Quotes : List Entry → List Entry → Prop
  | text {front rest rest' : List Entry} (hfirst : ∀ entry ∈ front, entry.key ≠ textKey) :
      Quotes (front ++ ⟨textKey, false⟩ :: rest) (front ++ ⟨textKey, true⟩ :: rest')
  | font {front rest rest' : List Entry} (hfirst : ∀ entry ∈ front, entry.key ≠ fontKey)
      (htext : Settled textKey (front ++ ⟨fontKey, false⟩ :: rest)) :
      Quotes (front ++ ⟨fontKey, false⟩ :: rest) (front ++ ⟨fontKey, true⟩ :: rest')

theorem settled_of_findBare? (hk : key ∈ repairedKeys) (h : findBare? key s = some none) :
    Settled key (options {} s) := by
  intro entry hentry
  rw [find?_options hk] at hentry
  obtain ⟨⟨before, behind⟩, hfound, rfl⟩ := Option.map_eq_some_iff.1 hentry
  rw [findBare?, Option.bind_eq_bind, Option.bind_eq_some_iff] at h
  obtain ⟨found, hf, h⟩ := h
  cases found with
  | none =>
    rw [find?_eq_some_none_iff.1 hf] at hfound
    cases hfound
  | some found =>
    obtain ⟨front, value, label⟩ := found
    obtain ⟨-, hsome⟩ := (find?_eq_some_some_iff hk).1 hf
    rw [hfound] at hsome
    cases hsome
    by_cases hq : value.head? = some '\''
    · obtain ⟨value, rfl⟩ := List.head?_eq_some_iff.1 hq
      rfl
    · simp [hq] at h

theorem find?_of_findBare? {found : Found} (h : findBare? key s = some (some found)) :
    find? key s = some (some found) ∧ found.value.head? ≠ some '\'' := by
  rw [findBare?, Option.bind_eq_bind, Option.bind_eq_some_iff] at h
  obtain ⟨found', hfound, h⟩ := h
  cases found' with
  | none => cases h
  | some found' =>
    by_cases hq : found'.value.head? = some '\''
    · simp [hq] at h
    · obtain rfl : found' = found := by simpa [hq] using h
      exact ⟨hfound, hq⟩

/-- What a repair that puts quotes around the first value with a key does to the options. -/
theorem options_quoteValue {found : Found} (hk : key ∈ repairedKeys) (h : findBare? key s = some (some found)) :
    ∃ front rest rest', (∀ entry ∈ front, entry.key ≠ key) ∧
      options {} s = front ++ ⟨key, false⟩ :: rest ∧
      options {} (quoteValue key found) = front ++ ⟨key, true⟩ :: rest' := by
  obtain ⟨hf, hbare⟩ := find?_of_findBare? h
  obtain ⟨before, value, label⟩ := found
  obtain ⟨hlabel, hsome⟩ := (find?_eq_some_some_iff hk).1 hf
  obtain ⟨hs, hopen, hfirst⟩ := (findFrom?_eq_some_iff hk).1 hsome
  have hstarts : startsQuoted (value ++ label) = false := by
    have hl : startsQuoted label = false := hlabel ▸ (splitLabel_spec s).2.startsQuoted
    rw [startsQuoted_append hl, startsQuoted, beq_eq_false_iff_ne]
    exact hbare
  obtain ⟨behind, hbehind⟩ : ∃ behind,
      quoteValue key ⟨before, value, label⟩ = before ++ (key ++ '=' :: '\'' :: behind) :=
    ⟨escapeQuotes false (splitBare value).1 ++ '\'' :: ((splitBare value).2 ++ label), by simp [quoteValue]⟩
  have hold := options_before_key hk hopen (value ++ label)
  have hnew := options_before_key hk hopen ('\'' :: behind)
  rw [← hs, hstarts] at hold
  rw [← hbehind] at hnew
  exact ⟨_, _, _, hfirst, hold, hnew⟩

/-- A repair is made to the first text that lacks quotes, else to such a font, else there is none. -/
theorem quoteBare_cases {next : Option (List Char)} (h : quoteBare s = some next) :
    (∃ found, findBare? textKey s = some (some found) ∧ next = some (quoteValue textKey found)) ∨
      findBare? textKey s = some none ∧
        ((∃ found, findBare? fontKey s = some (some found) ∧ next = some (quoteValue fontKey found)) ∨
          findBare? fontKey s = some none ∧ next = none) := by
  rw [quoteBare, Option.bind_eq_bind, Option.bind_eq_some_iff] at h
  obtain ⟨text, htext, h⟩ := h
  cases text with
  | some found =>
    cases h
    exact .inl ⟨found, htext, rfl⟩
  | none =>
    rw [Option.bind_eq_some_iff] at h
    obtain ⟨font, hfont, h⟩ := h
    cases font with
    | some found =>
      cases h
      exact .inr ⟨htext, .inl ⟨found, hfont, rfl⟩⟩
    | none =>
      cases h
      exact .inr ⟨htext, .inr ⟨hfont, rfl⟩⟩

theorem quotes_of_quoteBare {r : List Char} (h : quoteBare s = some (some r)) :
    Quotes (options {} s) (options {} r) := by
  rcases quoteBare_cases h with ⟨found, hfound, heq⟩ | ⟨htext, ⟨found, hfound, heq⟩ | ⟨-, hnone⟩⟩
  · cases heq
    obtain ⟨front, rest, rest', hfirst, hs, hr⟩ := options_quoteValue (by decide) hfound
    rw [hs, hr]
    exact .text hfirst
  · cases heq
    have hsettled := settled_of_findBare? (by decide) htext
    obtain ⟨front, rest, rest', hfirst, hs, hr⟩ := options_quoteValue (by decide) hfound
    rw [hs] at hsettled
    rw [hs, hr]
    exact .font hfirst hsettled
  · cases hnone

theorem settled_of_quoteBare (h : quoteBare s = some none) :
    Settled textKey (options {} s) ∧ Settled fontKey (options {} s) := by
  rcases quoteBare_cases h with ⟨_, -, hsome⟩ | ⟨htext, ⟨_, -, hsome⟩ | ⟨hfont, -⟩⟩
  · cases hsome
  · cases hsome
  · exact ⟨settled_of_findBare? (by decide) htext, settled_of_findBare? (by decide) hfont⟩

/-- How many repairs may be left: none when both keys are settled, one when a quoted font is in front of
every text, two when the first text is quoted, and never more than three. -/
inductive Within : Nat → List Entry → Prop
  | settled {n : Nat} {entries : List Entry} (htext : Settled textKey entries)
      (hfont : Settled fontKey entries) : Within n entries
  | fontFirst {n : Nat} {front rest : List Entry}
      (hfront : ∀ entry ∈ front, entry.key ≠ textKey ∧ entry.key ≠ fontKey) :
      Within (n + 1) (front ++ ⟨fontKey, true⟩ :: rest)
  | textSettled {n : Nat} {entries : List Entry} (htext : Settled textKey entries) : Within (n + 2) entries
  | any {n : Nat} {entries : List Entry} : Within (n + 3) entries

section

variable {n : Nat} {entries entries' front rest rest' : List Entry} {entry : Entry}

theorem settled_append_cons (entry : Entry) (hfirst : ∀ other ∈ front, other.key ≠ entry.key) :
    Settled entry.key (front ++ entry :: rest) ↔ entry.isQuoted = true := by
  have hfront : front.find? (·.key == entry.key) = none := by simpa using hfirst
  simp [Settled, List.find?_append, hfront]

theorem settled_append_of_mem (hm : entry ∈ front) :
    Settled entry.key (front ++ rest) ↔ Settled entry.key front := by
  have hfront : (front.find? (·.key == entry.key)).isSome := by
    rw [List.find?_isSome]
    exact ⟨entry, hm, by simp⟩
  simp [Settled, List.find?_append, Option.or_of_isSome hfront]

theorem not_settled_bare (hfirst : ∀ other ∈ front, other.key ≠ key) :
    ¬ Settled key (front ++ ⟨key, false⟩ :: rest) := by
  intro h
  have hquoted : false = true := (settled_append_cons ⟨key, false⟩ hfirst).1 h
  cases hquoted

theorem settled_quoted (hfirst : ∀ other ∈ front, other.key ≠ key) :
    Settled key (front ++ ⟨key, true⟩ :: rest) :=
  (settled_append_cons ⟨key, true⟩ hfirst).2 rfl

/-- A repair of the first text leaves a quoted font in front of it alone. -/
theorem settled_font_of_text (hfirst : ∀ entry ∈ front, entry.key ≠ fontKey) {front' behind : List Entry}
    (h : front ++ ⟨fontKey, true⟩ :: behind = front' ++ ⟨textKey, false⟩ :: rest)
    (htext : ∀ entry ∈ front, entry.key ≠ textKey) :
    Settled fontKey (front' ++ ⟨textKey, true⟩ :: rest') := by
  rcases List.append_eq_append_iff.1 h with ⟨more, rfl, hmore⟩ | ⟨more, rfl, hmore⟩
  · cases more with
    | nil => simp [textKey, fontKey] at hmore
    | cons entry more =>
      rw [List.cons_append, List.cons.injEq] at hmore
      obtain ⟨rfl, -⟩ := hmore
      rw [List.append_assoc, List.cons_append]
      exact settled_quoted hfirst
  · cases more with
    | nil => simp [textKey, fontKey] at hmore
    | cons entry more =>
      rw [List.cons_append, List.cons.injEq] at hmore
      exact absurd (hmore.1 ▸ rfl) (htext entry (by simp))

/-- Once the first text is quoted, a repair of the first font settles both or puts a font first. -/
theorem within_of_font (hfirst : ∀ entry ∈ front, entry.key ≠ fontKey)
    (htext : Settled textKey (front ++ ⟨fontKey, false⟩ :: rest)) :
    Within (n + 1) (front ++ ⟨fontKey, true⟩ :: rest') := by
  by_cases hm : ∃ entry ∈ front, entry.key = textKey
  · obtain ⟨entry, hm, hkey⟩ := hm
    rw [← hkey, settled_append_of_mem hm] at htext
    have htext' : Settled textKey (front ++ ⟨fontKey, true⟩ :: rest') := by
      rw [← hkey, settled_append_of_mem hm]
      exact htext
    exact .settled htext' (settled_quoted hfirst)
  · exact .fontFirst fun entry he => ⟨fun hkey => hm ⟨entry, he, hkey⟩, hfirst entry he⟩

/-- A repair brings the end nearer. -/
theorem Quotes.within (h : Quotes entries entries') (hw : Within (n + 1) entries) : Within n entries' := by
  cases h with
  | text hfirst =>
    generalize hl : _ ++ _ :: _ = old at hw
    cases hw with
    | settled htext hfont => exact absurd (hl ▸ htext) (not_settled_bare hfirst)
    | fontFirst hfront =>
      refine .settled (settled_quoted hfirst) ?_
      exact settled_font_of_text (fun entry hm => (hfront entry hm).2) hl.symm fun entry hm => (hfront entry hm).1
    | textSettled htext => exact absurd (hl ▸ htext) (not_settled_bare hfirst)
    | any => exact .textSettled (settled_quoted hfirst)
  | font hfirst htext =>
    generalize hl : _ ++ _ :: _ = old at hw
    cases hw with
    | settled _ hfont => exact absurd (hl ▸ hfont) (not_settled_bare hfirst)
    | @fontFirst _ _ behind hfront =>
      have hfont : Settled fontKey (_ ++ ⟨fontKey, true⟩ :: behind) :=
        settled_quoted fun entry hm => (hfront entry hm).2
      exact absurd (hl ▸ hfont) (not_settled_bare hfirst)
    | textSettled _ => exact within_of_font hfirst htext
    | any => exact within_of_font hfirst htext

end

theorem settled_of_repeatRepair {n : Nat} {r : List Char} (hw : Within n (options {} s))
    (h : repeatRepair quoteBare n s = some r) : Settled textKey (options {} r) ∧ Settled fontKey (options {} r) := by
  refine @of_repeatRepair s quoteBare (fun n s => Within n (options {} s))
    (fun s => Settled textKey (options {} s) ∧ Settled fontKey (options {} s)) ?_ ?_ ?_ n r hw h
  · exact fun n s s' hrepair hw => (quotes_of_quoteBare hrepair).within hw
  · exact fun s => settled_of_quoteBare
  · intro s hw
    cases hw with
    | settled htext hfont => exact ⟨htext, hfont⟩

/-- Sanitizing puts quotes around the first text and the first font of any text that it gives an answer for. -/
theorem settled_of_sanitize? {r : List Char} (h : sanitize? s = some r) :
    Settled textKey (options {} r) ∧ Settled fontKey (options {} r) := by
  simp only [sanitize?, Option.bind_eq_bind, Option.bind_eq_some_iff] at h
  obtain ⟨replaced, -, closed, -, h⟩ := h
  have hw : Within mostRepairs (options {} closed) := .any
  exact settled_of_repeatRepair hw h

end OpenCaptions.Filter
