import OpenCaptions.Proofs.Filter.Settings

/-!
What sanitizing leaves undone. In a text whose options can be told apart each file of a font gives way to the
standard font, the first text and the first font get quotes, and the options behind them stay as they are.
-/
namespace OpenCaptions.Filter

/-- Text of filters taken apart into its repaired options, what is behind them and the label. -/
structure Segment where
  settings : List Setting
  tail : List Char
  label : List Char

variable {segment : Segment} {settings pre post : List Setting} {o o' : Setting} {key rest tail label : List Char}

namespace Segment

def chars (segment : Segment) : List Char := written segment.settings segment.tail ++ segment.label

/-- Options that can be told apart, no quote open at the end, and the label that repairs see. -/
structure IsTidy (segment : Segment) : Prop where
  settings : ∀ o ∈ segment.settings, o.IsTidy
  parted : Parted segment.tail segment.settings
  free : options {} (segment.tail ++ segment.label) = []
  even : endsQuoted false false (segment.tail ++ segment.label) = false
  label : (splitLabel segment.chars).2 = segment.label

instance (segment : Segment) : Decidable segment.IsTidy :=
  decidable_of_iff ((∀ o ∈ segment.settings, o.IsTidy) ∧ Parted segment.tail segment.settings ∧
      options {} (segment.tail ++ segment.label) = [] ∧
      endsQuoted false false (segment.tail ++ segment.label) = false ∧
      (splitLabel segment.chars).2 = segment.label)
    ⟨fun h => ⟨h.1, h.2.1, h.2.2.1, h.2.2.2.1, h.2.2.2.2⟩,
      fun h => ⟨h.settings, h.parted, h.free, h.even, h.label⟩⟩

namespace IsTidy

theorem isLabel (h : segment.IsTidy) : IsLabel segment.label := h.label ▸ (splitLabel_spec segment.chars).2

theorem options_chars (h : segment.IsTidy) : options {} segment.chars = segment.settings.map Setting.toEntry := by
  rw [chars, options_written h.settings h.parted h.isLabel, h.free, List.append_nil]

theorem closeQuote_chars (h : segment.IsTidy) : closeQuote segment.chars = some none := by
  obtain ⟨he, hq⟩ := @after_written segment.settings {} h.settings rfl rfl
  have heven : endsQuoted false false segment.chars = false := by
    have hquoted := Place.quoted_after {} segment.chars
    rw [← hquoted, chars, written, List.append_assoc, Place.after_append, Place.quoted_after, he, hq, h.even]
  rw [closeQuote, heven]
  rfl

theorem replace (h : (⟨pre ++ o :: post, tail, label⟩ : Segment).IsTidy) (ho : o'.IsTidy)
    (hlead : o'.lead = o.lead) (hq : o'.isQuoted = true) :
    (⟨pre ++ o' :: post, tail, label⟩ : Segment).IsTidy where
  settings := by
    have hs := h.settings
    simp only [List.forall_mem_append, List.forall_mem_cons] at hs ⊢
    exact ⟨hs.1, ho, hs.2.2⟩
  parted := by
    have hold := (parted_append_cons (Setting.lead_ne_nil (h.settings o (by simp)))).1 h.parted
    rw [← hlead] at hold
    exact (parted_append_cons (Setting.lead_ne_nil ho)).2 ⟨hold.1, by simp [hq], hold.2.2⟩
  free := h.free
  even := h.even
  label := by
    have hold := h.label
    rw [chars, written_append_cons] at hold ⊢
    have hnew := @splitLabel_behind_quote (written pre o.lead ++ (o.key ++ '=' :: o.value))
      (written post tail) label (by simpa using hold) (written pre o'.lead ++ (o'.key ++ '=' :: '\'' :: o'.text))
    simpa [Setting.value, hq] using hnew

theorem find?_chars (h : (⟨pre ++ o :: post, tail, label⟩ : Segment).IsTidy)
    (hfirst : ∀ other ∈ pre, other.key ≠ o.key) :
    find? o.key (⟨pre ++ o :: post, tail, label⟩ : Segment).chars =
      some (some ⟨written pre o.lead, o.value ++ written post tail, label⟩) := by
  have hs := h.settings
  simp only [List.forall_mem_append, List.forall_mem_cons] at hs
  obtain ⟨hpre, ho, -⟩ := hs
  have hlead := Setting.lead_ne_nil ho
  have hopen : (Place.after {} (written pre o.lead)).isOpen = true := by
    obtain ⟨he, hq⟩ := @after_written pre {} hpre rfl rfl
    rw [written, Place.after_append, @Place.after_congr _ {} o.lead he hq hlead]
    exact ho.opens
  have hparted := ((parted_append_cons hlead).1 h.parted).1
  have hbefore : options {} (written pre o.lead) = pre.map Setting.toEntry := by
    have hbefore := options_written hpre hparted (.inl rfl)
    rwa [List.append_nil, List.append_nil, ho.free, List.append_nil] at hbefore
  rw [find?_eq_some_some_iff ho.key, findFrom?_eq_some_iff ho.key, hbefore]
  refine ⟨h.label.symm, ?_, hopen, by simpa using hfirst⟩
  simp [chars, written_append_cons]

theorem find?_chars_of_ne (h : segment.IsTidy) (hk : key ∈ repairedKeys)
    (hnone : ∀ o ∈ segment.settings, o.key ≠ key) : find? key segment.chars = some none := by
  have hfound := find?_options hk {} segment.chars
  have hnone : (segment.settings.map Setting.toEntry).find? (·.key == key) = none := by simpa using hnone
  rw [h.options_chars, hnone] at hfound
  exact find?_eq_some_none_iff.2 (Option.map_eq_none_iff.1 hfound.symm)

theorem replaceFontFile_chars (h : (⟨pre ++ o :: post, tail, label⟩ : Segment).IsTidy)
    (hfirst : ∀ other ∈ pre, other.key ≠ o.key) (hkey : o.key = fontFileKey) :
    replaceFontFile (⟨pre ++ o :: post, tail, label⟩ : Segment).chars =
        some (some (⟨pre ++ o.standardized :: post, tail, label⟩ : Segment).chars) := by
  have ho := h.settings o (by simp)
  have hparted := ((parted_append_cons (Setting.lead_ne_nil ho)).1 h.parted).2
  have hbehind := Setting.behindValue_append ho hkey hparted.1
  have hfound := h.find?_chars hfirst
  rw [hkey] at hfound
  have hfont : standardFont = fontKey ++ '=' :: '\'' :: "Arial".toList ++ ['\''] := by decide
  have hnew : (⟨pre ++ o.standardized :: post, tail, label⟩ : Segment).chars =
      written pre o.lead ++ standardFont ++ written post tail ++ label := by
    simp [chars, written_append_cons, Setting.standardized, hkey, Setting.value, hfont]
  rw [replaceFontFile, hfound, hnew]
  simp only [Option.bind_eq_bind, Option.bind_some, hbehind]
  rfl

end IsTidy

def standardized (segment : Segment) : Segment :=
  { segment with settings := segment.settings.map Setting.standardized }

end Segment

theorem Setting.IsTidy.standardized (h : o.IsTidy) : o.standardized.IsTidy := by
  by_cases hkey : o.key = fontFileKey
  · rw [Setting.standardized, if_pos hkey]
    have hk : fontKey ∈ repairedKeys := by decide
    have hname : isSealed "Arial".toList = true ∧ (splitAtOption false "Arial".toList).2 = [] := by decide
    exact ⟨hk, h.free, h.opens, fun _ => hname.1, fun _ _ => hname.2, fun hq => by cases hq⟩
  · rwa [Setting.standardized, if_neg hkey]

theorem Setting.standardized_key_ne (o : Setting) : o.standardized.key ≠ fontFileKey := by
  by_cases hkey : o.key = fontFileKey
  · rw [Setting.standardized, if_pos hkey]
    change fontKey ≠ fontFileKey
    decide
  · rwa [Setting.standardized, if_neg hkey]

theorem first_setting (key : List Char) (settings : List Setting) :
    (∀ o ∈ settings, o.key ≠ key) ∨
    ∃ pre o post, settings = pre ++ o :: post ∧ o.key = key ∧ ∀ other ∈ pre, other.key ≠ key := by
  cases hf : settings.find? (·.key == key) with
  | none => exact .inl (by simpa using hf)
  | some o =>
    obtain ⟨hkey, pre, post, rfl, hpre⟩ := List.find?_eq_some_iff_append.1 hf
    exact .inr ⟨pre, o, post, rfl, by simpa using hkey, by simpa using hpre⟩

/-- The repairs of font files reach each of them. -/
theorem Segment.IsTidy.repeatRepair_replaceFontFile {n : Nat} (h : segment.IsTidy)
    (hn : segment.settings.countP (·.key == fontFileKey) ≤ n) :
    repeatRepair replaceFontFile n segment.chars = some segment.standardized.chars ∧
      segment.standardized.IsTidy := by
  have hdone {segment : Segment} (hnone : ∀ o ∈ segment.settings, o.key ≠ fontFileKey) :
      segment.standardized = segment := by
    have hmap : segment.settings.map Setting.standardized = segment.settings :=
      (List.map_congr_left fun o hm => if_neg (hnone o hm)).trans (List.map_id _)
    rw [Segment.standardized, hmap]
  induction n generalizing segment with
  | zero =>
    have hnone : ∀ o ∈ segment.settings, o.key ≠ fontFileKey := by simpa using hn
    rw [hdone hnone]
    exact ⟨rfl, h⟩
  | succ n ih =>
    obtain ⟨settings, tail, label⟩ := segment
    rcases first_setting fontFileKey settings with hnone | ⟨pre, o, post, rfl, hkey, hfirst⟩
    · have hrepair : replaceFontFile (⟨settings, tail, label⟩ : Segment).chars = some none := by
        simp [replaceFontFile, h.find?_chars_of_ne (by decide) hnone]
      rw [hdone hnone, repeatRepair, hrepair]
      exact ⟨rfl, h⟩
    · have ho := h.settings o (by simp)
      have hnext := h.replace ho.standardized (by simp [Setting.standardized, hkey])
        (by simp [Setting.standardized, hkey])
      have hcount : (pre ++ o.standardized :: post).countP (·.key == fontFileKey) ≤ n := by
        have hne := o.standardized_key_ne
        simp only [List.countP_append, List.countP_cons, hkey, beq_self_eq_true, if_true] at hn
        simp only [List.countP_append, List.countP_cons, beq_iff_eq, hne, if_false]
        omega
      have hsame : (⟨pre ++ o.standardized :: post, tail, label⟩ : Segment).standardized =
          (⟨pre ++ o :: post, tail, label⟩ : Segment).standardized := by
        have htwice : o.standardized.standardized = o.standardized := if_neg o.standardized_key_ne
        simp [Segment.standardized, htwice]
      rw [repeatRepair, h.replaceFontFile_chars (hkey ▸ hfirst) hkey, ← hsame]
      exact ih hnext hcount

namespace Setting

@[simp] theorem quote_key (o : Setting) : o.quote.key = o.key := by
  unfold quote
  split <;> rfl

@[simp] theorem quote_lead (o : Setting) : o.quote.lead = o.lead := by
  unfold quote
  split <;> rfl

@[simp] theorem quote_isQuoted (o : Setting) : o.quote.isQuoted = true := by
  unfold quote
  split
  · assumption
  · rfl

theorem quote_of_isQuoted (h : o.isQuoted = true) : o.quote = o := if_pos h

theorem IsTidy.quote (h : o.IsTidy) (hkey : o.key ≠ fontFileKey) : o.quote.IsTidy where
  key := by simpa using h.key
  free := by simpa using h.free
  opens := by simpa using h.opens
  quoted := by
    intro _
    cases hq : o.isQuoted with
    | true => simpa [quote_of_isQuoted hq] using h.quoted hq
    | false => simpa [Setting.quote, hq] using (h.bare hq).isSealed_escapeQuotes
  whole := by
    intro _ hfile
    exact absurd (o.quote_key ▸ hfile) hkey
  bare := by simp

end Setting

def quoteFirst (key : List Char) : List Setting → List Setting
  | [] => []
  | o :: rest => if o.key = key then o.quote :: rest else o :: quoteFirst key rest

theorem quoteFirst_of_ne (h : ∀ o ∈ settings, o.key ≠ key) : quoteFirst key settings = settings := by
  induction settings with
  | nil => rfl
  | cons o rest ih =>
    rw [List.forall_mem_cons] at h
    rw [quoteFirst, if_neg h.1, ih h.2]

theorem quoteFirst_append_cons (hfirst : ∀ other ∈ pre, other.key ≠ key) (hkey : o.key = key) :
    quoteFirst key (pre ++ o :: post) = pre ++ o.quote :: post := by
  induction pre with
  | nil => simp [quoteFirst, hkey]
  | cons first pre ih =>
    rw [List.forall_mem_cons] at hfirst
    rw [List.cons_append, quoteFirst, if_neg hfirst.1, ih hfirst.2, List.cons_append]

/-- The first value with a key has quotes then. -/
theorem settled_quoteFirst (key : List Char) (settings : List Setting) :
    Settled key ((quoteFirst key settings).map Setting.toEntry) := by
  rcases first_setting key settings with hnone | ⟨pre, o, post, rfl, rfl, hfirst⟩
  · rw [quoteFirst_of_ne hnone]
    intro entry hentry
    obtain ⟨o, hm, rfl⟩ := List.mem_map.1 (List.mem_of_find?_eq_some hentry)
    exact absurd (by simpa using List.find?_some hentry) (hnone o hm)
  · have hsettled := @settled_append_cons (pre.map Setting.toEntry) (post.map Setting.toEntry)
      o.quote.toEntry (by simpa using hfirst)
    rw [quoteFirst_append_cons hfirst rfl, List.map_append, List.map_cons]
    simpa using hsettled

theorem find?_quoteFirst {other : List Char} (hne : other ≠ key) (settings : List Setting) :
    ((quoteFirst other settings).map Setting.toEntry).find? (·.key == key) =
      (settings.map Setting.toEntry).find? (·.key == key) := by
  induction settings with
  | nil => rfl
  | cons o rest ih =>
    rw [quoteFirst]
    split
    · rename_i hkey
      have hno : (o.key == key) = false := by simpa [hkey] using hne
      simp [hno]
    · simp only [List.map_cons, List.find?_cons, ih]

namespace Segment

def quoteFirst (key : List Char) (segment : Segment) : Segment :=
  { segment with settings := Filter.quoteFirst key segment.settings }

def sanitized (segment : Segment) : Segment := (segment.standardized.quoteFirst textKey).quoteFirst fontKey

namespace IsTidy

theorem quoteFirst (h : segment.IsTidy) (hkey : key ≠ fontFileKey) : (segment.quoteFirst key).IsTidy := by
  obtain ⟨settings, tail, label⟩ := segment
  rcases first_setting key settings with hnone | ⟨pre, o, post, rfl, rfl, hfirst⟩
  · rw [Segment.quoteFirst, quoteFirst_of_ne hnone]
    exact h
  · rw [Segment.quoteFirst, quoteFirst_append_cons hfirst rfl]
    exact h.replace ((h.settings o (by simp)).quote hkey) o.quote_lead o.quote_isQuoted

/-- A search for a value without quotes finds the one that gets quotes, if there is one. -/
theorem findBare?_chars (h : segment.IsTidy) (hk : key ∈ repairedKeys) :
    findBare? key segment.chars = some none ∧ segment.quoteFirst key = segment ∨
      ∃ found, findBare? key segment.chars = some (some found) ∧
        quoteValue key found = (segment.quoteFirst key).chars := by
  obtain ⟨settings, tail, label⟩ := segment
  rcases first_setting key settings with hnone | ⟨pre, o, post, rfl, rfl, hfirst⟩
  · have hfound := h.find?_chars_of_ne hk hnone
    refine .inl ⟨by simp [findBare?, hfound], ?_⟩
    rw [Segment.quoteFirst, quoteFirst_of_ne hnone]
  · have hfound := h.find?_chars hfirst
    have ho := h.settings o (by simp)
    have hparted := ((parted_append_cons (Setting.lead_ne_nil ho)).1 h.parted).2
    have hstarts := Setting.startsQuoted_value ho fun hq => (hparted.1 hq).stops (.inl rfl)
    rw [List.append_nil] at hstarts
    rw [Segment.quoteFirst, quoteFirst_append_cons hfirst rfl]
    cases hq : o.isQuoted with
    | true =>
      rw [hq, startsQuoted, beq_iff_eq] at hstarts
      refine .inl ⟨?_, by rw [Setting.quote_of_isQuoted hq]⟩
      simp [findBare?, hfound, hstarts]
    | false =>
      rw [hq, startsQuoted, beq_eq_false_iff_ne] at hstarts
      refine .inr ⟨⟨written pre o.lead, o.value ++ written post tail, label⟩, ?_, ?_⟩
      · rw [findBare?, hfound]
        exact congrArg (fun found => some found) (if_neg hstarts)
      · have hcut := (ho.bare hq).splitBare_append (hparted.1 hq)
        have hvalue : o.value = o.text := by simp [Setting.value, hq]
        have hquote : o.quote.value = '\'' :: escapeQuotes false o.text ++ ['\''] := by
          simp [Setting.value, Setting.quote, hq]
        rw [quoteValue, hvalue, hcut, chars, written_append_cons, hquote]
        simp

private theorem findBare?_of_settled (h : segment.IsTidy) (hk : key ∈ repairedKeys)
    (hs : Settled key (segment.settings.map Setting.toEntry)) : findBare? key segment.chars = some none := by
  rcases h.findBare?_chars hk with ⟨hnone, -⟩ | ⟨found, hfound, -⟩
  · exact hnone
  · obtain ⟨front, rest, rest', hfirst, hold, -⟩ := options_quoteValue hk hfound
    rw [← h.options_chars, hold] at hs
    exact absurd hs (not_settled_bare hfirst)

/-- Once the first text has quotes, the first font gets them and nothing else. -/
theorem repeatRepair_font {n : Nat} (h : segment.IsTidy)
    (htext : Settled textKey (segment.settings.map Setting.toEntry)) :
    repeatRepair quoteBare (n + 1) segment.chars = some (segment.quoteFirst fontKey).chars := by
  have hno := h.findBare?_of_settled (by decide) htext
  have hnext : (segment.quoteFirst fontKey).IsTidy := h.quoteFirst (by decide)
  have htext' : Settled textKey ((segment.quoteFirst fontKey).settings.map Setting.toEntry) := by
    intro entry hentry
    rw [Segment.quoteFirst, find?_quoteFirst (by decide)] at hentry
    exact htext entry hentry
  have hno' := hnext.findBare?_of_settled (by decide) htext'
  have hfont' := hnext.findBare?_of_settled (by decide) (settled_quoteFirst fontKey segment.settings)
  have hdone : quoteBare (segment.quoteFirst fontKey).chars = some none := by simp [quoteBare, hno', hfont']
  have hk : fontKey ∈ repairedKeys := by decide
  rcases h.findBare?_chars hk with ⟨hnone, hsame⟩ | ⟨found, hfound, hvalue⟩
  · rw [hsame] at hdone ⊢
    exact Operation.repeatRepair_of_eq_none hdone _
  · have hstep : quoteBare segment.chars = some (some (segment.quoteFirst fontKey).chars) := by
      simp [quoteBare, hno, hfound, hvalue]
    rw [repeatRepair, hstep]
    exact Operation.repeatRepair_of_eq_none hdone _

private theorem repeatRepair_quoteBare {n : Nat} (h : segment.IsTidy) :
    repeatRepair quoteBare (n + 2) segment.chars =
      some ((segment.quoteFirst textKey).quoteFirst fontKey).chars := by
  have hnext : (segment.quoteFirst textKey).IsTidy := h.quoteFirst (by decide)
  have htext : Settled textKey ((segment.quoteFirst textKey).settings.map Setting.toEntry) :=
    settled_quoteFirst textKey segment.settings
  have hk : textKey ∈ repairedKeys := by decide
  rcases h.findBare?_chars hk with ⟨-, hsame⟩ | ⟨found, hfound, hvalue⟩
  · rw [hsame] at hnext htext ⊢
    exact hnext.repeatRepair_font htext
  · have hstep : quoteBare segment.chars = some (some (segment.quoteFirst textKey).chars) := by
      simp [quoteBare, hfound, hvalue]
    rw [repeatRepair, hstep]
    exact hnext.repeatRepair_font htext

/-- What sanitizing makes of a text whose options can be told apart. -/
theorem sanitize?_chars (h : segment.IsTidy)
    (hn : segment.settings.countP (·.key == fontFileKey) ≤ mostRepairs) :
    sanitize? segment.chars = some segment.sanitized.chars ∧ segment.sanitized.IsTidy := by
  obtain ⟨hfiles, hstandard⟩ := h.repeatRepair_replaceFontFile hn
  have hclose := Operation.repeatRepair_of_eq_none hstandard.closeQuote_chars mostRepairs
  have hquote := @repeatRepair_quoteBare _ 62 hstandard
  have htidy : segment.sanitized.IsTidy := (hstandard.quoteFirst (by decide)).quoteFirst (by decide)
  refine ⟨?_, htidy⟩
  rw [sanitize?, hfiles]
  simp only [Option.bind_eq_bind, Option.bind_some, hclose]
  exact hquote

end IsTidy

end Segment

/-- The options of some kind, after the first option with a key got quotes: that option is among them if
its key is of the kind. -/
theorem filter_quoteFirst (kind : List Char → Bool) (key : List Char) (settings : List Setting) :
    (quoteFirst key settings).filter (fun o => kind o.key) =
      if kind key then quoteFirst key (settings.filter fun o => kind o.key)
      else settings.filter fun o => kind o.key := by
  induction settings with
  | nil => simp [quoteFirst]
  | cons o rest ih =>
    by_cases ho : o.key = key
    · cases hkey : kind key <;> simp [quoteFirst, ho, hkey]
    · cases hkind : kind o.key <;> cases hkey : kind key <;> simp_all [quoteFirst]

theorem forall_isQuoted_quoteFirst (h : ∀ o ∈ settings, o.key = key) :
    (∀ o ∈ quoteFirst key settings, o.isQuoted = true) ↔ ∀ o ∈ settings.tail, o.isQuoted = true := by
  cases settings with
  | nil => simp [quoteFirst]
  | cons o rest => simp [quoteFirst, h o List.mem_cons_self]

theorem quoteFirst_key_ne {other : List Char} (h : ∀ o ∈ settings, o.key ≠ other) :
    ∀ o ∈ quoteFirst key settings, o.key ≠ other := by
  rcases first_setting key settings with hnone | ⟨pre, o, post, rfl, hkey, hfirst⟩
  · rwa [quoteFirst_of_ne hnone]
  · simp only [quoteFirst_append_cons hfirst hkey, List.forall_mem_append, List.forall_mem_cons,
      Setting.quote_key] at h ⊢
    exact h

theorem Setting.standardized_isQuoted (o : Setting) :
    o.standardized.isQuoted = true ↔ o.isQuoted = true ∨ o.key = fontFileKey := by
  by_cases hkey : o.key = fontFileKey <;> simp [standardized, hkey]

theorem Setting.standardized_isText (o : Setting) : (o.standardized.key == textKey) = (o.key == textKey) := by
  by_cases hkey : o.key = fontFileKey
  · rw [standardized, if_pos hkey, hkey]
    rfl
  · rw [standardized, if_neg hkey]

/-- Nothing is left to repair: no option names the file of a font, and each value is between quotes. -/
def IsComplete (s : List Char) : Prop := ∀ entry ∈ options {} s, entry.key ≠ fontFileKey ∧ entry.isQuoted = true

/-- Of the texts only the first may lack quotes, and of the fonts only the first, where fonts given by a
file count as well. -/
def Segment.OnlyFirstsBare (segment : Segment) : Prop :=
  (∀ o ∈ (segment.settings.filter (·.key == textKey)).tail, o.isQuoted = true) ∧
    ∀ o ∈ (segment.settings.filter (·.key != textKey)).tail, o.isQuoted = true ∨ o.key = fontFileKey

theorem Segment.texts_sanitized (segment : Segment) :
    segment.sanitized.settings.filter (·.key == textKey) =
      Filter.quoteFirst textKey (segment.settings.filter (·.key == textKey)) := by
  have hfont settings := (filter_quoteFirst (· == textKey) fontKey settings).trans (if_neg (by decide))
  have htext settings := (filter_quoteFirst (· == textKey) textKey settings).trans (if_pos (by decide))
  have hsame : (segment.settings.map Setting.standardized).filter (·.key == textKey) =
      segment.settings.filter (·.key == textKey) := by
    rw [List.filter_map]
    have hkind : (fun o : Setting => o.key == textKey) ∘ Setting.standardized = (·.key == textKey) :=
      funext Setting.standardized_isText
    rw [hkind]
    refine (List.map_congr_left fun o hm => if_neg ?_).trans (List.map_id _)
    have hkey : o.key = textKey := by simpa using (List.mem_filter.1 hm).2
    rw [hkey]
    decide
  exact (hfont _).trans ((htext _).trans (congrArg _ hsame))

theorem Segment.fonts_sanitized (segment : Segment) :
    segment.sanitized.settings.filter (·.key != textKey) =
      Filter.quoteFirst fontKey ((segment.settings.filter (·.key != textKey)).map Setting.standardized) := by
  have hfont settings := (filter_quoteFirst (· != textKey) fontKey settings).trans (if_pos (by decide))
  have htext settings := (filter_quoteFirst (· != textKey) textKey settings).trans (if_neg (by decide))
  have hkind : (fun o : Setting => o.key != textKey) ∘ Setting.standardized = (·.key != textKey) :=
    funext fun o => congrArg (! ·) o.standardized_isText
  have hsame : (segment.settings.map Setting.standardized).filter (·.key != textKey) =
      (segment.settings.filter (·.key != textKey)).map Setting.standardized := by
    rw [List.filter_map, hkind]
  exact (hfont _).trans (congrArg _ ((htext _).trans hsame))

private theorem Setting.IsTidy.standardized_key (h : o.IsTidy) (hne : o.key ≠ textKey) :
    o.standardized.key = fontKey := by
  by_cases hkey : o.key = fontFileKey
  · rw [Setting.standardized, if_pos hkey]
  · rw [Setting.standardized, if_neg hkey]
    simpa [repairedKeys, hkey, hne] using h.key

instance : DecidablePred Segment.OnlyFirstsBare := fun segment =>
  inferInstanceAs (Decidable ((∀ o ∈ (segment.settings.filter (·.key == textKey)).tail, o.isQuoted = true) ∧
    ∀ o ∈ (segment.settings.filter (·.key != textKey)).tail, o.isQuoted = true ∨ o.key = fontFileKey))

theorem Segment.sanitized_key_ne (segment : Segment) : ∀ o ∈ segment.sanitized.settings, o.key ≠ fontFileKey := by
  have hstandard : ∀ o ∈ segment.standardized.settings, o.key ≠ fontFileKey :=
    List.forall_mem_map.2 fun o _ => o.standardized_key_ne
  exact quoteFirst_key_ne (quoteFirst_key_ne hstandard)

theorem Segment.IsTidy.isComplete_sanitized_iff (h : segment.IsTidy) (hs : segment.sanitized.IsTidy) :
    IsComplete segment.sanitized.chars ↔ segment.OnlyFirstsBare := by
  have hsplit : IsComplete segment.sanitized.chars ↔
      (∀ o ∈ segment.sanitized.settings.filter (·.key == textKey), o.isQuoted = true) ∧
        ∀ o ∈ segment.sanitized.settings.filter (·.key != textKey), o.isQuoted = true := by
    rw [IsComplete, hs.options_chars, List.forall_mem_map]
    simp only [List.mem_filter]
    constructor
    · intro hall
      exact ⟨fun o hm => (hall o hm.1).2, fun o hm => (hall o hm.1).2⟩
    · rintro ⟨htexts, hfonts⟩ o hm
      refine ⟨segment.sanitized_key_ne o hm, ?_⟩
      cases htext : o.key == textKey with
      | true => exact htexts o ⟨hm, htext⟩
      | false => exact hfonts o ⟨hm, by simp [bne, htext]⟩
  rw [hsplit, segment.texts_sanitized, segment.fonts_sanitized, forall_isQuoted_quoteFirst,
    forall_isQuoted_quoteFirst, OnlyFirstsBare]
  · simp [← List.map_tail, Setting.standardized_isQuoted]
  · rw [List.forall_mem_map]
    intro o hm
    have hm := List.mem_filter.1 hm
    exact (h.settings o hm.1).standardized_key (by simpa using hm.2)
  · intro o hm
    simpa using (List.mem_filter.1 hm).2

instance : DecidablePred IsComplete := fun s =>
  inferInstanceAs (Decidable (∀ entry ∈ options {} s, entry.key ≠ fontFileKey ∧ entry.isQuoted = true))

/-- What sanitizing reaches. Of every text that it gives an answer for it quotes the first text and the first
font, and its first pass leaves no font file. Where the options can be told apart nothing else changes, so
the repair is complete exactly if no other value lacks quotes. -/
theorem sanitizing_reaches_firsts (s : List Char) :
    (∀ r, sanitize? s = some r → Settled textKey (options {} r) ∧ Settled fontKey (options {} r)) ∧
    (∀ r, fileMentions s ≤ mostRepairs → repeatRepair replaceFontFile mostRepairs s = some r →
      ∀ entry ∈ options {} r, entry.key ≠ fontFileKey) ∧
    ∀ segment : Segment, segment.chars = s → segment.IsTidy →
      segment.settings.countP (·.key == fontFileKey) ≤ mostRepairs →
      sanitize? s = some segment.sanitized.chars ∧
        (IsComplete segment.sanitized.chars ↔ segment.OnlyFirstsBare) := by
  refine ⟨fun r h => settled_of_sanitize? h, fun r hn h => key_ne_of_repeatRepair hn h, ?_⟩
  rintro segment rfl h hn
  obtain ⟨hsanitized, htidy⟩ := h.sanitize?_chars hn
  exact ⟨hsanitized, h.isComplete_sanitized_iff htidy⟩

def twoTexts : Segment where
  settings := [
    ⟨⟨textKey, false⟩, "[0:v]drawtext=".toList, "a".toList⟩,
    ⟨⟨fontFileKey, true⟩, ":".toList, "C\\:/a.ttf".toList⟩,
    ⟨⟨textKey, true⟩, ",drawtext=".toList, "b".toList⟩,
    ⟨⟨fontKey, true⟩, ":".toList, "Arial".toList⟩]
  tail := ":x='w'".toList
  label := "[v0]".toList

/-- Both repairs are made, and then nothing is left to do. -/
theorem sanitizing_reaches_twoTexts :
    sanitize? twoTexts.chars = some twoTexts.sanitized.chars ∧ IsComplete twoTexts.sanitized.chars ∧
      Settled textKey (options {} twoTexts.sanitized.chars) ∧
      ∀ entry ∈ options {} twoTexts.standardized.chars, entry.key ≠ fontFileKey := by
  have htidy : twoTexts.IsTidy := by decide
  have hfew : twoTexts.settings.countP (·.key == fontFileKey) ≤ mostRepairs := by decide
  have hfirsts : twoTexts.OnlyFirstsBare := by decide
  have hmentions : fileMentions twoTexts.chars ≤ mostRepairs := by decide
  have hreplaced := (htidy.repeatRepair_replaceFontFile hfew).1
  have hreach := sanitizing_reaches_firsts twoTexts.chars
  obtain ⟨hsanitized, hcomplete⟩ := hreach.2.2 twoTexts rfl htidy hfew
  exact ⟨hsanitized, hcomplete.2 hfirsts, (hreach.1 _ hsanitized).1, hreach.2.1 _ hmentions hreplaced⟩

/-- The second of two texts keeps its bare value, and closing the quote of a text uncovers a font file that
the first pass has not seen. -/
theorem incomplete_second_text :
    ((options {} "[0:v]drawtext=text='a',drawtext=text=b[v0]".toList).length ≤ mostRepairs ∧
      sanitize? "[0:v]drawtext=text='a',drawtext=text=b[v0]".toList =
        some "[0:v]drawtext=text='a',drawtext=text=b[v0]".toList ∧
      ⟨textKey, false⟩ ∈ options {} "[0:v]drawtext=text='a',drawtext=text=b[v0]".toList) ∧
    ((options {} "[0:v]drawtext=text='abc:fontfile=x[v0]".toList).length ≤ mostRepairs ∧
      sanitize? "[0:v]drawtext=text='abc:fontfile=x[v0]".toList =
        some "[0:v]drawtext=text='abc':fontfile=x[v0]".toList ∧
      ⟨fontFileKey, false⟩ ∈ options {} "[0:v]drawtext=text='abc':fontfile=x[v0]".toList) := by
  decide

end OpenCaptions.Filter
