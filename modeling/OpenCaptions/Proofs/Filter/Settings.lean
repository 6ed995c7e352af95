import OpenCaptions.Proofs.Filter.Bounding

/-!
Text of filters whose repaired options can be told apart: every quote is closed, and a value without quotes
around it ends where the text goes on with a mark. Such a text is taken apart into its options and what
stands between them. The options that a search finds are the ones it was put together from, and a repair
changes one of them.
-/
namespace OpenCaptions.Filter

/-- An option with its value and what stands in front of it. -/
structure Setting extends Entry where
  lead : List Char
  /-- The value without the quotes around it. -/
  text : List Char

/-- A value that needs quotes: putting them around it hides no option and opens no quote. -/
structure IsBare (text : List Char) : Prop where
  starts : startsQuoted text = false
  guarded : guards (fun c => c == ':' || c == ',') false text = true
  even : endsQuoted false false text = false
  single : '=' ∉ text

instance (text : List Char) : Decidable (IsBare text) :=
  decidable_of_iff (startsQuoted text = false ∧ guards (fun c => c == ':' || c == ',') false text = true ∧
      endsQuoted false false text = false ∧ '=' ∉ text)
    ⟨fun h => ⟨h.1, h.2.1, h.2.2.1, h.2.2.2⟩, fun h => ⟨h.starts, h.guarded, h.even, h.single⟩⟩

namespace Setting

def value (o : Setting) : List Char := if o.isQuoted then '\'' :: o.text ++ ['\''] else o.text

def chars (o : Setting) : List Char := o.lead ++ (o.key ++ '=' :: o.value)

/-- A value between quotes ends at the closing one, and so does the file of a font for a repair. -/
structure IsTidy (o : Setting) : Prop where
  key : o.key ∈ repairedKeys
  free : options {} o.lead = []
  opens : (Place.after {} o.lead).isOpen = true
  quoted : o.isQuoted = true → isSealed o.text = true
  whole : o.isQuoted = true → o.key = fontFileKey → (splitAtOption false o.text).2 = []
  bare : o.isQuoted = false → IsBare o.text

instance (o : Setting) : Decidable o.IsTidy :=
  decidable_of_iff (repairedKeys.contains o.key = true ∧ options {} o.lead = [] ∧ (Place.after {} o.lead).isOpen = true ∧
      (o.isQuoted = true → isSealed o.text = true) ∧
      (o.isQuoted = true → o.key = fontFileKey → (splitAtOption false o.text).2 = []) ∧
      (o.isQuoted = false → IsBare o.text))
    ⟨fun h => ⟨List.contains_iff_mem.1 h.1, h.2.1, h.2.2.1, h.2.2.2.1, h.2.2.2.2.1, h.2.2.2.2.2⟩,
      fun h => ⟨List.contains_iff_mem.2 h.key, h.free, h.opens, h.quoted, h.whole, h.bare⟩⟩

def quote (o : Setting) : Setting :=
  if o.isQuoted then o else { o with isQuoted := true, text := escapeQuotes false o.text }

def standardized (o : Setting) : Setting :=
  if o.key = fontFileKey then { o with key := fontKey, isQuoted := true, text := "Arial".toList } else o

end Setting

def written (settings : List Setting) (tail : List Char) : List Char := settings.flatMap Setting.chars ++ tail

/-- Behind a value without quotes the text ends or goes on with a mark. -/
def Parted (tail : List Char) : List Setting → Prop
  | [] => True
  | o :: rest => (o.isQuoted = false → Ends (written rest tail)) ∧ Parted tail rest

instance : DecidablePred Ends
  | [] => isTrue fun c hc => by cases hc
  | c :: rest => decidable_of_iff (c = ':' ∨ c = ',') ⟨fun hc d hd => Option.some.inj hd ▸ hc, fun h => h c rfl⟩

instance decidableParted (tail : List Char) : (settings : List Setting) → Decidable (Parted tail settings)
  | [] => isTrue trivial
  | o :: rest =>
    have := decidableParted tail rest
    inferInstanceAs (Decidable ((o.isQuoted = false → Ends (written rest tail)) ∧ Parted tail rest))

variable {settings pre post : List Setting} {o o' : Setting} {p : Place} {w rest tail label : List Char}

def Stops (rest : List Char) : Prop := ∀ c ∈ rest.head?, c.isLower = false ∧ c ≠ '=' ∧ c ≠ '\''

theorem Ends.stops (h : Ends rest) (hl : IsLabel label) : Stops (rest ++ label) := by
  intro c hc
  cases rest with
  | nil =>
    rcases hl with rfl | ⟨name, rfl, -, -⟩
    · cases hc
    · cases hc
      decide
  | cons d rest =>
    rcases h d rfl with rfl | rfl
    · cases hc
      decide
    · cases hc
      decide

theorem Stops.startsQuoted (h : Stops rest) : startsQuoted rest = false := by
  cases rest with
  | nil => rfl
  | cons c rest => simpa [Filter.startsQuoted] using (h c rfl).2.2

theorem escaped_after_of_guards {marks : Char → Bool} (h : guards marks p.escaped w = true) :
    (p.after w).escaped = false := by
  induction w generalizing p with
  | nil => simpa [guards] using h
  | cons c w ih =>
    exact ih (guards_cons.1 h).2

theorem quoted_after_of_guards (h : guards (· == '\'') p.escaped w = true) : (p.after w).quoted = p.quoted := by
  induction w generalizing p with
  | nil => rfl
  | cons c w ih =>
    obtain ⟨hc, hw⟩ := guards_cons.1 h
    have hnext : (p.next c).quoted = p.quoted := by simp [Place.next, hc]
    rw [Place.after_cons, ih hw, hnext]

private theorem guards_escapeQuotes {marks : Char → Bool} {escaped : Bool} (h : guards marks escaped w = true) :
    guards (· == '\'') escaped (escapeQuotes escaped w) = true := by
  induction w generalizing escaped with
  | nil => exact h
  | cons c w ih =>
    have ih := ih (guards_cons.1 h).2
    rw [escapeQuotes]
    split
    · rename_i hc
      simp only [Bool.and_eq_true, beq_iff_eq, Bool.not_eq_true'] at hc
      obtain ⟨rfl, rfl⟩ := hc
      simpa [guards] using ih
    · rename_i hc
      exact guards_cons.2 ⟨eq_false_of_ne_true hc, ih⟩

theorem IsBare.isSealed_escapeQuotes (h : IsBare w) : isSealed (escapeQuotes false w) = true :=
  guards_escapeQuotes h.guarded

namespace Setting

theorem lead_ne_nil (h : o.IsTidy) : o.lead ≠ [] := by
  intro hl
  have hopens := h.opens
  rw [hl] at hopens
  cases hopens

theorem startsQuoted_value (h : o.IsTidy) (hr : o.isQuoted = false → Stops rest) :
    startsQuoted (o.value ++ rest) = o.isQuoted := by
  cases hq : o.isQuoted with
  | true => simp [value, hq, startsQuoted]
  | false => simpa [value, hq, startsQuoted_append (hr hq).startsQuoted] using (h.bare hq).starts

theorem after_value (h : o.IsTidy) : ((⟨false, false, true⟩ : Place).after o.value).escaped = false ∧
    ((⟨false, false, true⟩ : Place).after o.value).quoted = false := by
  cases hq : o.isQuoted with
  | true =>
    have hs : guards (· == '\'') ((⟨false, false, true⟩ : Place).next '\'').escaped o.text = true := h.quoted hq
    have he := escaped_after_of_guards hs
    have hquoted := quoted_after_of_guards hs
    rw [value, hq, if_pos rfl, List.cons_append, Place.after_cons, Place.after_append]
    constructor
    · simp [Place.next]
    · rw [Place.after_cons, Place.after_nil, Place.next, he, hquoted]
      rfl
  | false =>
    have hb := h.bare hq
    rw [value, hq, if_neg Bool.false_ne_true, Place.quoted_after]
    exact ⟨escaped_after_of_guards hb.guarded, hb.even⟩

private theorem options_value (h : o.IsTidy) (hr : o.isQuoted = false → Stops rest) :
    options ⟨false, false, true⟩ (o.value ++ rest) = options {} rest := by
  cases hq : o.isQuoted with
  | true =>
    have hquoted := @options_quoted ⟨false, false, true⟩ o.text (h.quoted hq) rfl rfl rest
    simpa [value, hq] using hquoted
  | false =>
    have hstops := hr hq
    have hb := h.bare hq
    have hvalue : o.value = o.text := by simp [value, hq]
    have hafter := after_value h
    rw [options_append (.inr fun c hc => ⟨(hstops c hc).1, (hstops c hc).2.1⟩) hstops.startsQuoted,
      hvalue, options_of_not_mem hb.single, List.nil_append]
    rw [hvalue] at hafter
    exact options_congr hafter.1 hafter.2 fun c hc => (hstops c hc).1

theorem options_chars (h : o.IsTidy) (hr : o.isQuoted = false → Stops rest) :
    options {} (o.chars ++ rest) = o.toEntry :: options {} rest := by
  have hchars : o.chars ++ rest = o.lead ++ (o.key ++ '=' :: (o.value ++ rest)) := by simp [chars]
  rw [hchars, options_before_key h.key h.opens, h.free, startsQuoted_value h hr, options_value h hr]
  rfl

theorem after_chars (h : o.IsTidy) (he : p.escaped = false) (hq : p.quoted = false) :
    (p.after o.chars).escaped = false ∧ (p.after o.chars).quoted = false := by
  have hlead : p.after o.lead = Place.after {} o.lead := Place.after_congr he hq (lead_ne_nil h)
  have hkey : (Place.after {} o.lead).after (o.key ++ ['=']) = ⟨false, false, true⟩ := after_key h.key h.opens
  have hchars : o.chars = o.lead ++ ((o.key ++ ['=']) ++ o.value) := by simp [chars]
  rw [hchars, Place.after_append, Place.after_append, hlead, hkey]
  exact after_value h

end Setting

private theorem written_cons (o : Setting) (settings : List Setting) (tail : List Char) :
    written (o :: settings) tail = o.chars ++ written settings tail := by
  simp [written]

theorem written_append_cons (pre : List Setting) (o : Setting) (post : List Setting) (tail : List Char) :
    written (pre ++ o :: post) tail = written pre o.lead ++ (o.key ++ '=' :: (o.value ++ written post tail)) := by
  simp [written, Setting.chars]

/-- The options of a text are the ones that it was put together from. -/
theorem options_written (hs : ∀ o ∈ settings, o.IsTidy) (hp : Parted tail settings) (hl : IsLabel label) :
    options {} (written settings tail ++ label) =
      settings.map Setting.toEntry ++ options {} (tail ++ label) := by
  induction settings with
  | nil => rfl
  | cons o settings ih =>
    rw [List.forall_mem_cons] at hs
    rw [written_cons, List.append_assoc, Setting.options_chars hs.1 fun hq => (hp.1 hq).stops hl,
      ih hs.2 hp.2]
    rfl

theorem after_written (hs : ∀ o ∈ settings, o.IsTidy) (he : p.escaped = false) (hq : p.quoted = false) :
    (p.after (settings.flatMap Setting.chars)).escaped = false ∧
      (p.after (settings.flatMap Setting.chars)).quoted = false := by
  induction settings generalizing p with
  | nil => exact ⟨he, hq⟩
  | cons o settings ih =>
    rw [List.forall_mem_cons] at hs
    obtain ⟨he, hq⟩ := Setting.after_chars hs.1 he hq
    rw [List.flatMap_cons, Place.after_append]
    exact ih hs.2 he hq

theorem Ends.append_iff (h : w ≠ []) : Ends (w ++ rest) ↔ Ends w := by
  obtain ⟨c, w, rfl⟩ := List.exists_cons_of_ne_nil h
  rfl

/-- The options in front of one are parted by what stands in front of it. -/
theorem parted_append_cons (hl : o.lead ≠ []) :
    Parted tail (pre ++ o :: post) ↔ Parted o.lead pre ∧ Parted tail (o :: post) := by
  induction pre with
  | nil => simp [Parted]
  | cons first pre ih =>
    have hends : Ends (written (pre ++ o :: post) tail) ↔ Ends (written pre o.lead) := by
      have hne : written pre o.lead ≠ [] := by simp [written, hl]
      rw [written_append_cons, Ends.append_iff hne]
    rw [List.cons_append, Parted, Parted, ih, hends, and_assoc]

private theorem splitUnescaped?_guarded {marks : Char → Bool} {escaped : Bool} {s : List Char}
    (h : guards marks escaped s = true) (hr : ∀ c ∈ rest.head?, marks c = true) :
    splitUnescaped? marks escaped (s ++ rest) = if rest = [] then none else some (s, rest) := by
  induction s generalizing escaped with
  | nil =>
    have he : escaped = false := by simpa [guards] using h
    cases rest with
    | nil => rfl
    | cons c rest => simp [splitUnescaped?, he, hr c rfl]
  | cons c s ih =>
    obtain ⟨hc, hs⟩ := guards_cons.1 h
    rw [List.cons_append, splitUnescaped?, hc, if_neg Bool.false_ne_true, ih hs]
    split <;> rfl

theorem IsBare.splitBare_append {text : List Char} (h : IsBare text) (hr : Ends rest) :
    splitBare (text ++ rest) = (text, rest) := by
  have hmarks : ∀ c ∈ rest.head?, (c == ':' || c == ',') = true := fun c hc => by
    rcases hr c hc with rfl | rfl <;> rfl
  rw [splitBare, splitUnescaped?_guarded h.guarded hmarks]
  by_cases hrest : rest = [] <;> simp [hrest]

private theorem splitAtOption_quote {escaped : Bool} {s : List Char} (hw : (splitAtOption escaped s).2 = [])
    (hs : guards (· == '\'') escaped s = true) (rest : List Char) :
    splitAtOption escaped (s ++ '\'' :: rest) =
      (s ++ '\'' :: (splitAtOption false rest).1, (splitAtOption false rest).2) := by
  induction s generalizing escaped with
  | nil =>
    have he : escaped = false := by simpa [guards] using hs
    simp [splitAtOption, he]
  | cons c s ih =>
    rw [splitAtOption] at hw
    split at hw
    · cases hw
    · rename_i hc
      rw [List.cons_append, splitAtOption, startsOption_append_cons (by decide) (by decide), if_neg hc, ih hw (guards_cons.1 hs).2]
      rfl

/-- Behind the value of a font file is what stands behind it in the text. -/
theorem Setting.behindValue_append (h : o.IsTidy) (hkey : o.key = fontFileKey)
    (hr : o.isQuoted = false → Ends rest) : behindValue (o.value ++ rest) = rest := by
  cases hq : o.isQuoted with
  | true =>
    have hs := h.quoted hq
    have hvalue : o.value ++ rest = '\'' :: (o.text ++ '\'' :: rest) := by simp [value, hq]
    rw [hvalue, behindValue, splitAtOption_quote (h.whole hq hkey) hs]
    simp only
    rw [splitUnescaped?_sealed hs]
    exact splitAtOption_append false rest
  | false =>
    have hb := h.bare hq
    have hvalue : o.value = o.text := by simp [value, hq]
    have hstarts := startsQuoted_value h fun hq => ((hr hq).stops (.inl rfl))
    rw [List.append_nil] at hstarts
    rw [behindValue, hvalue, hb.splitBare_append (hr hq)]
    intro inside heq
    rw [heq, hq] at hstarts
    cases hstarts

end OpenCaptions.Filter
