import OpenCaptions.Preset.Basic
import OpenCaptions.Proofs.Filter.Finding

/-!
Sanitizing filters that are written properly. Font files give way to the standard font one by one, and the
other repairs find nothing to do.
-/
namespace OpenCaptions

open OpenCaptions.Filter

namespace Filter

/-- What scanning a character does to the nesting. -/
theorem exists_splitFrom_of_cons {sep c : Char} {w : List Char} {nesting : Nesting} {offset : Nat}
    {parts : List (List Char)} (h : splitFrom sep nesting offset (c :: w) = .ok parts) :
    ∃ nesting' offset' parts', splitFrom sep nesting' offset' w = .ok parts' ∧
      nesting'.escaped = (c == '\\' && !nesting.escaped) ∧
      nesting'.quoted = (if c == '\'' && !nesting.escaped then !nesting.quoted else nesting.quoted) := by
  have hscanned {nesting' : Nesting} {offset' : Nat} {f : List (List Char) → List (List Char)}
      (h : (splitFrom sep nesting' offset' w).map f = .ok parts)
      (he : nesting'.escaped = (c == '\\' && !nesting.escaped))
      (hq : nesting'.quoted = (if c == '\'' && !nesting.escaped then !nesting.quoted else nesting.quoted)) :
      ∃ nesting' offset' parts', splitFrom sep nesting' offset' w = .ok parts' ∧
        nesting'.escaped = (c == '\\' && !nesting.escaped) ∧
        nesting'.quoted = (if c == '\'' && !nesting.escaped then !nesting.quoted else nesting.quoted) := by
    cases hs : splitFrom sep nesting' offset' w with
    | error e =>
      rw [hs] at h
      cases h
    | ok rest => exact ⟨nesting', offset', rest, hs, he, hq⟩
  obtain ⟨escaped, quoted, depth⟩ := nesting
  unfold splitFrom at h
  split at h
  · rename_i he
    exact hscanned h (by simp_all) (by simp_all)
  · rename_i he
    obtain rfl : escaped = false := by simpa using he
    split at h
    · rename_i hb
      exact hscanned h (by simp_all) (by simp_all)
    · rename_i hb
      split at h
      · rename_i hq
        exact hscanned h (by simp_all) (by simp_all)
      · rename_i hq
        -- Everything else leaves quotes and escapes as they are, whatever it does to the depth.
        have hplain : (false = (c == '\\' && !false)) ∧
            quoted = (if c == '\'' && !false then !quoted else quoted) := by simp [hb, hq]
        split at h
        · exact hscanned h hplain.1 hplain.2
        · split at h
          · exact hscanned h hplain.1 hplain.2
          · split at h
            · split at h
              · cases h
              · exact hscanned h hplain.1 hplain.2
            · split at h
              · exact hscanned h hplain.1 hplain.2
              · exact hscanned h hplain.1 hplain.2

/-- Text that splits has no quote open at its end. -/
theorem endsQuoted_of_splitFrom {sep : Char} {w : List Char} {nesting : Nesting} {offset : Nat}
    {parts : List (List Char)} (h : splitFrom sep nesting offset w = .ok parts) :
    endsQuoted nesting.escaped nesting.quoted w = false := by
  induction w generalizing nesting offset parts with
  | nil =>
    unfold splitFrom at h
    unfold endsQuoted
    split at h
    · cases h
    · simpa using ‹¬ nesting.quoted = true›
  | cons c w ih =>
    obtain ⟨nesting', offset', parts', hs, he, hq⟩ := exists_splitFrom_of_cons h
    rw [endsQuoted, ← he, ← hq]
    exact ih hs

theorem splitUnescaped?_sealed {escaped : Bool} {s : List Char}
    (h : guards (· == '\'') escaped s = true) (rest : List Char) :
    splitUnescaped? (· == '\'') escaped (s ++ '\'' :: rest) = some (s, '\'' :: rest) := by
  induction s generalizing escaped with
  | nil =>
    have he : escaped = false := by simpa [guards] using h
    simp [splitUnescaped?, he]
  | cons c s ih =>
    simp only [guards, Bool.and_eq_true, Bool.or_eq_true, Bool.not_eq_true'] at h
    have hc : (c == '\'' && !escaped) = false := by
      rcases h.1 with he | hc
      · simp [he]
      · simp only [hc, Bool.false_and]
    simp [splitUnescaped?, hc, ih h.2]

theorem splitAtOption_guarded {escaped : Bool} {s : List Char}
    (h : guards (· == ':') escaped s = true) (rest : List Char) :
    splitAtOption escaped (s ++ '\'' :: rest) =
      (s ++ '\'' :: (splitAtOption false rest).1, (splitAtOption false rest).2) := by
  induction s generalizing escaped with
  | nil =>
    have he : escaped = false := by simpa [guards] using h
    simp [splitAtOption, he]
  | cons c s ih =>
    simp only [guards, Bool.and_eq_true, Bool.or_eq_true, Bool.not_eq_true'] at h
    have hc : (c == ':' && !escaped && startsOption (s ++ '\'' :: rest)) = false := by
      rcases h.1 with he | hc
      · simp [he]
      · simp only [hc, Bool.false_and]
    simp only [List.cons_append, splitAtOption, hc, Bool.false_eq_true, if_false, ih h.2]

theorem splitAtOption_append (escaped : Bool) (s : List Char) :
    (splitAtOption escaped s).1 ++ (splitAtOption escaped s).2 = s := by
  induction s generalizing escaped with
  | nil => rfl
  | cons c s ih =>
    unfold splitAtOption
    split
    · rfl
    · exact congrArg (c :: ·) (ih _)

theorem startsOption_append_cons {d : Char} (hd : (d.isLower || d == '_') = false) (hne : d ≠ '=') (s rest : List Char) :
    startsOption (s ++ d :: rest) = startsOption s := by
  have htake : (s ++ d :: rest).takeWhile (fun c => c.isLower || c == '_') =
      s.takeWhile fun c => c.isLower || c == '_' := by
    rw [List.takeWhile_append]
    split
    · rename_i hlen
      rw [List.takeWhile_cons_of_neg (by simp [hd]), List.append_nil]
      exact ((List.takeWhile_prefix _).eq_of_length hlen).symm
    · rfl
  simp only [startsOption, htake, List.dropWhile_append]
  split
  · rename_i hdrop
    rw [List.isEmpty_iff.1 hdrop, List.dropWhile_cons_of_neg (by simp [hd])]
    simp [hne]
  · rename_i hdrop
    cases hs : s.dropWhile fun c => c.isLower || c == '_' with
    | nil => simp [hs] at hdrop
    | cons c more => rfl

theorem behindValue_quoted {s : List Char} (hs : isSealed s = true)
    (hc : guards (· == ':') false s = true) (rest : List Char) :
    behindValue ('\'' :: s ++ '\'' :: rest) = rest := by
  simp only [behindValue, List.cons_append, splitAtOption_guarded hc]
  rw [splitUnescaped?_sealed hs]
  exact splitAtOption_append false rest

/-- Without a label at the end, a search finds an option with everything behind it. -/
theorem find?_of_getLast? {s : List Char} (h : s.getLast? ≠ some ']') (key : List Char) :
    find? key s = some ((findOption? key false false false s).map fun (before, value) =>
      ⟨before, value, []⟩) := by
  have hl : splitLabel s = (s, []) := by rw [splitLabel, if_neg h]
  unfold find?
  cases findOption? key false false false s with
  | none => rfl
  | some p =>
    obtain ⟨before, value⟩ := p
    simp [hl]

end Filter

def Operation.standardOption (option : String × OptionValue Float) : String × OptionValue Float :=
  if option.1 = "fontfile" then ("font", .quoted defaultFont) else option

/-- A filter with the standard font in place of each font file. -/
def Operation.withStandardFont (op : Operation Float) : Operation Float :=
  { op with options := op.options.map standardOption }

namespace Operation

variable {ops before after : List (Operation Float)} {name : String}
  {pre post : List (String × OptionValue Float)} {option : String × OptionValue Float}

theorem first_option (key : String) (ops : List (Operation Float)) :
    (∀ op ∈ ops, ∀ option ∈ op.options, option.1 ≠ key) ∨
    ∃ before name pre option post after, ops = before ++ ⟨name, pre ++ option :: post⟩ :: after ∧
      (∀ op ∈ before, ∀ option ∈ op.options, option.1 ≠ key) ∧ (∀ option ∈ pre, option.1 ≠ key) ∧
      option.1 = key := by
  induction ops with
  | nil => exact .inl (by simp)
  | cons op ops ih =>
    obtain ⟨name, options⟩ := op
    cases hf : options.find? (·.1 == key) with
    | some option =>
      obtain ⟨hkey, pre, post, rfl, hpre⟩ := List.find?_eq_some_iff_append.1 hf
      exact .inr ⟨[], name, pre, option, post, ops, rfl, by simp, by simpa using hpre,
        by simpa using hkey⟩
    | none =>
      have hnone : ∀ option ∈ options, option.1 ≠ key := by simpa using hf
      rcases ih with h | ⟨before, other, pre, option, post, after, rfl, hb, hpre, hkey⟩
      · exact .inl (List.forall_mem_cons.2 ⟨hnone, h⟩)
      · exact .inr ⟨⟨name, options⟩ :: before, other, pre, option, post, after, rfl,
          List.forall_mem_cons.2 ⟨hnone, hb⟩, hpre, hkey⟩

theorem passable_of_ne {op : Operation Float} {key : String} (h : op.IsTame)
    {options : List (String × OptionValue Float)} (hs : options ⊆ op.options)
    (hne : ∀ option ∈ options, option.1 ≠ key) : Passable key.toList options :=
  fun option hm => ⟨h.keys option (hs hm), h.values option (hs hm),
    fun he => hne option hm (String.toList_inj.1 he)⟩

theorem getLast?_optionChars (hv : option.2.isTame = true) :
    optionChars option ≠ [] ∧ (optionChars option).getLast? ≠ some ']' := by
  have hbare {w : List Char} (hw : isPlainText 0 w = true) : ('=' :: w).getLast? ≠ some ']' := by
    intro h
    have hm := List.mem_of_getLast? h
    rw [List.mem_cons] at hm
    rcases hm with hm | hm
    · cases hm
    · exact not_special_of_isPlainText hw ']' hm (by decide)
  have hquote (w : List Char) : ('=' :: ('\'' :: w ++ ['\''])).getLast? ≠ some ']' := by
    rw [← List.cons_append, List.getLast?_concat]
    decide
  refine ⟨by simp [optionChars], ?_⟩
  have hvalue : ('=' :: option.2.chars).getLast? ≠ some ']' := by
    cases hvc : option.2 with
    | word text => rw [hvc] at hv; exact hbare hv
    | number n => rw [hvc] at hv; exact hbare hv
    | tint color opacity => rw [hvc] at hv; exact hbare hv
    | quoted escaped => exact hquote _
    | formula e => exact hquote _
  rw [optionChars, List.getLast?_append_of_ne_nil _ (by simp)]
  exact hvalue

theorem getLast?_join_ne {sep : List Char} {parts : List (List Char)}
    (h : ∀ part ∈ parts, part ≠ [] ∧ part.getLast? ≠ some ']') :
    (Text.join sep parts).getLast? ≠ some ']' := by
  rw [Text.getLast?_join fun part hm => (h part hm).1]
  cases hl : parts.getLast? with
  | none => simp
  | some part => exact (h part (List.mem_of_getLast? hl)).2

theorem IsTame.getLast?_chars {op : Operation Float} (h : op.IsTame) : op.chars.getLast? ≠ some ']' := by
  by_cases ho : op.options = []
  · rw [IsTame.chars_of_nil ho]
    intro hl
    cases h.isPlain_name ']' (List.mem_of_getLast? hl)
  · have hoptions : ∀ part ∈ op.options.map optionChars, part ≠ [] ∧ part.getLast? ≠ some ']' := by
      rw [List.forall_mem_map]
      exact fun option hm => getLast?_optionChars (h.values option hm)
    have hne : Text.join [':'] (op.options.map optionChars) ≠ [] := by
      obtain ⟨option, options, heq⟩ := List.exists_cons_of_ne_nil ho
      rw [heq, List.map_cons] at hoptions ⊢
      exact Text.join_ne_nil (hoptions _ List.mem_cons_self).1
    rw [IsTame.chars_eq ho, List.getLast?_append_of_ne_nil _ (by simp), List.getLast?_cons_of_ne_nil hne]
    exact getLast?_join_ne hoptions

theorem getLast?_joined (h : ∀ op ∈ ops, op.IsTame) : (joined ops).toList.getLast? ≠ some ']' := by
  rw [joined, String.toList_ofList]
  refine getLast?_join_ne ?_
  rw [List.forall_mem_map]
  exact fun op hm => ⟨(h op hm).chars_ne_nil, (h op hm).getLast?_chars⟩

theorem IsQuoted.standardFont (h : IsQuoted ⟨name, pre ++ option :: post⟩) :
    IsQuoted ⟨name, pre ++ ("font", .quoted defaultFont) :: post⟩ := by
  have hk := h.tame.keys
  have hv := h.tame.values
  have hq := h.quoted
  have hf := h.file
  simp only [List.forall_mem_append, List.forall_mem_cons] at hk hv hq hf
  refine ⟨⟨h.tame.known, ?_, ?_, by simp⟩, ?_, ?_⟩
  all_goals simp only [List.forall_mem_append, List.forall_mem_cons]
  · exact ⟨hk.1, by decide, hk.2.2⟩
  · exact ⟨hv.1, by decide, hv.2.2⟩
  · exact ⟨hq.1, fun _ => rfl, hq.2.2⟩
  · exact ⟨hf.1, by simp, hf.2.2⟩

def fileCount (ops : List (Operation Float)) : Nat :=
  (ops.map fun op => op.options.countP (·.1 == "fontfile")).sum

/-- One repair puts the standard font in place of the first font file. -/
theorem replaceFontFile_joined (h : ∀ op ∈ before ++ ⟨name, pre ++ option :: post⟩ :: after, op.IsQuoted)
    (hb : ∀ op ∈ before, ∀ option ∈ op.options, option.1 ≠ "fontfile")
    (hpre : ∀ option ∈ pre, option.1 ≠ "fontfile") (hkey : option.1 = "fontfile") :
    replaceFontFile (joined (before ++ ⟨name, pre ++ option :: post⟩ :: after)).toList =
      some (some (joined (before ++
        ⟨name, pre ++ ("font", .quoted defaultFont) :: post⟩ :: after)).toList) := by
  have hlast := getLast?_joined fun op hm => (h op hm).tame
  rw [List.forall_mem_append, List.forall_mem_cons] at h
  obtain ⟨hbefore, hop, -⟩ := h
  obtain ⟨path, hvalue, hguards⟩ := hop.file option (by simp) hkey
  have hsealed : isSealed path.toList = true := by
    have := hop.tame.values option (by simp)
    rwa [hvalue] at this
  have hkey' : isKey fontFileKey = true := by decide
  have hfound := findOption?_joined hkey' after hop.tame
    (fun op hm => ⟨(hbefore op hm).tame, passable_of_ne (hbefore op hm).tame (fun _ => id) (hb op hm)⟩)
    (passable_of_ne hop.tame (by simp) hpre) (congrArg String.toList hkey)
  have hbehind : behindValue (option.2.chars ++ textBehind post after) = textBehind post after := by
    rw [hvalue]
    have hc : (OptionValue.quoted (α := Float) path).chars = '\'' :: path.toList ++ ['\''] := rfl
    rw [hc, List.append_assoc]
    exact behindValue_quoted hsealed hguards _
  have hfont : standardFont = optionChars (α := Float) ("font", .quoted defaultFont) := by decide
  unfold replaceFontFile
  rw [find?_of_getLast? hlast, hfound]
  simp only [Option.map_some, Option.bind_eq_bind, Option.bind_some, Option.pure_def, hbehind, hfont,
    List.append_nil]
  rw [toList_joined_around]

theorem map_withStandardFont_of_ne (h : ∀ op ∈ ops, ∀ option ∈ op.options, option.1 ≠ "fontfile") :
    ops.map withStandardFont = ops := by
  have hop : ∀ op ∈ ops, op.withStandardFont = op := by
    intro op hm
    have hoption : ∀ option ∈ op.options, standardOption option = option :=
      fun option ho => if_neg (h op hm option ho)
    rw [withStandardFont, List.map_congr_left (g := id) hoption, List.map_id]
  rw [List.map_congr_left (g := id) hop, List.map_id]

theorem withStandardFont_key_ne (op : Operation Float) : ∀ option ∈ op.withStandardFont.options, option.1 ≠ "fontfile" := by
  simp only [withStandardFont, List.forall_mem_map]
  intro option _
  unfold standardOption
  split
  · decide
  · assumption

theorem fileCount_withStandardFont (ops : List (Operation Float)) : fileCount (ops.map withStandardFont) = 0 := by
  rw [fileCount, List.sum_eq_zero_iff]
  simp only [List.forall_mem_map, List.countP_eq_zero, beq_iff_eq]
  exact fun op _ => op.withStandardFont_key_ne

theorem withStandardFont_replaced (hkey : option.1 = "fontfile") :
    withStandardFont ⟨name, pre ++ ("font", .quoted defaultFont) :: post⟩ =
      withStandardFont ⟨name, pre ++ option :: post⟩ := by
  simp [withStandardFont, standardOption, hkey]

theorem IsQuoted.withStandardFont {op : Operation Float} (h : op.IsQuoted) :
    op.withStandardFont.IsQuoted := by
  have hoption : ∀ option ∈ op.options, (standardOption option = ("font", .quoted defaultFont)) ∨
      (standardOption option = option ∧ option.1 ≠ "fontfile") := by
    intro option _
    by_cases hk : option.1 = "fontfile"
    · exact .inl (if_pos hk)
    · exact .inr ⟨if_neg hk, hk⟩
  refine ⟨⟨h.tame.known, ?_, ?_, fun ho => h.tame.bare (List.map_eq_nil_iff.1 ho)⟩, ?_, ?_⟩
  all_goals
    simp only [Operation.withStandardFont, List.forall_mem_map]
    intro option hm
    rcases hoption option hm with hs | ⟨hs, hk⟩
    all_goals rw [hs]
  · decide
  · exact h.tame.keys option hm
  · decide
  · exact h.tame.values option hm
  · exact fun _ => rfl
  · exact h.quoted option hm
  · simp
  · exact fun he => absurd he hk

/-- Enough repairs put the standard font in place of every font file. -/
theorem repeatRepair_replaceFontFile {n : Nat} (h : ∀ op ∈ ops, op.IsQuoted) (hn : fileCount ops ≤ n) :
    repeatRepair replaceFontFile n (joined ops).toList =
      some (joined (ops.map withStandardFont)).toList := by
  induction n generalizing ops with
  | zero =>
    rcases first_option "fontfile" ops with hnone | ⟨before, name, pre, option, post, after, rfl, -, -, hkey⟩
    · rw [repeatRepair, map_withStandardFont_of_ne hnone]
    · simp [fileCount, hkey] at hn
  | succ n ih =>
    rcases first_option "fontfile" ops with
      hnone | ⟨before, name, pre, option, post, after, rfl, hb, hpre, hkey⟩
    · have hkey : isKey fontFileKey = true := by decide
      have hfound := findOption?_joined_eq_none hkey fun op hm =>
        ⟨(h op hm).tame, passable_of_ne (h op hm).tame (fun _ => id) (hnone op hm)⟩
      have hlast := getLast?_joined fun op hm => (h op hm).tame
      have hrepair : replaceFontFile (joined ops).toList = some none := by
        unfold replaceFontFile
        rw [find?_of_getLast? hlast, hfound]
        rfl
      rw [repeatRepair, hrepair, map_withStandardFont_of_ne hnone]
    · rw [repeatRepair, replaceFontFile_joined h hb hpre hkey]
      rw [List.forall_mem_append, List.forall_mem_cons] at h
      have hnext : ∀ op ∈ before ++ ⟨name, pre ++ ("font", .quoted defaultFont) :: post⟩ :: after,
          op.IsQuoted := by
        rw [List.forall_mem_append, List.forall_mem_cons]
        exact ⟨h.1, h.2.1.standardFont, h.2.2⟩
      have hcount : fileCount (before ++ ⟨name, pre ++ ("font", .quoted defaultFont) :: post⟩ :: after) ≤
          n := by
        simp [fileCount, hkey] at hn ⊢
        omega
      simp only [ih hnext hcount, List.map_append, List.map_cons, withStandardFont_replaced hkey]

theorem repeatRepair_of_eq_none {repair : List Char → Option (Option (List Char))} {s : List Char}
    (h : repair s = some none) (n : Nat) : repeatRepair repair n s = some s := by
  cases n with
  | zero => rfl
  | succ n => rw [repeatRepair, h]

theorem closeQuote_joined (hne : ops ≠ []) (h : ∀ op ∈ ops, op.IsTame) :
    closeQuote (joined ops).toList = some none := by
  have hsplit : splitFrom ',' {} 0 (joined ops).toList = .ok (ops.map chars) := splitTopLevel_joined hne h
  have hends : endsQuoted false false (joined ops).toList = false := endsQuoted_of_splitFrom hsplit
  rw [closeQuote, hends]
  rfl

theorem findBare?_joined (key : String) (hkey : key ∈ ["text", "font"]) (h : ∀ op ∈ ops, op.IsQuoted) :
    findBare? key.toList (joined ops).toList = some none := by
  have hk : isKey key.toList = true := by
    revert hkey
    revert key
    decide
  have hlast := getLast?_joined fun op hm => (h op hm).tame
  unfold findBare?
  rw [find?_of_getLast? hlast]
  rcases first_option key ops with
    hnone | ⟨before, name, pre, option, post, after, rfl, hb, hpre, ho⟩
  · rw [findOption?_joined_eq_none hk fun op hm =>
      ⟨(h op hm).tame, passable_of_ne (h op hm).tame (fun _ => id) (hnone op hm)⟩]
    rfl
  · rw [List.forall_mem_append, List.forall_mem_cons] at h
    obtain ⟨hbefore, hop, -⟩ := h
    rw [findOption?_joined hk after hop.tame
      (fun op hm => ⟨(hbefore op hm).tame, passable_of_ne (hbefore op hm).tame (fun _ => id) (hb op hm)⟩)
      (passable_of_ne hop.tame (by simp) hpre) (congrArg String.toList ho)]
    have hquoted : option.2.isQuoted = true := hop.quoted option (by simp) (ho ▸ hkey)
    simp [OptionValue.chars, hquoted]

/-- Sanitizing proper filters puts the standard font in place of every font file and changes nothing else. -/
theorem sanitize?_joined (hne : ops ≠ []) (h : ∀ op ∈ ops, op.IsQuoted)
    (hc : fileCount ops ≤ mostRepairs) :
    Filter.sanitize? (joined ops).toList = some (joined (ops.map withStandardFont)).toList := by
  have hquoted : ∀ op ∈ ops.map withStandardFont, op.IsQuoted := by
    rw [List.forall_mem_map]
    exact fun op hm => (h op hm).withStandardFont
  have hclose := closeQuote_joined (by simpa using hne) fun op hm => (hquoted op hm).tame
  have hbare : quoteBare (joined (ops.map withStandardFont)).toList = some none := by
    have htext := findBare?_joined "text" (by decide) hquoted
    have hfont := findBare?_joined "font" (by decide) hquoted
    unfold quoteBare textKey fontKey
    rw [htext, hfont]
    rfl
  unfold Filter.sanitize?
  simp only [repeatRepair_replaceFontFile h hc, Option.bind_eq_bind, Option.bind_some,
    repeatRepair_of_eq_none hclose, repeatRepair_of_eq_none hbare]

end Operation

end OpenCaptions
