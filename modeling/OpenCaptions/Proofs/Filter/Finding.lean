import OpenCaptions.Filter.Repair
import OpenCaptions.Proofs.Filter.Tame

/-!
Where a search for an option stops in the text of filters. Values between quotes are passed over as a whole,
so the search stops at the first option with the key and nowhere else.
-/
namespace OpenCaptions.Filter

def passed (w : List Char) (found : Option (List Char × List Char)) : Option (List Char × List Char) :=
  found.map fun (before, value) => (w ++ before, value)

@[simp] theorem passed_nil (found : Option (List Char × List Char)) : passed [] found = found := by
  cases found <;> rfl

@[simp] theorem passed_passed (u v : List Char) (found : Option (List Char × List Char)) :
    passed u (passed v found) = passed (u ++ v) found := by
  cases found with
  | none => rfl
  | some p => simp [passed]

def Ends (rest : List Char) : Prop := ∀ c ∈ rest.head?, c = ':' ∨ c = ','

variable {key : List Char}

theorem findOption?_cons {escaped quoted separated : Bool} {c : Char} {rest : List Char}
    (hq : c ≠ '\'') (h : separated = true → quoted = false →
      Text.dropPrefix? (key ++ ['=']) (c :: rest) = none) :
    findOption? key escaped quoted separated (c :: rest) =
      passed [c] (findOption? key (c == '\\' && !escaped) quoted (c == '=' || c == ':') rest) := by
  rw [findOption?]
  have hq' : (c == '\'') = false := by simpa using hq
  cases quoted with
  | true => simp [hq', passed]
  | false =>
    cases separated with
    | false => simp [hq', passed]
    | true => simp [hq', h rfl rfl, passed]

theorem not_special_of_isPlain {c : Char} (h : isPlain c = true) : c ∉ ['\'', '\\', '=', ':', ',', ']'] := by
  intro hm
  simp only [List.mem_cons, List.not_mem_nil, or_false] at hm
  rcases hm with rfl | rfl | rfl | rfl | rfl | rfl <;> cases h

theorem findOption?_inside {w : List Char} (h : ∀ c ∈ w, c ∉ ['\'', '\\', '=', ':']) (rest : List Char) :
    findOption? key false false false (w ++ rest) = passed w (findOption? key false false false rest) := by
  induction w with
  | nil => simp
  | cons c w ih =>
    rw [List.forall_mem_cons] at h
    simp only [List.mem_cons, List.not_mem_nil, or_false, not_or] at h
    obtain ⟨⟨hq, hb, he, hc⟩, hw⟩ := h
    have hb' : (c == '\\') = false := by simpa using hb
    have he' : (c == '=' || c == ':') = false := by simp [he, hc]
    rw [List.cons_append, findOption?_cons hq (fun h => by cases h), hb', he', Bool.false_and,
      ih (by simpa using hw), passed_passed, List.singleton_append]

theorem findOption?_sealed {escaped separated : Bool} {s : List Char}
    (h : guards (· == '\'') escaped s = true) (rest : List Char) :
    findOption? key escaped true separated (s ++ '\'' :: rest) =
      passed (s ++ ['\'']) (findOption? key false false false rest) := by
  induction s generalizing escaped separated with
  | nil =>
    have he : escaped = false := by simpa [guards] using h
    subst he
    rw [List.nil_append, findOption?]
    simp [passed]
  | cons c s ih =>
    simp only [guards, Bool.and_eq_true, Bool.or_eq_true] at h
    obtain ⟨hc, hs⟩ := h
    have hstep : (c == '\'' && !escaped) = false := by
      cases escaped with
      | true => simp
      | false => simpa using hc
    rw [List.cons_append, findOption?]
    simp only [hstep, Bool.false_eq_true, if_false, Bool.not_true, Bool.false_and]
    rw [ih hs]
    cases findOption? key false false false rest <;> simp [passed]

theorem dropPrefix?_key {other : List Char} (hk : isKey key = true) (ho : ∀ c ∈ other, c ≠ '=')
    (hne : other ≠ key) (rest : List Char) : Text.dropPrefix? (key ++ ['=']) (other ++ '=' :: rest) = none := by
  cases hd : Text.dropPrefix? (key ++ ['=']) (other ++ '=' :: rest) with
  | none => rfl
  | some t =>
    have h := Text.eq_append_of_dropPrefix? hd
    have hkey : '=' ∉ key := fun hm => by cases isPlain_of_isKey hk '=' hm
    have hother : '=' ∉ other := fun hm => ho '=' hm rfl
    have h1 := Text.splitOnce?_append hother rest
    have h2 := Text.splitOnce?_append hkey t
    rw [h, List.append_assoc, List.singleton_append, h2] at h1
    cases h1
    exact absurd rfl hne

theorem findOption?_key {other : List Char} (hk : isKey key = true) (ho : isKey other = true)
    (hne : other ≠ key) (rest : List Char) :
    findOption? key false false true (other ++ '=' :: rest) =
      passed (other ++ ['=']) (findOption? key false false true rest) := by
  have hplain := isPlain_of_isKey ho
  obtain ⟨c, other, rfl⟩ := List.exists_cons_of_ne_nil (ne_nil_of_isKey ho)
  have hspecial : ∀ d ∈ c :: other, d ∉ ['\'', '\\', '=', ':'] := fun d hd hm =>
    not_special_of_isPlain (hplain d hd) (List.mem_append_left [',', ']'] hm)
  have hno : ∀ d ∈ c :: other, d ≠ '=' := by
    rintro d hd rfl
    cases hplain '=' hd
  have hd := dropPrefix?_key hk hno hne rest
  have hc := hspecial c List.mem_cons_self
  simp only [List.mem_cons, List.not_mem_nil, or_false, not_or] at hc
  obtain ⟨hq, hb, he, hcolon⟩ := hc
  have hb' : (c == '\\') = false := by simpa using hb
  have he' : (c == '=' || c == ':') = false := by simp [he, hcolon]
  rw [List.cons_append] at hd ⊢
  rw [findOption?_cons hq (fun _ _ => hd), hb', he', Bool.false_and,
    findOption?_inside (fun d hm => hspecial d (List.mem_cons_of_mem _ hm)),
    findOption?_cons (by decide) (fun h => by cases h)]
  simp

theorem findOption?_same (hk : isKey key = true) (rest : List Char) :
    findOption? key false false true (key ++ '=' :: rest) = some ([], rest) := by
  obtain ⟨c, other, rfl⟩ := List.exists_cons_of_ne_nil (ne_nil_of_isKey hk)
  have hc : (c == '\'') = false := by
    rw [beq_eq_false_iff_ne]
    rintro rfl
    cases isPlain_of_isKey hk _ List.mem_cons_self
  have hd : Text.dropPrefix? (c :: other ++ ['=']) (c :: (other ++ '=' :: rest)) = some rest := by
    simpa using Text.dropPrefix?_append (c :: other ++ ['=']) rest
  rw [List.cons_append, findOption?]
  simp only [hc, hd, Bool.false_and, Bool.false_eq_true, if_false, Bool.not_false, Bool.and_self,
    if_true]

theorem findOption?_ends (hk : isKey key = true) {rest : List Char} (h : Ends rest) (separated : Bool) :
    findOption? key false false separated rest = findOption? key false false false rest := by
  cases rest with
  | nil => rfl
  | cons c rest =>
    have hc : c = ':' ∨ c = ',' := h c rfl
    have hd : Text.dropPrefix? (key ++ ['=']) (c :: rest) = none := by
      cases hd : Text.dropPrefix? (key ++ ['=']) (c :: rest) with
      | none => rfl
      | some t =>
        obtain ⟨d, other, rfl⟩ := List.exists_cons_of_ne_nil (ne_nil_of_isKey hk)
        have heq := Text.eq_append_of_dropPrefix? hd
        rw [List.cons_append, List.cons_append, List.cons.injEq] at heq
        have hp := isPlain_of_isKey hk d List.mem_cons_self
        rw [← heq.1] at hp
        rcases hc with rfl | rfl <;> cases hp
    have hq : c ≠ '\'' := by rcases hc with rfl | rfl <;> decide
    rw [findOption?_cons hq (fun _ _ => hd), findOption?_cons hq (fun _ _ => hd)]

theorem not_special_of_isPlainText {depth : Nat} {s : List Char} (h : isPlainText depth s = true) :
    ∀ c ∈ s, c ∉ ['\'', '\\', '=', ':', ',', ']'] := by
  induction s generalizing depth with
  | nil => simp
  | cons c s ih =>
    rw [List.forall_mem_cons]
    unfold isPlainText at h
    split at h
    · rename_i hc
      subst hc
      exact ⟨by decide, ih h⟩
    · split at h
      · rename_i hc
        subst hc
        exact ⟨by decide, ih (Bool.and_eq_true _ _ ▸ h).2⟩
      · rw [Bool.and_eq_true] at h
        exact ⟨not_special_of_isPlain h.1, ih h.2⟩

private theorem not_ends {c : Char} (hc : c ≠ ':') (hc' : c ≠ ',') (rest : List Char) : ¬ Ends (c :: rest) :=
  fun h => (h c rfl).elim hc hc'

private theorem dropPrefix?_bare (hk : isKey key = true) {w rest : List Char} (hw : '=' ∉ w)
    (hr : Ends rest) : Text.dropPrefix? (key ++ ['=']) (w ++ rest) = none := by
  cases hd : Text.dropPrefix? (key ++ ['=']) (w ++ rest) with
  | none => rfl
  | some t =>
    have h := Text.eq_append_of_dropPrefix? hd
    rw [List.append_assoc, List.singleton_append, List.append_eq_append_iff] at h
    rcases h with ⟨other, hkey, hrest⟩ | ⟨other, hw', hother⟩
    · cases other with
      | nil => exact absurd (hrest ▸ hr) (not_ends (by decide) (by decide) t)
      | cons d other =>
        have hd := hr d (by rw [hrest]; rfl)
        have hp := isPlain_of_isKey hk d (by simp [hkey])
        rcases hd with rfl | rfl <;> cases hp
    · cases other with
      | nil =>
        rw [List.nil_append] at hother
        exact absurd (hother ▸ hr) (not_ends (by decide) (by decide) t)
      | cons d other =>
        rw [List.cons_append, List.cons.injEq] at hother
        exact absurd (by rw [hw', hother.1]; simp) hw

theorem findOption?_bare (hk : isKey key = true) {w : List Char} (h : isPlainText 0 w = true)
    {rest : List Char} (hr : Ends rest) :
    findOption? key false false true (w ++ rest) = passed w (findOption? key false false false rest) := by
  have hspecial : ∀ c ∈ w, c ∉ ['\'', '\\', '=', ':'] := fun c hc hm =>
    not_special_of_isPlainText h c hc (List.mem_append_left [',', ']'] hm)
  cases w with
  | nil => simp [findOption?_ends hk hr]
  | cons c w =>
    have hd : Text.dropPrefix? (key ++ ['=']) (c :: (w ++ rest)) = none :=
      dropPrefix?_bare hk (fun hm => hspecial '=' hm (by decide)) hr
    rw [List.forall_mem_cons] at hspecial
    obtain ⟨hc, hw⟩ := hspecial
    simp only [List.mem_cons, List.not_mem_nil, or_false, not_or] at hc
    obtain ⟨hq, hb, he, hcolon⟩ := hc
    have hb' : (c == '\\') = false := by simpa using hb
    have he' : (c == '=' || c == ':') = false := by simp [he, hcolon]
    rw [List.cons_append, findOption?_cons hq (fun _ _ => hd), hb', he', Bool.false_and,
      findOption?_inside hw, passed_passed, List.singleton_append]

theorem findOption?_quoted {s : List Char} (h : isSealed s = true) (rest : List Char) :
    findOption? key false false true ('\'' :: s ++ '\'' :: rest) =
      passed ('\'' :: s ++ ['\'']) (findOption? key false false false rest) := by
  rw [List.cons_append, findOption?]
  simp only [beq_self_eq_true, Bool.not_false, Bool.and_self, if_true]
  have hb : ('\'' == '\\' && true) = false := by decide
  rw [hb, findOption?_sealed h]
  cases findOption? key false false false rest <;> simp [passed]

end OpenCaptions.Filter

namespace OpenCaptions

open OpenCaptions.Filter

variable {key : List Char}

theorem OptionValue.findOption?_chars (hk : isKey key = true) {value : OptionValue Float}
    (hv : value.isTame = true) {rest : List Char} (hr : Ends rest) :
    findOption? key false false true (value.chars ++ rest) =
      passed value.chars (findOption? key false false false rest) := by
  have hquoted {s : List Char} (h : isSealed s = true) :
      findOption? key false false true ('\'' :: s ++ ['\''] ++ rest) =
        passed ('\'' :: s ++ ['\'']) (findOption? key false false false rest) := by
    rw [List.append_assoc, List.singleton_append, findOption?_quoted h]
  cases value with
  | word text => exact findOption?_bare hk hv hr
  | number n => exact findOption?_bare hk hv hr
  | tint color opacity => exact findOption?_bare hk hv hr
  | quoted escaped => exact hquoted hv
  | formula e => exact hquoted e.isSealed_chars

namespace Operation

theorem findOption?_other (hk : isKey key = true) {option : String × OptionValue Float}
    (ho : isKey option.1.toList = true) (hv : option.2.isTame = true) (hne : option.1.toList ≠ key)
    {rest : List Char} (hr : Ends rest) :
    findOption? key false false true (optionChars option ++ rest) =
      passed (optionChars option) (findOption? key false false false rest) := by
  rw [optionChars, List.append_assoc, List.cons_append, findOption?_key hk ho hne,
    option.2.findOption?_chars hk hv hr, passed_passed]
  simp

theorem findOption?_mark {c : Char} (hc : c = ':' ∨ c = ',' ∨ c = '=') (rest : List Char) :
    findOption? key false false false (c :: rest) =
      passed [c] (findOption? key false false (c == '=' || c == ':') rest) := by
  have hq : c ≠ '\'' := by rcases hc with rfl | rfl | rfl <;> decide
  have hb : (c == '\\' && !false) = false := by rcases hc with rfl | rfl | rfl <;> decide
  rw [findOption?_cons hq (fun h => by cases h), hb]

variable {options pre post : List (String × OptionValue Float)} {rest : List Char}

/-- Options that a search for `key` passes: proper ones with other keys. -/
def Passable (key : List Char) (options : List (String × OptionValue Float)) : Prop :=
  ∀ option ∈ options,
    isKey option.1.toList = true ∧ option.2.isTame = true ∧ option.1.toList ≠ key

theorem ends_of_head {c : Char} (hc : c = ':' ∨ c = ',') (rest : List Char) : Ends (c :: rest) := by
  intro d hd
  cases hd
  exact hc

theorem findOption?_before (hk : isKey key = true) (h : Passable key options) :
    findOption? key false false true ((options.map optionChars).flatMap (· ++ [':']) ++ rest) =
      passed ((options.map optionChars).flatMap (· ++ [':']))
        (findOption? key false false true rest) := by
  induction options with
  | nil => simp
  | cons option options ih =>
    obtain ⟨⟨ho, hv, hne⟩, hrest⟩ := List.forall_mem_cons.1 h
    rw [List.map_cons, List.flatMap_cons, List.append_assoc, List.append_assoc, List.singleton_append,
      findOption?_other hk ho hv hne (ends_of_head (.inl rfl) _), findOption?_mark (.inl rfl)]
    change passed _ (passed _ (findOption? key false false true _)) = _
    rw [ih hrest]
    simp

private theorem findOption?_behind (hk : isKey key = true) (h : Passable key options) (hr : Ends rest) :
    Ends ((options.map optionChars).flatMap (':' :: ·) ++ rest) ∧
    findOption? key false false false ((options.map optionChars).flatMap (':' :: ·) ++ rest) =
      passed ((options.map optionChars).flatMap (':' :: ·))
        (findOption? key false false false rest) := by
  induction options with
  | nil => simpa using hr
  | cons option options ih =>
    obtain ⟨⟨ho, hv, hne⟩, hrest⟩ := List.forall_mem_cons.1 h
    obtain ⟨hends, ih⟩ := ih hrest
    refine ⟨ends_of_head (.inl rfl) _, ?_⟩
    rw [List.map_cons, List.flatMap_cons, List.cons_append, List.cons_append, List.append_assoc,
      findOption?_mark (.inl rfl)]
    change passed _ (findOption? key false false true _) = _
    rw [findOption?_other hk ho hv hne hends, ih]
    simp

theorem IsTame.name_not_special {op : Operation Float} (h : op.IsTame) :
    ∀ c ∈ op.name.toList, c ∉ ['\'', '\\', '=', ':'] := fun c hc hm =>
  not_special_of_isPlain (h.isPlain_name c hc) (List.mem_append_left [',', ']'] hm)

theorem IsTame.findOption?_chars {op : Operation Float} (h : op.IsTame) (hk : isKey key = true)
    (hl : Passable key op.options) (hr : Ends rest) :
    findOption? key false false false (op.chars ++ rest) =
      passed op.chars (findOption? key false false false rest) := by
  have hname := h.name_not_special
  by_cases ho : op.options = []
  · rw [chars_of_nil ho, findOption?_inside hname]
  · obtain ⟨option, options, heq⟩ := List.exists_cons_of_ne_nil ho
    rw [heq] at hl
    obtain ⟨⟨hkey, hv, hne⟩, hrest⟩ := List.forall_mem_cons.1 hl
    have hbehind := findOption?_behind hk hrest hr
    have hj := Text.join_append_cons ':' [] (optionChars option) (options.map optionChars)
    rw [List.nil_append, List.flatMap_nil, List.nil_append] at hj
    rw [chars_eq ho, heq, List.map_cons, hj, List.append_assoc, List.cons_append, List.append_assoc,
      findOption?_inside hname, findOption?_mark (.inr (.inr rfl))]
    change passed _ (passed _ (findOption? key false false true _)) = _
    rw [findOption?_other hk hkey hv hne hbehind.1, hbehind.2]
    simp

variable {ops : List (Operation Float)}

theorem findOption?_filtersBefore (hk : isKey key = true)
    (h : ∀ op ∈ ops, op.IsTame ∧ Passable key op.options) :
    findOption? key false false false ((ops.map chars).flatMap (· ++ [',']) ++ rest) =
      passed ((ops.map chars).flatMap (· ++ [','])) (findOption? key false false false rest) := by
  induction ops with
  | nil => simp
  | cons op ops ih =>
    obtain ⟨⟨ht, hl⟩, hrest⟩ := List.forall_mem_cons.1 h
    rw [List.map_cons, List.flatMap_cons, List.append_assoc, List.append_assoc, List.singleton_append,
      ht.findOption?_chars hk hl (ends_of_head (.inr rfl) _), findOption?_mark (.inr (.inl rfl))]
    change passed _ (passed _ (findOption? key false false false _)) = _
    rw [ih hrest]
    simp

/-- The search finds nothing where no filter has the key. -/
theorem findOption?_joined_eq_none (hk : isKey key = true)
    (h : ∀ op ∈ ops, op.IsTame ∧ Passable key op.options) :
    findOption? key false false false (joined ops).toList = none := by
  rw [joined, String.toList_ofList]
  rcases List.eq_nil_or_concat ops with rfl | ⟨ops, op, rfl⟩
  · rfl
  · rw [List.concat_eq_append] at h ⊢
    rw [List.forall_mem_append, List.forall_mem_singleton] at h
    obtain ⟨hops, ht, hl⟩ := h
    have hends : Ends [] := fun c hc => by cases hc
    have hlast := ht.findOption?_chars hk hl hends
    rw [List.append_nil] at hlast
    rw [List.map_append, List.map_singleton, Text.join_append_cons, List.flatMap_nil, List.append_nil,
      findOption?_filtersBefore hk hops, hlast]
    rfl

def textBefore (ops : List (Operation Float)) (name : String)
    (pre : List (String × OptionValue Float)) : List Char :=
  (ops.map chars).flatMap (· ++ [',']) ++ (name.toList ++ '=' :: (pre.map optionChars).flatMap (· ++ [':']))

def textBehind (post : List (String × OptionValue Float)) (ops : List (Operation Float)) : List Char :=
  (post.map optionChars).flatMap (':' :: ·) ++ (ops.map chars).flatMap (',' :: ·)

theorem toList_joined_around (before after : List (Operation Float)) (name : String)
    (pre post : List (String × OptionValue Float)) (option : String × OptionValue Float) :
    (joined (before ++ ⟨name, pre ++ option :: post⟩ :: after)).toList =
      textBefore before name pre ++ optionChars option ++ textBehind post after := by
  have hc : chars ⟨name, pre ++ option :: post⟩ = name.toList ++ '=' ::
      ((pre.map optionChars).flatMap (· ++ [':']) ++
        (optionChars option ++ (post.map optionChars).flatMap (':' :: ·))) := by
    rw [IsTame.chars_eq (by simp), List.map_append, List.map_cons, Text.join_append_cons]
  rw [joined, String.toList_ofList, List.map_append, List.map_cons, Text.join_append_cons, hc]
  simp [textBefore, textBehind]

/-- The search finds the first option with the key. -/
theorem findOption?_joined (hk : isKey key = true) {before : List (Operation Float)}
    (after : List (Operation Float)) {name : String} {option : String × OptionValue Float}
    (hop : IsTame ⟨name, pre ++ option :: post⟩)
    (hb : ∀ op ∈ before, op.IsTame ∧ Passable key op.options) (hpre : Passable key pre)
    (hkey : option.1.toList = key) :
    findOption? key false false false (joined (before ++ ⟨name, pre ++ option :: post⟩ :: after)).toList =
      some (textBefore before name pre, option.2.chars ++ textBehind post after) := by
  have hname : ∀ c ∈ name.toList, c ∉ ['\'', '\\', '=', ':'] := hop.name_not_special
  rw [toList_joined_around, textBefore, List.append_assoc, List.append_assoc, List.append_assoc,
    findOption?_filtersBefore hk hb, findOption?_inside hname, List.cons_append,
    findOption?_mark (.inr (.inr rfl))]
  change passed _ (passed _ (passed _ (findOption? key false false true _))) = _
  rw [findOption?_before hk hpre, optionChars, hkey, List.append_assoc, List.cons_append,
    findOption?_same hk]
  simp [passed]

end Operation

end OpenCaptions
