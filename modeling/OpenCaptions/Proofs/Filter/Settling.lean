import OpenCaptions.Proofs.Filter.Assembled
import OpenCaptions.Proofs.Filter.Completing
import OpenCaptions.Proofs.Filter.Repairing

/-!
Sanitizing a second time. A pass that repairs something takes a font file out of the text or makes it longer, and no
later pass undoes that, so a text stays as it is exactly if none of the passes finds anything to repair. Of a sanitized
text the first text and the first font have quotes; what may be left is a font file that has come out of the quotes, or
a quote that has been left open.
-/
namespace OpenCaptions.Filter

variable {s t r : List Char} {repair : List Char → Option (Option (List Char))} {n : Nat}

/-- What a repair does to a text: it takes a font file out of it, or it makes it longer and brings no font file. -/
def Advances (s r : List Char) : Prop :=
  fileMentions r < fileMentions s ∨ fileMentions r ≤ fileMentions s ∧ s.length < r.length

theorem Advances.trans (h : Advances s t) (h' : Advances t r) : Advances s r := by
  unfold Advances at h h' ⊢
  omega

theorem not_advances_self (s : List Char) : ¬ Advances s s := by
  unfold Advances
  omega

/-- A run of repairs finds nothing to repair, or it advances as each repair does. -/
theorem advances_of_repeatRepair (hstep : ∀ s r, repair s = some (some r) → Advances s r)
    (h : repeatRepair repair n s = some r) : (n ≠ 0 → repair s = some none) ∧ r = s ∨ Advances s r := by
  induction n generalizing s with
  | zero => exact .inl ⟨fun hne => absurd rfl hne, (Option.some.inj h).symm⟩
  | succ n ih =>
    rw [repeatRepair] at h
    cases hrepair : repair s with
    | none =>
      rw [hrepair] at h
      cases h
    | some next =>
      rw [hrepair] at h
      cases next with
      | none => exact .inl ⟨fun _ => rfl, (Option.some.inj h).symm⟩
      | some t =>
        have hfirst := hstep s t hrepair
        rcases ih h with ⟨-, rfl⟩ | hrest
        · exact .inr hfirst
        · exact .inr (hfirst.trans hrest)

/-- No pass finds anything to repair. -/
def NeedsNothing (s : List Char) : Prop :=
  replaceFontFile s = some none ∧ closeQuote s = some none ∧ quoteBare s = some none

/-- Sanitizing leaves a text that needs nothing, and advances with any other. -/
theorem advances_of_sanitize? (h : sanitize? s = some r) : NeedsNothing s ∧ r = s ∨ Advances s r := by
  simp only [sanitize?, Option.bind_eq_bind, Option.bind_eq_some_iff] at h
  obtain ⟨replaced, hreplaced, closed, hclosed, hquoted⟩ := h
  have hmost : mostRepairs ≠ 0 := by decide
  have hreplaced := advances_of_repeatRepair (fun _ _ h => .inl (fileMentions_lt_of_replaceFontFile h)) hreplaced
  have hclosed := advances_of_repeatRepair
    (fun _ _ h => .inr ⟨fileMentions_le_of_closeQuote h, length_lt_of_closeQuote h⟩) hclosed
  have hquoted := advances_of_repeatRepair
    (fun _ _ h => .inr ⟨fileMentions_le_of_quoteBare h, length_lt_of_quoteBare h⟩) hquoted
  rcases hreplaced with ⟨hfiles, rfl⟩ | hreplaced
  · rcases hclosed with ⟨hclose, rfl⟩ | hclosed
    · rcases hquoted with ⟨hbare, rfl⟩ | hquoted
      · exact .inl ⟨⟨hfiles hmost, hclose hmost, hbare hmost⟩, rfl⟩
      · exact .inr hquoted
    · rcases hquoted with ⟨-, rfl⟩ | hquoted
      · exact .inr hclosed
      · exact .inr (hclosed.trans hquoted)
  · have hclosed : Advances s closed := by
      rcases hclosed with ⟨-, rfl⟩ | hclosed
      · exact hreplaced
      · exact hreplaced.trans hclosed
    rcases hquoted with ⟨-, rfl⟩ | hquoted
    · exact .inr hclosed
    · exact .inr (hclosed.trans hquoted)

theorem sanitize?_eq_self_iff : sanitize? s = some s ↔ NeedsNothing s := by
  constructor
  · intro h
    rcases advances_of_sanitize? h with ⟨hnothing, -⟩ | hadvances
    · exact hnothing
    · exact absurd hadvances (not_advances_self s)
  · rintro ⟨hfiles, hclose, hbare⟩
    simp only [sanitize?, Operation.repeatRepair_of_eq_none hfiles, Operation.repeatRepair_of_eq_none hclose,
      Operation.repeatRepair_of_eq_none hbare, Option.bind_eq_bind, Option.bind_some]

theorem replaceFontFile_eq_none_iff :
    replaceFontFile s = some none ↔ ∀ entry ∈ options {} s, entry.key ≠ fontFileKey := by
  refine ⟨key_ne_of_replaceFontFile, fun h => ?_⟩
  have hk : fontFileKey ∈ repairedKeys := by decide
  have hfind := find?_options hk {} s
  have hnone : (options {} s).find? (·.key == fontFileKey) = none := by simpa using h
  rw [hnone] at hfind
  rw [replaceFontFile, find?_eq_some_none_iff.2 (Option.map_eq_none_iff.1 hfind.symm)]
  rfl

theorem closeQuote_eq_none_iff :
    closeQuote s = some none ↔
      (endsQuoted false false s = true → closeValue? textKey s = none ∧ closeValue? fontKey s = none) := by
  rw [closeQuote]
  cases endsQuoted false false s with
  | false => simp
  | true => cases closeValue? textKey s <;> simp

theorem findBare?_eq_none_iff {key : List Char} (hk : key ∈ repairedKeys) :
    findBare? key s = some none ↔ Settled key (options {} s) := by
  refine ⟨settled_of_findBare? hk, fun h => ?_⟩
  cases hfound : findBare? key s with
  | none =>
    -- the value of an option inside the label has no quotes
    have hfind : find? key s = none := by
      cases hfind : find? key s with
      | none => rfl
      | some found =>
        rw [findBare?, hfind] at hfound
        cases found <;> cases hfound
    obtain ⟨before, name, behind, hat, -, -, hquote⟩ := inside_label_of_find? hk hfind
    have hentry := find?_options hk {} s
    rw [hat, Option.map_some, hquote] at hentry
    cases h _ hentry
  | some found =>
    cases found with
    | none => rfl
    | some found =>
      obtain ⟨front, rest, rest', hfirst, hold, -⟩ := options_quoteValue hk hfound
      rw [hold] at h
      exact absurd h (not_settled_bare hfirst)

theorem quoteBare_eq_none_iff :
    quoteBare s = some none ↔ Settled textKey (options {} s) ∧ Settled fontKey (options {} s) := by
  refine ⟨settled_of_quoteBare, fun ⟨htext, hfont⟩ => ?_⟩
  have htext := (findBare?_eq_none_iff (by decide)).2 htext
  have hfont := (findBare?_eq_none_iff (by decide)).2 hfont
  simp [quoteBare, htext, hfont]

/-- Of a sanitized text only font files that have come out of the quotes and open values can be repaired again. -/
theorem sanitize?_again_iff (h : sanitize? s = some r) :
    sanitize? r = some r ↔ (∀ entry ∈ options {} r, entry.key ≠ fontFileKey) ∧
      (endsQuoted false false r = true → closeValue? textKey r = none ∧ closeValue? fontKey r = none) := by
  have hbare := quoteBare_eq_none_iff.2 (settled_of_sanitize? h)
  rw [sanitize?_eq_self_iff, NeedsNothing, replaceFontFile_eq_none_iff, closeQuote_eq_none_iff]
  simp only [hbare, and_true]

/-- Where the options can be told apart, one sanitizing is enough. -/
theorem Segment.IsTidy.sanitize?_sanitized {segment : Segment} (h : segment.IsTidy)
    (hn : segment.settings.countP (·.key == fontFileKey) ≤ mostRepairs) :
    sanitize? segment.sanitized.chars = some segment.sanitized.chars := by
  obtain ⟨hsanitized, htidy⟩ := h.sanitize?_chars hn
  rw [sanitize?_again_iff hsanitized, ← closeQuote_eq_none_iff, htidy.options_chars, List.forall_mem_map]
  exact ⟨segment.sanitized_key_ne, htidy.closeQuote_chars⟩

end OpenCaptions.Filter

namespace OpenCaptions

/-- Proper filters are done with one sanitizing. -/
theorem Operation.sanitize?_withStandardFont {ops : List (Operation Float)} (hne : ops ≠ [])
    (h : ∀ op ∈ ops, op.IsQuoted) :
    Filter.sanitize? (joined (ops.map withStandardFont)).toList = some (joined (ops.map withStandardFont)).toList := by
  have hkeys : ∀ op ∈ ops.map withStandardFont, ∀ option ∈ op.options, option.1 ≠ "fontfile" :=
    List.forall_mem_map.2 fun op _ => op.withStandardFont_key_ne
  have hquoted : ∀ op ∈ ops.map withStandardFont, op.IsQuoted :=
    List.forall_mem_map.2 fun op hm => (h op hm).withStandardFont
  have hfew : fileCount (ops.map withStandardFont) ≤ Filter.mostRepairs := by
    rw [fileCount_withStandardFont]
    exact Nat.zero_le _
  rw [sanitize?_joined (by simpa using hne) hquoted hfew, map_withStandardFont_of_ne hkeys]

/-- A body of an assembled graph is done with one sanitizing. -/
theorem GraphRequest.sanitize?_again_of_mem_nodes {request : GraphRequest} {isFile : String → Bool}
    {source : Option (Nat × Nat)} {built : AssembledGraph} (h : request.assemble isFile source = .ok built)
    {node : FilterNode} (hm : node ∈ built.graph.nodes) {r : List Char}
    (hr : Filter.sanitize? node.body.toList = some r) : Filter.sanitize? r = some r := by
  obtain ⟨ops, hops, hbody⟩ := exists_filters_of_mem_nodes h node hm
  obtain ⟨hne, hq⟩ := isQuoted_of_mem_filters ops hops
  rw [hbody, Operation.sanitize?_joined hne hq (fileCount_of_mem_filters ops hops)] at hr
  cases hr
  exact Operation.sanitize?_withStandardFont hne hq

namespace Filter

/-- Sanitizing again changes nothing exactly if no font file has come out of the quotes and no text or font is left
with its quote open. That is so where the options can be told apart, and for each body of an assembled graph. -/
theorem sanitizing_again_iff (s r : List Char) (h : sanitize? s = some r) :
    (sanitize? r = some r ↔ (∀ entry ∈ options {} r, entry.key ≠ fontFileKey) ∧
      (endsQuoted false false r = true → closeValue? textKey r = none ∧ closeValue? fontKey r = none)) ∧
    (∀ segment : Segment, segment.chars = s → segment.IsTidy →
      segment.settings.countP (·.key == fontFileKey) ≤ mostRepairs → sanitize? r = some r) ∧
    ∀ (request : GraphRequest) (isFile : String → Bool) (source : Option (Nat × Nat)) (built : AssembledGraph),
      request.assemble isFile source = .ok built → ∀ node ∈ built.graph.nodes, node.body.toList = s →
        sanitize? r = some r := by
  refine ⟨sanitize?_again_iff h, ?_, ?_⟩
  · rintro segment rfl htidy hn
    rw [(htidy.sanitize?_chars hn).1] at h
    cases h
    exact htidy.sanitize?_sanitized hn
  · rintro request isFile source built hbuilt node hm rfl
    exact GraphRequest.sanitize?_again_of_mem_nodes hbuilt hm h

/-- A quote that is missing and a font without quotes are repaired at once. -/
theorem sanitizing_again_unclosed :
    sanitize? "[0:v]drawtext=text='Hello:font=Arial[v0]".toList = some "[0:v]drawtext=text='Hello':font='Arial'[v0]".toList ∧
      sanitize? "[0:v]drawtext=text='Hello':font='Arial'[v0]".toList =
        some "[0:v]drawtext=text='Hello':font='Arial'[v0]".toList :=
  have h : sanitize? "[0:v]drawtext=text='Hello:font=Arial[v0]".toList =
      some "[0:v]drawtext=text='Hello':font='Arial'[v0]".toList := by decide
  ⟨h, (sanitizing_again_iff _ _ h).1.2 (by decide)⟩

/-- Quotes around a text with a stray quote, and a quote that closes a text, uncover a font file that only another
sanitizing replaces. -/
theorem again_uncovered_fontFile :
    ((options {} "[0:v]drawtext=text=it's:fontfile=a[v0]".toList).length ≤ mostRepairs ∧
      sanitize? "[0:v]drawtext=text=it's:fontfile=a[v0]".toList =
        some "[0:v]drawtext=text='it\\'s':fontfile=a[v0]".toList ∧
      sanitize? "[0:v]drawtext=text='it\\'s':fontfile=a[v0]".toList =
        some "[0:v]drawtext=text='it\\'s':font='Arial'[v0]".toList) ∧
    ((options {} "[0:v]drawtext=text='abc:fontfile=x[v0]".toList).length ≤ mostRepairs ∧
      sanitize? "[0:v]drawtext=text='abc:fontfile=x[v0]".toList =
        some "[0:v]drawtext=text='abc':fontfile=x[v0]".toList ∧
      sanitize? "[0:v]drawtext=text='abc':fontfile=x[v0]".toList =
        some "[0:v]drawtext=text='abc':font='Arial'[v0]".toList) := by
  decide

end Filter

end OpenCaptions
