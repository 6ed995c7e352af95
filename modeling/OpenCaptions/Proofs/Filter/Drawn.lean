import OpenCaptions.Filter.Assembly
import OpenCaptions.Proofs.Filter.Tame

/-!
The filters that a style and a frame lead to. Fonts and colors are checked before they get into a filter and
text is escaped, so every filter keeps to itself.
-/
namespace OpenCaptions

open OpenCaptions.Filter

namespace Font

theorem normalize_mem_standard (name : String) : normalize name ∈ standard := by
  have hd : ∀ entry ∈ aliases, entry.2 ∈ standard := by decide
  unfold normalize
  cases h : aliases.lookup name with
  | none =>
    rw [Option.getD_none]
    split
    · assumption
    · decide
  | some other =>
    obtain ⟨before, after, heq, -⟩ := List.lookup_eq_some_iff.1 h
    exact hd (name, other) (by simp [heq])

theorem isSealed_standard : ∀ name ∈ standard, isSealed name.toList = true := by decide

end Font

/-- The text of a font that can stand between quotes; a path has no bare colons either. -/
def FontChoice.IsTame : FontChoice → Prop
  | .file path _ => isSealed path.toList = true ∧ guards (· == ':') false path.toList = true
  | .standard name => name ∈ Font.standard

theorem Font.isTame_choose (isFile : String → Bool) (fonts : FontRegistry) (name : String) :
    (Font.choose isFile fonts name).IsTame := by
  have hs : (FontChoice.standard (normalize name)).IsTame := normalize_mem_standard name
  unfold choose
  split
  · split
    · rename_i font _ _
      simp only [FontChoice.IsTame, String.toList_ofList, escapePath]
      refine ⟨isSealed_escape _, guards_escape (fun c hc => ?_) _⟩
      rw [beq_iff_eq] at hc
      subst hc
      decide
    · exact hs
  · exact hs

namespace Style

theorem isPlain_of_isColor {color : List Char} (h : isColor color = true) :
    ∀ c ∈ color, isPlain c = true := by
  have hhex : ∀ c, Json.isHexDigit c = true → isPlain c = true := by
    intro c hc
    simp only [Json.isHexDigit, Bool.or_eq_true, Bool.and_eq_true, decide_eq_true_eq] at hc
    rcases hc with (hd | ⟨hl, hu⟩) | ⟨hl, hu⟩
    · simp [isPlain, Char.isAlphanum, hd]
    · have hz : c ≤ 'z' := Char.le_trans hu (by decide)
      have hc : c.isLower = true := by simpa [Char.isLower] using ⟨hl, hz⟩
      simp [isPlain, Char.isAlphanum, Char.isAlpha, hc]
    · have hz : c ≤ 'Z' := Char.le_trans hu (by decide)
      have hc : c.isUpper = true := by simpa [Char.isUpper] using ⟨hl, hz⟩
      simp [isPlain, Char.isAlphanum, Char.isAlpha, hc]
  unfold isColor at h
  split at h
  · simp only [Bool.and_eq_true, List.all_eq_true] at h
    exact List.forall_mem_cons.2 ⟨rfl, fun c hc => hhex c (h.2 c hc)⟩
  · simp only [Bool.and_eq_true, List.all_eq_true] at h
    exact List.forall_mem_cons.2 ⟨rfl, List.forall_mem_cons.2 ⟨rfl, fun c hc => hhex c (h.2 c hc)⟩⟩
  · simp only [Bool.and_eq_true, List.all_eq_true] at h
    exact fun c hc => by simp [isPlain, Char.isAlphanum, h.2 c hc]

structure IsTame (style : Style Float) : Prop where
  font : style.font.IsTame
  color : isColor style.color.toList = true
  background : ∀ box, style.background = some box → isColor box.color.toList = true
  outline : ∀ outline, style.outline = some outline → isColor outline.color.toList = true

private theorem isColor_checkColor (color : String) {fallback : String} (h : isColor fallback.toList = true) :
    isColor (checkColor color fallback).1.toList = true := by
  unfold checkColor
  split
  · assumption
  · exact h

theorem isTame_ofPreset (isFile : String → Bool) (fonts : FontRegistry) (p : Preset) :
    (ofPreset isFile fonts p).IsTame where
  font := Font.isTame_choose isFile fonts p.font
  color := isColor_checkColor p.color (by decide)
  background := by
    intro box h
    simp only [ofPreset] at h
    split at h
    · cases h
      exact isColor_checkColor p.backgroundColor (by decide)
    · cases h
  outline := by
    intro outline h
    simp only [ofPreset] at h
    split at h
    · cases h
      exact isColor_checkColor p.outlineColor (by decide)
    · cases h

end Style

namespace Drawtext

def colors (style : Style Float) : List String := style.color :: (style.outline.map (·.color)).toList

theorem draw_of_timing {α : Type} [Scalar α] {c : Caption α} {style : Style α} {fade : α} {timing : Timing α}
    (hf : Scalar.isFinite fade = true) (hn : Scalar.lt fade (Scalar.ofNat 0) = false)
    (ht : c.timing style.animation style.y fade = .ok timing) :
    c.draw style fade =
      ⟨outlinePasses c style (timing.position.getD style.y) timing.opacity ++
        [pass c style style.color style.x (timing.position.getD style.y) (boxOptions style.background)
          timing.opacity], none⟩ := by
  have hguard : ¬ (!Scalar.isFinite fade || Scalar.lt fade (Scalar.ofNat 0)) = true := by
    rw [hf, hn]
    exact Bool.false_ne_true
  have hanimated : animated c style fade = .ok (outlinePasses c style (timing.position.getD style.y) timing.opacity ++
      [pass c style style.color style.x (timing.position.getD style.y) (boxOptions style.background)
        timing.opacity]) := by
    unfold animated
    rw [if_neg hguard, ht]
    rfl
  rw [Caption.draw, hanimated]

theorem animated_eq_ok {c : Caption Float} {style : Style Float} {fade : Float}
    {operations : List (Operation Float)} (h : animated c style fade = .ok operations) :
    fade.isFinite = true ∧ Scalar.lt fade (Scalar.ofNat 0) = false ∧
      ∃ timing, c.timing style.animation style.y fade = .ok timing ∧
        operations = outlinePasses c style (timing.position.getD style.y) timing.opacity ++
          [pass c style style.color style.x (timing.position.getD style.y) (boxOptions style.background)
            timing.opacity] := by
  unfold animated at h
  by_cases hf : (!Scalar.isFinite fade || Scalar.lt fade (Scalar.ofNat 0)) = true
  · simp [hf, throw, throwThe, MonadExceptOf.throw, bind, Except.bind] at h
  · simp only [hf, Bool.false_eq_true, if_false] at h
    simp only [Bool.or_eq_true, Bool.not_eq_true', not_or, Bool.not_eq_true, Bool.not_eq_false] at hf
    cases ht : c.timing style.animation style.y fade with
    | error e => simp [ht, bind, Except.bind, Except.mapError] at h
    | ok timing =>
      simp only [ht, bind, Except.bind, pure, Except.pure, Except.mapError, Except.ok.injEq] at h
      exact ⟨hf.1, hf.2, timing, rfl, h.symm⟩

/-- What a caption's filters are: plain text, or passes that share the opacity of the animation. -/
theorem mem_operations_draw {c : Caption Float} {style : Style Float} {fade : Float}
    {op : Operation Float} (h : op ∈ (c.draw style fade).operations) :
    op = plain c style ∨
      ∃ timing color x y box, c.timing style.animation style.y fade = .ok timing ∧
        fade.isFinite = true ∧ Scalar.lt fade (Scalar.ofNat 0) = false ∧ color ∈ colors style ∧
        box ∈ [[], boxOptions style.background] ∧ op = pass c style color x y box timing.opacity := by
  unfold Caption.draw at h
  split at h
  · rename_i operations ha
    obtain ⟨hf, hn, timing, ht, rfl⟩ := animated_eq_ok ha
    rw [List.mem_append, List.mem_singleton] at h
    rcases h with h | rfl
    · unfold outlinePasses at h
      split at h
      · rename_i outline ho
        obtain ⟨⟨dx, dy⟩, -, rfl⟩ := List.mem_map.1 h
        exact .inr ⟨timing, _, _, _, _, ht, hf, hn, by simp [colors, ho], by simp, rfl⟩
      · cases h
    · exact .inr ⟨timing, _, _, _, _, ht, hf, hn, by simp [colors], by simp, rfl⟩
  · exact .inl (List.mem_singleton.1 h)

variable {c : Caption Float} {style : Style Float}

theorem isTame_textOption (text : String) : (textOption (α := Float) text).2.isTame = true := by
  simp only [textOption, OptionValue.isTame, String.toList_ofList]
  exact isSealed_escape text.toList

theorem fontOption_spec {font : FontChoice} (h : font.IsTame) :
    isKey (fontOption (α := Float) font).1.toList = true ∧
      (fontOption (α := Float) font).2.isTame = true := by
  have hfile : isKey "fontfile".toList = true := by decide
  have hname : isKey "font".toList = true := by decide
  cases font with
  | file path name => exact ⟨hfile, h.1⟩
  | standard name => exact ⟨hname, Font.isSealed_standard name h⟩

theorem fontOption_quoted {font : FontChoice} (h : font.IsTame) :
    (fontOption (α := Float) font).2.isQuoted = true ∧
      ((fontOption (α := Float) font).1 = "fontfile" → ∃ path,
        (fontOption (α := Float) font).2 = .quoted path ∧
          guards (· == ':') false path.toList = true) := by
  cases font with
  | file path name => exact ⟨rfl, fun _ => ⟨path, rfl, h.2⟩⟩
  | standard name => exact ⟨rfl, fun hk => by simp [fontOption] at hk⟩

theorem isTame_number (n : Nat) : (OptionValue.number n).isTame = true :=
  isPlainText_of_forall fun c hc => by
    simp [isPlain, Char.isAlphanum, Number.isDigit_of_mem_toDigits hc]

theorem isTame_color {color : String} (h : Style.isColor color.toList = true) :
    (OptionValue.word color).isTame = true :=
  isPlainText_of_forall (Style.isPlain_of_isColor h)

theorem isTame_tint {color : String} (h : Style.isColor color.toList = true) (opacity : Float) :
    (OptionValue.tint color opacity).isTame = true := by
  refine isPlainText_of_forall ?_
  simp only [OptionValue.content, List.forall_mem_append, List.forall_mem_cons]
  refine ⟨Style.isPlain_of_isColor h, rfl, fun c hc => ?_⟩
  rcases Number.Numeral.mem_positional hc with h | rfl | rfl
  · simp [isPlain, h]
  · rfl
  · rfl

theorem isTame_plain (h : style.IsTame) : (plain c style).IsTame where
  known := by simp [plain, knownFilters]
  keys := by
    simp only [plain, List.forall_mem_cons, textOption]
    exact ⟨by decide, by decide, by decide, by decide, by decide, by decide, by simp⟩
  values := by
    simp only [plain, List.forall_mem_cons]
    exact ⟨isTame_textOption _, by decide, isTame_number _, isTame_color h.color, rfl, rfl, by simp⟩
  bare := by simp [plain]

theorem boxOptions_spec (h : style.IsTame) :
    ∀ option ∈ boxOptions style.background, isKey option.1.toList = true ∧ option.2.isTame = true := by
  unfold boxOptions
  split
  · rename_i box hb
    simp only [List.forall_mem_cons]
    exact ⟨⟨by decide, isTame_number _⟩, ⟨by decide, isTame_tint (h.background box hb) _⟩,
      ⟨by decide, isTame_number _⟩, by simp⟩
  · simp

private theorem isColor_of_mem_colors (h : style.IsTame) :
    ∀ color ∈ colors style, Style.isColor color.toList = true := by
  simp only [colors, List.forall_mem_cons]
  refine ⟨h.color, fun color hc => ?_⟩
  rw [Option.mem_toList, Option.map_eq_some_iff] at hc
  obtain ⟨outline, ho, rfl⟩ := hc
  exact h.outline outline ho

theorem isTame_pass (h : style.IsTame) {color : String} (hc : color ∈ colors style) (x y opacity : Expr Float)
    {box : List (String × OptionValue Float)} (hb : box ∈ [[], boxOptions style.background]) :
    (pass c style color x y box opacity).IsTame := by
  have hbox : ∀ option ∈ box, isKey option.1.toList = true ∧ option.2.isTame = true := by
    simp only [List.mem_cons, List.not_mem_nil, or_false] at hb
    rcases hb with rfl | rfl
    · simp
    · exact boxOptions_spec h
  have hfont := fontOption_spec h.font
  have hcolor := isTame_color (isColor_of_mem_colors h color hc)
  constructor
  · simp [pass, knownFilters]
  · simp only [pass, List.forall_mem_append, List.forall_mem_cons, textOption]
    exact ⟨⟨⟨by decide, hfont.1, by decide, by decide, by decide, by decide, by simp⟩,
      fun option hm => (hbox option hm).1⟩, by decide, by simp⟩
  · simp only [pass, List.forall_mem_append, List.forall_mem_cons]
    exact ⟨⟨⟨isTame_textOption _, hfont.2, isTame_number _, hcolor, rfl, rfl, by simp⟩,
      fun option hm => (hbox option hm).2⟩, rfl, by simp⟩
  · simp [pass]

theorem isQuoted_plain (h : style.IsTame) : (plain c style).IsQuoted where
  tame := isTame_plain h
  quoted := by simp [plain, textOption, OptionValue.isQuoted]
  file := by simp [plain, textOption]

theorem boxOptions_keys {box : List (String × OptionValue Float)}
    (hb : box ∈ [[], boxOptions style.background]) :
    ∀ option ∈ box, option.1 ∉ ["text", "font", "fontfile", "x", "y", "alpha"] := by
  simp only [List.mem_cons, List.not_mem_nil, or_false] at hb
  rcases hb with rfl | rfl
  · simp
  · unfold boxOptions
    split <;> simp

theorem isQuoted_pass (h : style.IsTame) {color : String} (hc : color ∈ colors style) (x y opacity : Expr Float)
    {box : List (String × OptionValue Float)} (hb : box ∈ [[], boxOptions style.background]) :
    (pass c style color x y box opacity).IsQuoted := by
  have hkeys := boxOptions_keys hb
  obtain ⟨hfont, hfile⟩ := fontOption_quoted h.font
  refine ⟨isTame_pass h hc x y opacity hb, ?_, ?_⟩
  all_goals simp only [pass, List.forall_mem_append, List.forall_mem_cons]
  · refine ⟨⟨⟨fun _ => rfl, fun _ => hfont, by simp, by simp, by simp, by simp, by simp⟩, ?_⟩, by simp⟩
    intro option hm hkey
    exact absurd (List.mem_append_left ["fontfile", "x", "y", "alpha"] hkey) (hkeys option hm)
  · refine ⟨⟨⟨by simp [textOption], hfile, by simp, by simp, by simp, by simp, by simp⟩, ?_⟩, by simp⟩
    intro option hm hkey
    exact absurd (by simp [hkey]) (hkeys option hm)

/-- Every filter of a caption is proper. -/
theorem isQuoted_of_mem_draw {fade : Float} (h : style.IsTame) :
    ∀ op ∈ (c.draw style fade).operations, op.IsQuoted := by
  intro op hop
  rcases mem_operations_draw hop with rfl | ⟨timing, color, x, y, box, -, -, -, hc, hb, rfl⟩
  · exact isQuoted_plain h
  · exact isQuoted_pass h hc x y timing.opacity hb

theorem draw_ne_nil (fade : Float) : (c.draw style fade).operations ≠ [] := by
  unfold Caption.draw
  split
  · rename_i ha
    obtain ⟨-, -, timing, -, rfl⟩ := animated_eq_ok ha
    simp
  · simp

end Drawtext

theorem AspectRatio.isQuoted_of_mem_operations (width height : Nat) (mode : ScaleMode) :
    ∀ op ∈ AspectRatio.operations (α := Float) width height mode, op.IsQuoted ∧ op.name ≠ "drawtext" := by
  have hw := Drawtext.isTame_number width
  have hh := Drawtext.isTame_number height
  have h1 : (OptionValue.number 1).isTame = true := Drawtext.isTame_number 1
  intro op hop
  cases mode
  all_goals
    simp only [AspectRatio.operations, List.cons_append, List.nil_append, List.mem_cons,
      List.not_mem_nil, or_false] at hop
    rcases hop with rfl | rfl | rfl
    all_goals
      refine ⟨⟨⟨?_, ?_, ?_, by simp⟩, by simp, by simp⟩, by simp⟩
      · simp [knownFilters]
      · simp only [List.forall_mem_cons]
        decide
      · simp only [List.forall_mem_cons, hw, hh, h1, true_and]
        decide

theorem AspectRatio.operations_ne_nil (width height : Nat) (mode : ScaleMode) :
    AspectRatio.operations (α := Float) width height mode ≠ [] := by
  simp [AspectRatio.operations]

end OpenCaptions
