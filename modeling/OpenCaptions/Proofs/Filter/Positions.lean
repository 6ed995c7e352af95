import OpenCaptions.Proofs.Expr.Readable
import OpenCaptions.Proofs.Filter.Accepting
import OpenCaptions.Proofs.Number.Sign

/-!
The positions of drawn text. They are printed, offset for an outline and moved by an animation; which of them
can be read again depends on the positions of the preset and the limits of formulas only.
-/
namespace OpenCaptions

open Number Text

namespace Expr

theorem one_le_precedence (e : Expr Float) : 1 ≤ e.precedence := by
  cases e with
  | number value =>
    rw [precedence]
    split
    · exact Nat.le_add_left 1 2
    · exact Nat.le_add_left 1 3
  | binary operator left right => cases operator <;> exact Nat.le_add_left 1 _
  | negate operand => exact Nat.le_add_left 1 2
  | _ => exact Nat.le_add_left 1 3

theorem le_enclosedLevels (needed : Bool) (levels : Nat) : levels ≤ enclosedLevels needed levels := by
  cases needed with
  | false => exact Nat.le_refl levels
  | true => exact Nat.le_succ levels

theorem one_le_levels (e : Expr Float) : 1 ≤ e.levels := by
  induction e with
  | number value =>
    rw [levels]
    split
    · exact Nat.le_succ 1
    · exact Nat.le_refl 1
  | var name => exact Nat.le_refl 1
  | binary operator left right ihl ihr =>
    have := le_enclosedLevels (left.precedence < operator.precedence) left.levels
    simp only [levels]
    omega
  | _ => exact Nat.le_add_left 1 _

theorem Fits.third {function : TernaryFunction} {a b c : Expr Float} {room : Nat}
    (h : (apply3 function a b c).Fits room) : c.Fits room := by
  obtain ⟨hsize, hdepth⟩ := h
  simp only [chars, Utf8.size_append, Utf8.size_cons] at hsize
  simp only [Expr.levels] at hdepth
  exact ⟨by omega, by omega⟩

/-- Room for an unsigned number behind a formula is room for the sum or the difference. -/
theorem fits_number_iff {operator : Operator} (hop : operator.isProduct = false) (e : Expr Float) {value : Float}
    (hz : isBelowZero value = false) (hs : Literal.isSigned value = false) :
    (binary operator e (.number value)).Fits 0 ↔ e.Fits (Utf8.size (Written.text value) + 1) := by
  have hp : operator.precedence = 1 := by rw [Operator.precedence, hop]; rfl
  have hleft : decide (e.precedence < operator.precedence) = false := by
    have := e.one_le_precedence
    rw [hp]
    exact decide_eq_false (by omega)
  have hright : (decide ((Expr.number value).precedence ≤ operator.precedence) ||
      (Expr.number value).isNegative) = false := by
    rw [precedence, isNegative, hz, hp]
    rfl
  have hsymbol : operator.symbol.utf8Size = 1 := by cases operator <;> rfl
  have hsize : Utf8.size (binary operator e (.number value)).chars =
      Utf8.size e.chars + (Utf8.size (Written.text value) + 1) := by
    simp only [chars, hleft, hright, parens, Bool.false_eq_true, if_false, Utf8.size_append, Utf8.size_cons, hsymbol]
    omega
  have hlevels : (binary operator e (.number value)).levels = e.levels := by
    have := e.one_le_levels
    simp only [levels, hleft, hright, hs, enclosedLevels, Bool.false_eq_true, if_false]
    omega
  exact ⟨fun h => ⟨hsize ▸ h.size, hlevels ▸ h.depth⟩, fun h => ⟨hsize ▸ h.size, hlevels ▸ h.depth⟩⟩

end Expr

def Style.room (style : Style Float) : Nat :=
  match style.outline with
  | some outline => Utf8.size (Written.text (Scalar.ofNat outline.size : Float)) + 1
  | none => 0

namespace Drawtext

theorem size_spec {size : Nat} (h0 : 0 < size) (h : size < 2 ^ 32) :
    (Scalar.ofNat size : Float).isFinite = true ∧ Expr.isBelowZero (Scalar.ofNat size : Float) = false ∧
      Literal.isSigned (Scalar.ofNat size : Float) = false ∧
      Expr.isBelowZero (-Scalar.ofNat size : Float) = true ∧ -(-Scalar.ofNat size : Float) = Scalar.ofNat size := by
  obtain ⟨m, e, hm, -, hsize⟩ := Binary64.ofFloat_nearest_natural h0 (h.trans (by decide))
  change Binary64.ofFloat (Scalar.ofNat size) = _ at hsize
  have hneg := Binary64.ofFloat_neg hsize
  have hfinite := Binary64.isFinite_iff.2 ⟨_, _, _, hsize⟩
  have hvalue : (0 : ℚ) < m * 2 ^ e := by positivity
  refine ⟨hfinite, ?_, ?_, ?_, Binary64.eq_of_ofFloat (Binary64.ofFloat_neg hneg) hsize⟩
  · refine decide_eq_false ?_
    rw [lt_iff_valueOf hfinite zero_spec.1, zero_spec.2, valueOf, hsize, not_lt]
    exact hvalue.le
  · rw [(Literal.sign_and_digits hfinite).1, Binary64.hasSignBit_eq hsize]
  · refine decide_eq_true ?_
    rw [lt_iff_valueOf (Binary64.isFinite_iff.2 ⟨_, _, _, hneg⟩) zero_spec.1, zero_spec.2, valueOf, hneg]
    exact neg_neg_of_pos hvalue

/-- A position that is offset to one side or the other can be read if there is room for the offset. -/
theorem isReadable_offset_iff {size : Nat} (h0 : 0 < size) (h : size < 2 ^ 32) (e : Expr Float) {distance : Float}
    (hd : distance ∈ [-Scalar.ofNat size, (Scalar.ofNat size : Float)]) :
    (offset e distance).IsReadable ↔
      e.Forall (·.isFinite = true) ∧ e.Fits (Utf8.size (Written.text (Scalar.ofNat size : Float)) + 1) := by
  obtain ⟨hfinite, hz, hs, hbelow, hopposite⟩ := size_spec h0 h
  have hoffset : ∃ operator : Operator, operator.isProduct = false ∧
      offset e distance = .binary operator e (.number (Scalar.ofNat size)) := by
    simp only [List.mem_cons, List.not_mem_nil, or_false] at hd
    rcases hd with rfl | rfl
    · refine ⟨.sub, rfl, (if_pos hbelow).trans ?_⟩
      rw [hopposite]
      rfl
    · exact ⟨.add, rfl, if_neg (Bool.eq_false_iff.1 hz)⟩
  obtain ⟨operator, hop, hoffset⟩ := hoffset
  rw [hoffset, Expr.isReadable_iff, Expr.fits_number_iff hop e hz hs]
  exact and_congr_left' (and_iff_left hfinite)

end Drawtext

namespace Timing

variable {start fade : Float} {base : Expr Float} {p : Float → Prop}

theorem forall_riseFromBelow (hzero : p (Scalar.ofNat 0)) (hway : p slideDistance) (hstart : p start) (hfade : p fade)
    (hend : p (start + fade)) : (riseFromBelow base start fade).Forall p ↔ base.Forall p :=
  ⟨fun h => h.2.2, fun h => ⟨⟨trivial, hend⟩, ⟨⟨h, hway⟩, hway, hzero, ⟨trivial, hstart⟩, hfade⟩, h⟩⟩

theorem forall_slideFromTop (hzero : p (Scalar.ofNat 0)) (hway : p slideDistance) (hstart : p start) (hfade : p fade)
    (hend : p (start + fade)) : (slideFromTop base start fade).Forall p ↔ base.Forall p :=
  ⟨fun h => h.2.2, fun h => ⟨⟨trivial, hend⟩, ⟨hway, ⟨hzero, ⟨trivial, hstart⟩, hfade⟩, h, hway⟩, h⟩⟩

/-- A movement repeats the position and adds few bytes and levels. -/
theorem weight_movement (base : Expr Float) (hstart : start.isFinite = true) (hfade : fade.isFinite = true)
    (hend : (start + fade).isFinite = true) :
    ∀ e ∈ [riseFromBelow base start fade, slideFromTop base start fade],
      e.weight ≤ 2 * base.weight + 1200 ∧ e.deepness ≤ max 5 base.deepness + 4 := by
  have hzero : Utf8.size (Written.text (Scalar.ofNat 0 : Float)) = 1 := by decide +kernel
  have hway : Utf8.size (Written.text (slideDistance : Float)) = 2 := by decide +kernel
  have h1 := Literal.size_text_le hstart
  have h2 := Literal.size_text_le hfade
  have h3 := Literal.size_text_le hend
  simp only [List.forall_mem_cons, riseFromBelow, slideFromTop, entryProgress, Expr.choose, Expr.less, Expr.larger,
    Expr.add, Expr.sub, Expr.mul, Expr.div, Expr.nat, Expr.time, Expr.weight, Expr.deepness, hzero, hway]
  exact ⟨⟨by omega, by omega⟩, ⟨by omega, by omega⟩, by simp⟩

end Timing

/-- The vertical position that a caption is drawn at, with its movement. -/
def Caption.height (c : Caption Float) (style : Style Float) (fade : Float) : Expr Float :=
  match c.timing style.animation style.y fade with
  | .ok timing => timing.position.getD style.y
  | .error _ => style.y

theorem Caption.height_cases {c : Caption Float} (style : Style Float) (fade : Float) (hv : c.validate = .ok ()) :
    c.height style fade = style.y ∨
      c.height style fade =
        Timing.riseFromBelow style.y c.start (Timing.fadeDuration c.start c.finish fade) ∨
      c.height style fade =
        Timing.slideFromTop style.y c.start (Timing.fadeDuration c.start c.finish fade) := by
  unfold Caption.height Caption.timing
  rw [hv]
  simp only [bind, Except.bind, pure, Except.pure]
  split
  · exact .inl rfl
  · cases style.animation with
    | appear => exact .inl rfl
    | fadeInBottom => exact .inr (.inl rfl)
    | slideFromTop => exact .inr (.inr rfl)
    | fadeIn => exact .inl rfl

/-- A movement has finite literals if the position at rest has, and takes no less room. -/
theorem Caption.height_spec {c : Caption Float} (style : Style Float) {fade : Float} (hv : c.validate = .ok ())
    (hf : fade.isFinite = true) :
    ((c.height style fade).Forall (·.isFinite = true) ↔ style.y.Forall (·.isFinite = true)) ∧
      ∀ room, (c.height style fade).Fits room → style.y.Fits room := by
  obtain ⟨hs, hfinish, h0, hlt⟩ := Caption.validate_eq_ok hv
  obtain ⟨hfade, -, -⟩ := Timing.fadeDuration_spec hs hfinish h0 hlt hf
  obtain ⟨hend, -⟩ := Timing.isFinite_trapezoid hs hfinish h0 hlt hf
  have hway : (Timing.slideDistance : Float).isFinite = true := by decide
  rcases Caption.height_cases style fade hv with h | h | h
  all_goals rw [h]
  · exact ⟨Iff.rfl, fun _ => id⟩
  · exact ⟨Timing.forall_riseFromBelow zero_spec.1 hway hs hfade hend, fun _ => Expr.Fits.third⟩
  · exact ⟨Timing.forall_slideFromTop zero_spec.1 hway hs hfade hend, fun _ => Expr.Fits.third⟩

/-- The positions of a style have finite literals, and there is room for the movement of a caption and the
outline. -/
structure Caption.HasRoom (c : Caption Float) (style : Style Float) (fade : Float) : Prop where
  finiteX : style.x.Forall (·.isFinite = true)
  finiteY : style.y.Forall (·.isFinite = true)
  fitsX : style.x.Fits style.room
  fitsY : (c.height style fade).Fits style.room

def Style.HasSize (style : Style Float) : Prop :=
  ∀ outline, style.outline = some outline → 0 < outline.size ∧ outline.size < 2 ^ 32

theorem Style.hasSize_ofPreset (isFile : String → Bool) (fonts : FontRegistry) {p : Preset}
    (hp : p.outlineSize < 2 ^ 32) : (Style.ofPreset isFile fonts p).HasSize := by
  intro outline ho
  simp only [Style.ofPreset] at ho
  split at ho
  · rename_i hpositive
    cases ho
    exact ⟨by simpa using (Bool.and_eq_true_iff.1 hpositive).2, hp⟩
  · cases ho

private theorem Style.room_le {style : Style Float} (h : style.HasSize) : style.room ≤ 347 := by
  unfold Style.room
  split
  · rename_i outline ho
    obtain ⟨hfinite, -⟩ := Drawtext.size_spec (h outline ho).1 (h outline ho).2
    exact Nat.succ_le_succ (Literal.size_text_le hfinite)
  · exact Nat.zero_le _

/-- There is room for positions that are not excessive. -/
theorem Caption.hasRoom_of_short {c : Caption Float} {style : Style Float} {fade : Float}
    (hv : c.validate = .ok ()) (hf : fade.isFinite = true) (hsize : style.HasSize)
    (hfinite : ∀ e ∈ [style.x, style.y], e.Forall (·.isFinite = true))
    (hshort : ∀ e ∈ [style.x, style.y], e.weight ≤ 1000 ∧ e.deepness ≤ 60) : c.HasRoom style fade := by
  obtain ⟨hs, hfinish, h0, hlt⟩ := Caption.validate_eq_ok hv
  obtain ⟨hfade, -, -⟩ := Timing.fadeDuration_spec hs hfinish h0 hlt hf
  obtain ⟨hend, -⟩ := Timing.isFinite_trapezoid hs hfinish h0 hlt hf
  have hroom := Style.room_le hsize
  have hlimit : longestFormula = 4096 ∧ deepestFormula = 64 := ⟨rfl, rfl⟩
  simp only [List.forall_mem_cons] at hfinite hshort
  obtain ⟨⟨hwx, hdx⟩, ⟨hwy, hdy⟩, -⟩ := hshort
  have hfits {e : Expr Float} (hw : e.weight ≤ 3200) (hd : e.deepness ≤ 64) : e.Fits style.room := by
    have h1 := e.size_chars_le
    have h2 := e.levels_le
    exact ⟨by omega, by omega⟩
  refine ⟨hfinite.1, hfinite.2.1, hfits (by omega) (by omega), ?_⟩
  have hmoving := Timing.weight_movement style.y hs hfade hend
  simp only [List.forall_mem_cons] at hmoving
  obtain ⟨hrise, hslide, -⟩ := hmoving
  rcases Caption.height_cases style fade hv with h | h | h
  all_goals rw [h]
  · exact hfits (by omega) (by omega)
  · exact hfits (by omega) (by omega)
  · exact hfits (by omega) (by omega)

namespace Operation

variable {op : Operation Float}

def IsReadable (op : Operation Float) : Prop :=
  ∀ option ∈ op.options, option.1 ∈ Filter.formulaKeys → ∃ e, option.2 = .formula e ∧ e.IsReadable

theorem Draws.isReadable_iff (h : op.Draws) {x y : Expr Float} (hx : op.option? "x" = some (.formula x))
    (hy : op.option? "y" = some (.formula y)) : op.IsReadable ↔ x.IsReadable ∧ y.IsReadable := by
  constructor
  · intro hall
    have hread {key : String} {e : Expr Float} (hk : key ∈ Filter.formulaKeys)
        (he : op.option? key = some (.formula e)) : e.IsReadable := by
      obtain ⟨e', heq, hread⟩ := hall _ (mem_of_option? he) hk
      rwa [OptionValue.formula.inj heq]
    exact ⟨hread (by decide) hx, hread (by decide) hy⟩
  · rintro ⟨hreadx, hready⟩ option hm hk
    obtain ⟨⟨e, he⟩, ⟨e', hread⟩ | ⟨hp, honce⟩⟩ := h.formula_cases option hm hk
    · refine ⟨e, he, e', ?_⟩
      rwa [he, Filter.unquote_chars rfl] at hread
    · refine ⟨e, he, ?_⟩
      rw [he] at honce
      simp only [List.mem_cons, List.not_mem_nil, or_false] at hp
      rcases hp with hp | hp
      · rw [hp, hx] at honce
        rwa [← OptionValue.formula.inj (Option.some.inj honce)]
      · rw [hp, hy] at honce
        rwa [← OptionValue.formula.inj (Option.some.inj honce)]

end Operation

namespace Drawtext

variable {c : Caption Float} {style : Style Float} {fade : Float}

theorem isReadable_plain_iff : (plain c style).IsReadable ↔ style.x.IsReadable ∧ style.y.IsReadable :=
  (draws_plain c style).isReadable_iff (by simp [plain, textOption, Operation.option?, List.lookup])
    (by simp [plain, textOption, Operation.option?, List.lookup])

theorem isReadable_pass_iff {color : String} {x y opacity : Expr Float} {box : List (String × OptionValue Float)}
    (hb : box ∈ [[], boxOptions style.background]) (ho : opacity.IsReadable) :
    (pass c style color x y box opacity).IsReadable ↔ x.IsReadable ∧ y.IsReadable := by
  refine (draws_pass hb ho).isReadable_iff ?_ ?_
  all_goals
    cases hf : style.font <;> simp [pass, Operation.option?, textOption, hf, fontOption, List.lookup]

theorem operations_draw (style : Style Float) (hv : c.validate = .ok ()) (hf : fade.isFinite = true)
    (hn : Scalar.lt fade (Scalar.ofNat 0) = false) :
    ∃ timing, c.timing style.animation style.y fade = .ok timing ∧
      (c.draw style fade).operations = outlinePasses c style (c.height style fade) timing.opacity ++
        [pass c style style.color style.x (c.height style fade) (boxOptions style.background) timing.opacity] := by
  have htiming : ∃ timing, c.timing style.animation style.y fade = .ok timing := by
    unfold Caption.timing
    rw [hv]
    exact ⟨_, rfl⟩
  obtain ⟨timing, ht⟩ := htiming
  have hheight : c.height style fade = timing.position.getD style.y := by rw [Caption.height, ht]
  exact ⟨timing, ht, by rw [draw_of_timing hf hn ht, hheight]⟩

/-- The passes of a caption can be read exactly if there is room for the outline in both positions. -/
theorem isReadable_passes_iff (hsize : style.HasSize) {y opacity : Expr Float} (ho : opacity.IsReadable) :
    ((∀ op ∈ outlinePasses c style y opacity, op.IsReadable) ∧ style.x.IsReadable ∧ y.IsReadable) ↔
      (style.x.Forall (·.isFinite = true) ∧ style.x.Fits style.room) ∧
        y.Forall (·.isFinite = true) ∧ y.Fits style.room := by
  unfold outlinePasses
  cases houtline : style.outline with
  | none =>
    have hroom : style.room = 0 := by rw [Style.room, houtline]
    rw [hroom, Expr.isReadable_iff, Expr.isReadable_iff]
    simp
  | some outline =>
    obtain ⟨h0, h⟩ := hsize outline houtline
    have hoffset (e : Expr Float) {distance : Float}
        (hd : distance ∈ [-Scalar.ofNat outline.size, (Scalar.ofNat outline.size : Float)]) :=
      isReadable_offset_iff h0 h e hd
    have hroom : style.room = Utf8.size (Written.text (Scalar.ofNat outline.size : Float)) + 1 := by
      rw [Style.room, houtline]
    rw [← hroom] at hoffset
    have hpass {dx dy : Float} (hdx : dx ∈ [-Scalar.ofNat outline.size, (Scalar.ofNat outline.size : Float)])
        (hdy : dy ∈ [-Scalar.ofNat outline.size, (Scalar.ofNat outline.size : Float)]) :
        (pass c style outline.color (offset style.x dx) (offset y dy) [] opacity).IsReadable ↔
          (style.x.Forall (·.isFinite = true) ∧ style.x.Fits style.room) ∧
            y.Forall (·.isFinite = true) ∧ y.Fits style.room :=
      (isReadable_pass_iff (by simp) ho).trans (and_congr (hoffset style.x hdx) (hoffset y hdy))
    have hcorners : (∀ op ∈ (corners outline.size).map fun (d : Float × Float) =>
        pass c style outline.color (offset style.x d.1) (offset y d.2) [] opacity, op.IsReadable) ↔
          (style.x.Forall (·.isFinite = true) ∧ style.x.Fits style.room) ∧
            y.Forall (·.isFinite = true) ∧ y.Fits style.room := by
      rw [List.forall_mem_map]
      simp only [corners, List.forall_mem_cons]
      rw [hpass (by simp) (by simp), hpass (by simp) (by simp), hpass (by simp) (by simp), hpass (by simp) (by simp)]
      simp
    refine ⟨fun h => hcorners.1 h.1, fun h => ⟨hcorners.2 h, ?_, ?_⟩⟩
    · exact Expr.isReadable_iff.2 ⟨h.1.1, h.1.2.mono (Nat.zero_le _)⟩
    · exact Expr.isReadable_iff.2 ⟨h.2.1, h.2.2.mono (Nat.zero_le _)⟩

/-- All formulas of a caption, those of the plain filter included, can be read exactly if the positions of the
preset have finite literals and there is room for the movement and the outline. -/
theorem readable_iff_hasRoom (isFile : String → Bool) (fonts : FontRegistry) (p : Preset)
    (hp : p.outlineSize < 2 ^ 32) (hv : c.validate = .ok ()) (hf : fade.isFinite = true)
    (hn : Scalar.lt fade (Scalar.ofNat 0) = false) :
    (∀ op ∈ plain c (Style.ofPreset isFile fonts p) :: (c.draw (Style.ofPreset isFile fonts p) fade).operations,
        op.IsReadable) ↔
      c.HasRoom (Style.ofPreset isFile fonts p) fade := by
  have hsize := Style.hasSize_ofPreset isFile fonts hp
  generalize (Style.ofPreset isFile fonts p : Style Float) = style at hsize ⊢
  obtain ⟨timing, ht, hoperations⟩ := operations_draw style hv hf hn
  have hopacity : timing.opacity.IsReadable := Caption.exists_parse_opacity ht hf
  obtain ⟨hfinite, hfits⟩ := Caption.height_spec style hv hf
  have hpasses := isReadable_passes_iff (c := c) hsize (y := c.height style fade) hopacity
  rw [hoperations, List.forall_mem_cons, List.forall_mem_append, List.forall_mem_singleton, isReadable_plain_iff,
    isReadable_pass_iff (by simp) hopacity, hpasses, hfinite]
  constructor
  · rintro ⟨-, ⟨hx, hxfits⟩, hy, hyfits⟩
    exact ⟨hx, hy, hxfits, hyfits⟩
  · rintro ⟨hx, hy, hxfits, hyfits⟩
    have hroom : 0 ≤ style.room := Nat.zero_le _
    exact ⟨⟨Expr.isReadable_iff.2 ⟨hx, hxfits.mono hroom⟩, Expr.isReadable_iff.2 ⟨hy, (hfits _ hyfits).mono hroom⟩⟩,
      ⟨hx, hxfits⟩, hy, hyfits⟩

def moving : Preset := { y := "50", animation := .slideFromTop, outline := true }

def brief : Caption Float := ⟨1, 2, "a", "p", none, false⟩

theorem readable_moving :
    moving.outlineSize < 2 ^ 32 ∧ brief.validate = .ok () ∧ (0.5 : Float).isFinite = true ∧
      Scalar.lt (0.5 : Float) (Scalar.ofNat 0) = false ∧
      brief.HasRoom (Style.ofPreset (fun _ => false) (.ofList []) moving) 0.5 ∧
      ∀ op ∈ plain brief (Style.ofPreset (fun _ => false) (.ofList []) moving) ::
          (brief.draw (Style.ofPreset (fun _ => false) (.ofList []) moving) 0.5).operations, op.IsReadable := by
  have hx : (Style.ofPreset (α := Float) (fun _ => false) (.ofList []) moving).x = Style.defaultX := by
    decide +kernel
  have hy : (Style.ofPreset (α := Float) (fun _ => false) (.ofList []) moving).y = .number 50 := by
    decide +kernel
  have hroom : brief.HasRoom (Style.ofPreset (fun _ => false) (.ofList []) moving) 0.5 := by
    refine Caption.hasRoom_of_short (by decide) (by decide) (Style.hasSize_ofPreset _ _ (by decide)) ?_ ?_
    · have hliterals : ∀ value ∈ [Scalar.ofNat 2, (50 : Float)], value.isFinite = true := by decide
      rw [hx, hy, List.forall_mem_cons, List.forall_mem_singleton]
      exact ⟨⟨⟨trivial, trivial⟩, hliterals _ (by simp)⟩, hliterals _ (by simp)⟩
    · rw [hx, hy]
      decide +kernel
  exact ⟨by decide, by decide, by decide, by decide, hroom,
    (readable_iff_hasRoom _ _ _ (by decide) (by decide) (by decide) (by decide)).2 hroom⟩

/-- A position that needs more levels when it is printed: each of its signs but the last gets parentheses. -/
def signed : Preset := { x := String.ofList (List.replicate 33 '-' ++ ['w']) }

theorem unreadable_signed :
    signed.outlineSize < 2 ^ 32 ∧ brief.validate = .ok () ∧ (0.5 : Float).isFinite = true ∧
      Scalar.lt (0.5 : Float) (Scalar.ofNat 0) = false ∧
      (Style.ofPreset (α := Float) (fun _ => false) (.ofList []) signed).notes = [] ∧
      ¬ ∀ op ∈ plain brief (Style.ofPreset (fun _ => false) (.ofList []) signed) ::
        (brief.draw (Style.ofPreset (fun _ => false) (.ofList []) signed) 0.5).operations, op.IsReadable := by
  have hx : (Expr.parse (α := Float)
      (Style.ofPreset (α := Float) (fun _ => false) (.ofList []) signed).x.chars).isOk = false := by
    decide +kernel
  refine ⟨by decide, by decide, by decide, by decide, by decide +kernel, fun hall => ?_⟩
  obtain ⟨⟨e, he⟩, -⟩ := isReadable_plain_iff.1 (List.forall_mem_cons.1 hall).1
  rw [he] at hx
  cases hx

end Drawtext

end OpenCaptions
