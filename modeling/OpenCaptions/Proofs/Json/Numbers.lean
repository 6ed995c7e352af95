import OpenCaptions.Json.Printer
import OpenCaptions.Json.Tree
import OpenCaptions.Proofs.Number.Shortest

/-!
Numbers in JSON text. What is written for a number is cut off whole from what follows it, and its value is
the number: whole numbers are exact, and a float has digits enough.
-/
namespace OpenCaptions.Json

open Number

/-- Behind this text a number cannot go on. -/
def EndsNumber (rest : List Char) : Prop := ∀ c ∈ rest.head?, c.isDigit = false ∧ c ≠ '.' ∧ c ≠ 'e' ∧ c ≠ 'E'

def IsDigits (digits : List Char) : Prop := digits ≠ [] ∧ ∀ c ∈ digits, c.isDigit = true

/-- Digits as they stand before a point: no zero is before another digit. -/
def IsWhole (digits : List Char) : Prop := IsDigits digits ∧ (digits.head? = some '0' → digits = ['0'])

inductive IsPlaces : List Char → Prop
  | none : IsPlaces []
  | point {digits : List Char} (h : IsDigits digits) : IsPlaces ('.' :: digits)

inductive IsExponent : List Char → Prop
  | none : IsExponent []
  | mark {sign : Char} {digits : List Char} (hs : sign = '+' ∨ sign = '-') (h : IsDigits digits) :
    IsExponent ('e' :: sign :: digits)

section Scanning

def scanWhole : List Char → Option (List Char × List Char)
  | '0' :: rest => some (['0'], rest)
  | s => scanDigits s

def scanPlaces : List Char → Option (List Char × List Char)
  | '.' :: rest => (scanDigits rest).map fun (digits, rest) => ('.' :: digits, rest)
  | s => some ([], s)

def scanExponent : List Char → Option (List Char × List Char)
  | mark :: rest =>
    if mark = 'e' ∨ mark = 'E' then
      let (sign, rest) := match rest with
        | '-' :: rest => (['-'], rest)
        | '+' :: rest => (['+'], rest)
        | rest => ([], rest)
      (scanDigits rest).map fun (digits, rest) => (mark :: sign ++ digits, rest)
    else some ([], mark :: rest)
  | [] => some ([], [])

variable {sign whole places exponent digits rest s s' s'' : List Char}

def scanSign : List Char → List Char × List Char
  | '-' :: rest => (['-'], rest)
  | s => ([], s)

section Binding

variable {β : Type} (s : List Char) (next : List Char × List Char → Option β)

private theorem scanWhole_bind : scanWhole s >>= next = match s with
    | '0' :: rest => some (['0'], rest) >>= next
    | s => scanDigits s >>= next := by
  unfold scanWhole
  split <;> rfl

private theorem scanPlaces_bind : scanPlaces s >>= next = match s with
    | '.' :: rest => (scanDigits rest).map (fun (digits, rest) => ('.' :: digits, rest)) >>= next
    | s => some ([], s) >>= next := by
  unfold scanPlaces
  split <;> rfl

private theorem scanExponent_bind : scanExponent s >>= next = match s with
    | mark :: rest =>
      if mark = 'e' ∨ mark = 'E' then
        let (sign, rest) := match rest with
          | '-' :: rest => (['-'], rest)
          | '+' :: rest => (['+'], rest)
          | rest => ([], rest)
        (scanDigits rest).map (fun (digits, rest) => (mark :: sign ++ digits, rest)) >>= next
      else some ([], s) >>= next
    | [] => some ([], s) >>= next := by
  unfold scanExponent
  split
  · split <;> rfl
  · rfl

end Binding

/-- A number is cut off part by part. -/
theorem scanNumber_eq (s : List Char) : scanNumber s = do
    let (sign, s) := scanSign s
    let (whole, s) ← scanWhole s
    if whole = ['0'] ∧ (s.headD ' ').isDigit then none
    let (places, s) ← scanPlaces s
    let (exponent, s) ← scanExponent s
    return (sign ++ whole ++ places ++ exponent, s) := by
  simp only [scanWhole_bind, scanPlaces_bind, scanExponent_bind]
  unfold scanNumber
  rfl

theorem scanDigits_append (h : IsDigits digits) (hrest : ∀ c ∈ rest.head?, c.isDigit = false) :
    scanDigits (digits ++ rest) = some (digits, rest) := by
  obtain ⟨htake, hdrop⟩ := Text.takeWhile_of_head? h.2 hrest
  simp only [scanDigits, htake, hdrop, if_neg h.1]

theorem scanWhole_append (h : IsWhole whole) (hrest : ∀ c ∈ rest.head?, c.isDigit = false) :
    scanWhole (whole ++ rest) = some (whole, rest) := by
  obtain ⟨hdigits, hlead⟩ := h
  cases whole with
  | nil => exact absurd rfl hdigits.1
  | cons c digits =>
    by_cases hc : c = '0'
    · subst hc
      rw [hlead rfl]
      rfl
    · rw [scanWhole, scanDigits_append hdigits hrest]
      rintro rest' ⟨⟩
      exact hc rfl

theorem scanPlaces_append (h : IsPlaces places) (hrest : ∀ c ∈ rest.head?, c.isDigit = false ∧ c ≠ '.') :
    scanPlaces (places ++ rest) = some (places, rest) := by
  cases h with
  | none =>
    rw [List.nil_append, scanPlaces]
    rintro rest' rfl
    exact (hrest '.' rfl).2 rfl
  | point hdigits =>
    rw [List.cons_append, scanPlaces, scanDigits_append hdigits fun c hc => (hrest c hc).1]
    rfl

theorem scanExponent_append (h : IsExponent exponent) (hrest : EndsNumber rest) :
    scanExponent (exponent ++ rest) = some (exponent, rest) := by
  cases h with
  | none =>
    cases rest with
    | nil => rfl
    | cons c rest =>
      obtain ⟨-, -, he, hE⟩ := hrest c rfl
      simp [scanExponent, he, hE]
  | mark hs hdigits =>
    have hscan := scanDigits_append hdigits fun c hc => (hrest c hc).1
    rcases hs with rfl | rfl <;> simp [scanExponent, hscan]

end Scanning

inductive IsNumber : List Char → Prop
  | parts (negative : Bool) {whole places exponent : List Char} (hwhole : IsWhole whole) (hplaces : IsPlaces places)
    (hexponent : IsExponent exponent) :
    IsNumber ((if negative then ['-'] else []) ++ (whole ++ (places ++ exponent)))

theorem IsExponent.head_append {exponent rest : List Char} (h : IsExponent exponent) (hrest : EndsNumber rest) :
    ∀ c ∈ (exponent ++ rest).head?, c.isDigit = false ∧ c ≠ '.' := by
  cases h with
  | none => exact fun c hc => ⟨(hrest c hc).1, (hrest c hc).2.1⟩
  | mark hs hdigits =>
    rintro c ⟨⟩
    decide

private theorem IsPlaces.head_append {places rest : List Char} (h : IsPlaces places)
    (hrest : ∀ c ∈ rest.head?, c.isDigit = false) : ∀ c ∈ (places ++ rest).head?, c.isDigit = false := by
  cases h with
  | none => exact hrest
  | point hdigits =>
    rintro c ⟨⟩
    decide

theorem IsWhole.exists_cons {whole : List Char} (h : IsWhole whole) :
    ∃ c rest, whole = c :: rest ∧ c.isDigit = true := by
  obtain ⟨c, rest, rfl⟩ := List.exists_cons_of_ne_nil h.1.1
  exact ⟨c, rest, rfl, h.1.2 c List.mem_cons_self⟩

theorem IsNumber.scanNumber_append {text rest : List Char} (h : IsNumber text) (hrest : EndsNumber rest) :
    scanNumber (text ++ rest) = some (text, rest) := by
  obtain ⟨negative, hwhole, hplaces, hexponent⟩ := h
  rename_i whole places exponent
  have hbehind := hexponent.head_append hrest
  have hlead := hplaces.head_append fun c hc => (hbehind c hc).1
  have hsign : scanSign ((if negative then ['-'] else []) ++ (whole ++ (places ++ (exponent ++ rest)))) =
      (if negative then ['-'] else [], whole ++ (places ++ (exponent ++ rest))) := by
    cases negative with
    | true => rfl
    | false =>
      obtain ⟨c, digits, rfl, hc⟩ := hwhole.exists_cons
      have hne : c ≠ '-' := by rintro rfl; cases hc
      simp [scanSign, hne]
  have hzero : ¬ (whole = ['0'] ∧ ((places ++ (exponent ++ rest)).headD ' ').isDigit = true) := by
    rintro ⟨-, hdigit⟩
    cases hs : places ++ (exponent ++ rest) with
    | nil =>
      rw [hs] at hdigit
      cases hdigit
    | cons c s =>
      rw [hs] at hlead hdigit
      rw [List.headD_cons, hlead c rfl] at hdigit
      cases hdigit
  rw [scanNumber_eq]
  simp only [List.append_assoc, hsign, scanWhole_append hwhole hlead, Option.bind_eq_bind, Option.bind_some,
    if_neg hzero, scanPlaces_append hplaces hbehind, scanExponent_append hexponent hrest]
  rfl

theorem IsNumber.exists_cons {text : List Char} (h : IsNumber text) :
    ∃ c rest, text = c :: rest ∧ (c.isDigit = true ∨ c = '-') := by
  obtain ⟨negative, hwhole, -, -⟩ := h
  obtain ⟨c, digits, rfl, hc⟩ := hwhole.exists_cons
  cases negative with
  | true => exact ⟨'-', _, rfl, .inr rfl⟩
  | false => exact ⟨c, _, rfl, .inl hc⟩

section Whole

theorem isDigits_toDigits (n : Nat) : IsDigits (Nat.toDigits 10 n) :=
  ⟨Nat.toDigits_ne_nil, fun _ => isDigit_of_mem_toDigits⟩

theorem isWhole_toDigits (n : Nat) : IsWhole (Nat.toDigits 10 n) := by
  refine ⟨isDigits_toDigits n, fun hhead => ?_⟩
  rcases Nat.eq_zero_or_pos n with rfl | hn
  · rfl
  · exact absurd hhead (head?_toDigits hn)

theorem isNumber_toDigits (n : Nat) : IsNumber (Nat.toDigits 10 n) := by
  simpa using IsNumber.parts false (isWhole_toDigits n) .none .none

theorem isNumber_minus_toDigits (n : Nat) : IsNumber ('-' :: Nat.toDigits 10 n) := by
  simpa using IsNumber.parts true (isWhole_toDigits n) .none .none

theorem natOfDigits?_toDigits (n : Nat) : Numeral.natOfDigits? (Nat.toDigits 10 n) = some n := by
  have hall : (Nat.toDigits 10 n).all Char.isDigit = true := by simpa using (isDigits_toDigits n).2
  simp [Numeral.natOfDigits?, hall]

theorem ofNumber?_toDigits {n : Nat} (h : n < word64) : ofNumber? (Nat.toDigits 10 n) = some (.nat n) := by
  obtain ⟨c, rest, hcons, hc⟩ := (isWhole_toDigits n).exists_cons
  have hsign : Numeral.takeSign (Nat.toDigits 10 n) = (false, Nat.toDigits 10 n) := by
    rw [hcons, Numeral.takeSign_digit hc]
  simp [ofNumber?, hsign, natOfDigits?_toDigits, ofWhole, h]

theorem ofNumber?_minus_toDigits {n : Nat} (h0 : 0 < n) (h : n ≤ 2 ^ 63) :
    ofNumber? ('-' :: Nat.toDigits 10 n) = some (.negative n) := by
  simp only [ofNumber?, Numeral.takeSign, natOfDigits?_toDigits, ofWhole, if_true]
  exact if_pos ⟨h0, h⟩

end Whole

section Floats

variable (d : Decimal)

theorem takeSign_signed (negative : Bool) {body : List Char} (hbody : ∃ c rest, body = c :: rest ∧ c.isDigit = true) :
    Numeral.takeSign ((if negative then ['-'] else []) ++ body) = (negative, body) := by
  obtain ⟨c, rest, rfl, hc⟩ := hbody
  cases negative with
  | true => rfl
  | false => exact Numeral.takeSign_digit hc rest

theorem isWhole_whole : IsWhole d.whole := by
  refine ⟨⟨d.whole_ne_nil, d.isDigit_of_mem_whole⟩, fun hhead => ?_⟩
  by_cases hone : d.whole.length = 1
  · obtain ⟨c, hc⟩ := List.length_eq_one_iff.1 hone
    rw [hc] at hhead ⊢
    rw [Option.some.inj hhead]
  · -- with more than one digit before the point, these are the first digits of the number
    have hlength : d.whole.length = d.written.length - (-d.exponent).toNat := by
      rw [Decimal.whole, List.length_take]
      omega
    have hcount := d.lt_length_written
    have hwritten : d.written.head? = (Nat.toDigits 10 d.digits).head? ∧ d.digits ≠ 0 := by
      have hzero : d.digits = 0 → digitCount d.digits = 1 := by
        intro h0
        rw [h0]
        rfl
      unfold Decimal.written at hlength hcount ⊢
      split at hlength
      · rename_i he
        have hdigits : d.digits ≠ 0 := by
          intro h0
          simp [h0] at hlength
          omega
        rw [if_pos he, List.head?_append_of_ne_nil _ Nat.toDigits_ne_nil]
        exact ⟨rfl, hdigits⟩
      · rename_i he
        rw [List.length_append, List.length_replicate] at hlength
        change _ = _ + digitCount d.digits - _ at hlength
        have hpad : (-d.exponent).toNat + 1 - digitCount d.digits = 0 := by omega
        rw [if_neg he, hpad]
        exact ⟨rfl, fun h0 => by have := hzero h0; omega⟩
    rw [Decimal.whole, List.head?_take, if_neg (by omega), hwritten.1] at hhead
    exact absurd hhead (head?_toDigits (Nat.pos_of_ne_zero hwritten.2))

private theorem natOfDigits?_eq_none {body : List Char} {c : Char} (hmem : c ∈ body) (hc : c.isDigit = false) :
    Numeral.natOfDigits? body = none := by
  refine if_neg ?_
  rintro ⟨-, hall⟩
  rw [List.all_eq_true] at hall
  rw [hall c hmem] at hc
  cases hc

theorem ofNumber?_signed {body : List Char} {x : Float} (negative : Bool)
    (hbody : ∃ c rest, body = c :: rest ∧ c.isDigit = true) {c : Char} (hmem : c ∈ body) (hc : c.isDigit = false)
    (hread : (Numeral.readDecimal? negative body).map Decimal.toFloat = some x) (hx : x.isFinite = true) :
    ofNumber? ((if negative then ['-'] else []) ++ body) = some (.float x) := by
  obtain ⟨d, hd, rfl⟩ := Option.map_eq_some_iff.1 hread
  simp only [ofNumber?, takeSign_signed negative hbody, natOfDigits?_eq_none hmem hc, hd, Option.bind_some,
    ofWhole.ofDecimal, if_pos hx]

/-- A number with a point or an exponent that is read as the float of `d`. -/
inductive Denotes (d : Decimal) : List Char → Prop
  | parts {whole places exponent : List Char} (hwhole : IsWhole whole) (hplaces : IsPlaces places)
    (hexponent : IsExponent exponent) (hne : places ++ exponent ≠ [])
    (hread : (Numeral.readDecimal? d.negative (whole ++ (places ++ exponent))).map Decimal.toFloat = some d.toFloat) :
    Denotes d ((if d.negative then ['-'] else []) ++ (whole ++ (places ++ exponent)))

variable {d} {text : List Char}

theorem Denotes.isNumber (h : Denotes d text) : IsNumber text := by
  obtain ⟨hwhole, hplaces, hexponent, -, -⟩ := h
  exact .parts d.negative hwhole hplaces hexponent

theorem Denotes.ofNumber? (h : Denotes d text) (hd : d.toFloat.isFinite = true) :
    ofNumber? text = some (.float d.toFloat) := by
  obtain ⟨hwhole, hplaces, hexponent, hne, hread⟩ := h
  rename_i whole places exponent
  have hbody : ∃ c rest, whole ++ (places ++ exponent) = c :: rest ∧ c.isDigit = true := by
    obtain ⟨c, digits, rfl, hc⟩ := hwhole.exists_cons
    exact ⟨c, _, rfl, hc⟩
  have hmark : ∃ c ∈ places ++ exponent, c.isDigit = false := by
    cases hplaces with
    | point => exact ⟨'.', List.mem_cons_self, rfl⟩
    | none =>
      cases hexponent with
      | mark => exact ⟨'e', List.mem_cons_self, rfl⟩
      | none => exact absurd rfl hne
  obtain ⟨c, hmem, hc⟩ := hmark
  exact ofNumber?_signed d.negative hbody (List.mem_append_right _ hmem) hc hread hd

/-- Positional notation, where places that are missing are a zero. -/
theorem denotes_positional (d : Decimal) :
    Denotes d (d.positional ++ if 0 ≤ d.exponent then ['.', '0'] else []) := by
  rw [Decimal.positional_eq, Decimal.magnitude]
  by_cases he : 0 ≤ d.exponent
  · have hzero : IsDigits ['0'] := isDigits_toDigits 0
    have hread : (Numeral.readDecimal? d.negative (d.whole ++ '.' :: ['0'])).map Decimal.toFloat = some d.toFloat := by
      obtain ⟨k, hk⟩ := Int.eq_ofNat_of_zero_le he
      rw [Numeral.readDecimal?_point (List.append_ne_nil_of_left_ne_nil d.whole_ne_nil _) d.isDigit_of_mem_whole
        hzero.2, Nat.ofDigitChars_append, d.whole_eq_written he, d.ofDigitChars_written, Option.map_some,
        Option.some.injEq]
      refine Decimal.toFloat_congr rfl ?_
      simp only [Decimal.value, hk, Nat.ofDigitChars_cons, Nat.ofDigitChars_nil]
      norm_num
      ring
    simpa [he] using Denotes.parts (isWhole_whole d) (.point hzero) .none (by simp) (by simpa using hread)
  · have hplaces : IsDigits d.places := by
      refine ⟨fun h => ?_, d.isDigit_of_mem_places⟩
      have := d.length_places
      rw [h, List.length_nil] at this
      omega
    have hread := d.readDecimal?_magnitude
    rw [Decimal.magnitude, if_neg he] at hread
    simpa [he] using Denotes.parts (isWhole_whole d) (.point hplaces) .none (by simp) (by simpa using hread)

private theorem isExponent_toDigits (k : Int) :
    IsExponent ('e' :: (if k < 0 then '-' else '+') :: Nat.toDigits 10 k.natAbs) := by
  refine .mark ?_ (isDigits_toDigits _)
  split
  · exact .inr rfl
  · exact .inl rfl

private theorem readExponent?_toDigits (k : Int) :
    Numeral.readExponent? ('e' :: (if k < 0 then '-' else '+') :: Nat.toDigits 10 k.natAbs) = some k := by
  have hsign : Numeral.takeSign ((if k < 0 then '-' else '+') :: Nat.toDigits 10 k.natAbs) =
      (decide (k < 0), Nat.toDigits 10 k.natAbs) := by
    by_cases hk : k < 0 <;> simp [Numeral.takeSign, hk]
  have hvalue : (if decide (k < 0) = true then -(k.natAbs : Int) else k.natAbs) = k := by
    simp only [decide_eq_true_eq]
    omega
  simp only [Numeral.readExponent?, true_or, if_true, hsign, natOfDigits?_toDigits]
  exact congrArg some hvalue

private theorem denotes_scientific {c : Char} {places : List Char}
    (hdigits : Nat.toDigits 10 d.digits = c :: places) {k : Int} (hk : k = places.length + d.exponent) :
    Denotes d ((if d.negative then ['-'] else []) ++ ([c] ++ ((if places = [] then [] else '.' :: places) ++
      'e' :: (if k < 0 then '-' else '+') :: Nat.toDigits 10 k.natAbs))) := by
  have hall : ∀ c' ∈ c :: places, c'.isDigit = true := hdigits ▸ (isDigits_toDigits d.digits).2
  rw [List.forall_mem_cons] at hall
  have hone : ∀ c' ∈ [c], c'.isDigit = true := by simpa using hall.1
  have hvalue : Nat.ofDigitChars 10 (c :: places) 0 = d.digits := by rw [← hdigits, Nat.ofDigitChars_ten_toDigits]
  have hhead : ∀ c' ∈ ('e' :: (if k < 0 then '-' else '+') :: Nat.toDigits 10 k.natAbs).head?,
      c'.isDigit = false ∧ c' ≠ '.' := by
    rintro c' ⟨⟩
    decide
  have hread := readExponent?_toDigits k
  have hexponent := isExponent_toDigits k
  have hne : 'e' :: (if k < 0 then '-' else '+') :: Nat.toDigits 10 k.natAbs ≠ [] := List.cons_ne_nil _ _
  generalize 'e' :: (if k < 0 then '-' else '+') :: Nat.toDigits 10 k.natAbs = exponent at hread hexponent hhead hne ⊢
  have hwhole : IsWhole [c] := ⟨⟨by simp, hone⟩, fun h => by rw [Option.some.inj h]⟩
  by_cases hplaces : places = []
  · subst hplaces
    have hwritten : Numeral.readDecimal? d.negative ([c] ++ exponent) = some d := by
      rw [Numeral.readDecimal?_whole (by simp) hone hhead hread, hvalue, hk]
      simp
    exact .parts hwhole .none hexponent (by simpa using hne) (congrArg (Option.map Decimal.toFloat) hwritten)
  · have hwritten : Numeral.readDecimal? d.negative ([c] ++ '.' :: (places ++ exponent)) = some d := by
      rw [Numeral.readDecimal?_places (by simp) hone hall.2 (fun c' hc' => (hhead c' hc').1) hread]
      simp [hvalue, hk]
    rw [if_neg hplaces]
    exact .parts hwhole (.point ⟨hplaces, hall.2⟩) hexponent (by simp) (congrArg (Option.map Decimal.toFloat) hwritten)

theorem denotes_decimalText (d : Decimal) : Denotes d (decimalText d) := by
  unfold decimalText
  extract_lets digits point sign mantissa exponent
  split
  · exact denotes_positional d
  · obtain ⟨c, places, hdigits⟩ := List.exists_cons_of_ne_nil (Nat.toDigits_ne_nil (b := 10) (n := d.digits))
    have hexponent : exponent = places.length + d.exponent := by
      have hlength : digits.length = places.length + 1 := congrArg List.length hdigits
      change (digits.length : Int) + d.exponent - 1 = _
      omega
    have hmantissa : mantissa = [c] ++ (if places = [] then [] else '.' :: places) := by
      simp only [mantissa, digits, hdigits]
      cases places <;> rfl
    have hscientific := denotes_scientific hdigits hexponent
    rw [← List.append_assoc [c], ← hmantissa] at hscientific
    simpa using hscientific

end Floats

theorem isNumber_floatText {x : Float} (h : x.isFinite = true) : IsNumber (floatText x) := by
  obtain ⟨d, hd, -, -⟩ := Decimal.exists_ofFloat? .even h
  rw [floatText, hd]
  exact (denotes_decimalText d).isNumber

theorem ofNumber?_floatText {x : Float} (h : x.isFinite = true) : ofNumber? (floatText x) = some (.float x) := by
  obtain ⟨d, hd, rfl, -⟩ := Decimal.exists_ofFloat? .even h
  rw [floatText, hd]
  exact (denotes_decimalText d).ofNumber? h

end OpenCaptions.Json
