import OpenCaptions.Proofs.Subtitle.Times

/-!
Times in machine words. A time is the number of milliseconds that its fields come to without a limit, and it is refused
only where that is no word. Of the arithmetic in words only the product with the hours and the last sum are checked, and
that is enough: nothing else can leave the range.
-/
namespace OpenCaptions.Subtitle

open Failure

/-- A time as it is written, in its parts. -/
structure WrittenTime where
  hours : List Char
  minutes : List Char
  seconds : List Char
  /-- The comma or point in front of the fraction. -/
  mark : Char
  fraction : List Char

namespace WrittenTime

def clock (w : WrittenTime) : List Char := Text.join [':'] [w.hours, w.minutes, w.seconds]

def text (w : WrittenTime) : List Char := w.clock ++ w.mark :: w.fraction

/-- What the parts of a time show. Each field is a word, and the fraction is a decimal one of up to three digits; as it
holds nothing else, the mark in front of it is the last one of the text. -/
structure Shows (w : WrittenTime) (h m s f : Nat) : Prop where
  mark : w.mark = ',' ∨ w.mark = '.'
  hours : Number.IsNatText word64 w.hours h
  minutes : Number.IsNatText word64 w.minutes m
  seconds : Number.IsNatText word64 w.seconds s
  minutes_lt : m < 60
  seconds_lt : s < 60
  fraction_ne : w.fraction ≠ []
  length_fraction : w.fraction.length ≤ 3
  digits : ∀ c ∈ w.fraction, c.isDigit = true
  value : Nat.ofDigitChars 10 w.fraction 0 * 10 ^ (3 - w.fraction.length) = f

end WrittenTime

section Written

variable {fraction field clock time : List Char} {limit f n h m s v : Nat}

theorem readFraction?_eq_some_iff :
    readFraction? fraction = some f ↔ fraction ≠ [] ∧ fraction.length ≤ 3 ∧ (∀ c ∈ fraction, c.isDigit = true) ∧
      Nat.ofDigitChars 10 fraction 0 * 10 ^ (3 - fraction.length) = f := by
  have hvalue : Nat.ofDigitChars 10 (fraction ++ List.replicate (3 - fraction.length) '0') 0 =
      Nat.ofDigitChars 10 fraction 0 * 10 ^ (3 - fraction.length) := by
    rw [Nat.ofDigitChars_append, Nat.ofDigitChars_replicate_zero, Nat.mul_comm]
  have hguard : ¬ (fraction = [] ∨ 3 < fraction.length ∨ (!fraction.all Char.isDigit) = true) ↔
      fraction ≠ [] ∧ fraction.length ≤ 3 ∧ ∀ c ∈ fraction, c.isDigit = true := by
    rw [not_or, not_or, Nat.not_lt, Bool.not_eq_true', Bool.not_eq_false, List.all_eq_true]
  rw [readFraction?, hvalue]
  split
  · rename_i hbad
    constructor
    · intro hf
      cases hf
    · rintro ⟨hne, hlen, hdigits, -⟩
      exact absurd hbad (hguard.2 ⟨hne, hlen, hdigits⟩)
  · rename_i hgood
    obtain ⟨hne, hlen, hdigits⟩ := hguard.1 hgood
    rw [Option.some.injEq]
    exact ⟨fun hf => ⟨hne, hlen, hdigits, hf⟩, fun hf => hf.2.2.2⟩

theorem readFraction?_lt (h : readFraction? fraction = some f) : f < 1000 := by
  obtain ⟨-, hlen, hdigits, rfl⟩ := readFraction?_eq_some_iff.1 h
  calc
    Nat.ofDigitChars 10 fraction 0 * 10 ^ (3 - fraction.length) < 10 ^ fraction.length * 10 ^ (3 - fraction.length) :=
      Nat.mul_lt_mul_of_pos_right (by simpa using Number.ofDigitChars_lt hdigits 0) (Nat.pow_pos (by omega))
    _ = 1000 := by rw [← Nat.pow_add, Nat.add_sub_cancel' hlen]

theorem isWord_iff : Number.readNat word64 field = .ok n ↔ Number.IsNatText word64 field n :=
  Number.readNat_eq_ok_iff (by decide)

private theorem colon_notMem (h : Number.IsNatText limit field n) : ':' ∉ field := by
  intro hm
  rcases h.mem hm with hd | hp
  · cases hd
  · cases hp

/-- Three fields are read exactly if the clock is three written words. -/
theorem forall₂_splitOn_iff :
    List.Forall₂ (fun field n => Number.readNat word64 field = .ok n) (clock.splitOn ':') [h, m, s] ↔
      ∃ hours minutes seconds, clock = Text.join [':'] [hours, minutes, seconds] ∧
        Number.IsNatText word64 hours h ∧ Number.IsNatText word64 minutes m ∧ Number.IsNatText word64 seconds s := by
  simp only [isWord_iff]
  constructor
  · intro hfields
    obtain ⟨hours, _, hh, htail, hsplit⟩ := List.forall₂_cons_right_iff.1 hfields
    obtain ⟨minutes, _, hm, hlast, rfl⟩ := List.forall₂_cons_right_iff.1 htail
    obtain ⟨seconds, _, hs, hnil, rfl⟩ := List.forall₂_cons_right_iff.1 hlast
    obtain rfl := List.forall₂_nil_right_iff.1 hnil
    refine ⟨hours, minutes, seconds, ?_, hh, hm, hs⟩
    rw [Text.join_eq_intercalate, ← hsplit, List.intercalate_splitOn]
  · rintro ⟨hours, minutes, seconds, rfl, hh, hm, hs⟩
    rw [splitOn_fields (colon_notMem hh) (colon_notMem hm) (colon_notMem hs)]
    exact .cons hh (.cons hm (.cons hs .nil))

/-- A time is read as what its parts come to, exactly where that is a word. -/
theorem readTime_eq_ok_iff_shows :
    readTime time = .ok v ↔ ∃ (w : WrittenTime) (h m s f : Nat), time = w.text ∧ w.Shows h m s f ∧
      ((h * 60 + m) * 60 + s) * 1000 + f = v ∧ v < word64 := by
  rw [readTime_eq_ok_iff]
  constructor
  · rintro ⟨clock, fraction, h, m, s, f, hsplit, hfields, hm, hs, hf, htotal, hv⟩
    obtain ⟨mark, hmark, rfl, -⟩ := Text.splitLast?_eq_some_iff.1 hsplit
    obtain ⟨hours, minutes, seconds, rfl, hhours, hminutes, hseconds⟩ := forall₂_splitOn_iff.1 hfields
    obtain ⟨hne, hlen, hdigits, hvalue⟩ := readFraction?_eq_some_iff.1 hf
    refine ⟨⟨hours, minutes, seconds, mark, fraction⟩, h, m, s, f, rfl, ?_, htotal, hv⟩
    exact ⟨by simpa using hmark, hhours, hminutes, hseconds, hm, hs, hne, hlen, hdigits, hvalue⟩
  · rintro ⟨w, h, m, s, f, rfl, hw, htotal, hv⟩
    have hmark : (w.mark == ',' || w.mark == '.') = true := by simpa using hw.mark
    have hlast : ∀ c ∈ w.fraction, (c == ',' || c == '.') = false := by
      intro c hc
      rw [Bool.or_eq_false_iff, beq_eq_false_iff_ne, beq_eq_false_iff_ne]
      constructor
      · rintro rfl
        cases hw.digits _ hc
      · rintro rfl
        cases hw.digits _ hc
    exact ⟨w.clock, w.fraction, h, m, s, f, Text.splitLast?_append hmark w.clock hlast,
      forall₂_splitOn_iff.2 ⟨w.hours, w.minutes, w.seconds, rfl, hw.hours, hw.minutes, hw.seconds⟩,
      hw.minutes_lt, hw.seconds_lt,
      readFraction?_eq_some_iff.2 ⟨hw.fraction_ne, hw.length_fraction, hw.digits, hw.value⟩, htotal, hv⟩

end Written

section Words

def mul? (a b : UInt64) : Option UInt64 := if a.toNat * b.toNat < word64 then some (a * b) else none

def add? (a b : UInt64) : Option UInt64 := if a.toNat + b.toNat < word64 then some (a + b) else none

/-- Milliseconds of what is below the hours. The sum is made without looking at its range; none if it leaves it. -/
def belowHours? (m s f : UInt64) : Option UInt64 := do
  let minutes ← mul? m 60000
  let seconds ← mul? s 1000
  let sum ← add? minutes seconds
  add? sum f

/-- Milliseconds of hours, minutes, seconds and a fraction, where the product and the sum with the hours are checked. None
if a step that is not checked leaves the range of words. -/
def totalInWords (time : List Char) (h m s f : UInt64) : Option (Except TimeError UInt64) :=
  (mul? h 3600000).elim (some (.error (.outOfRange time))) fun hours =>
    (belowHours? m s f).map fun below => (add? hours below).elim (.error (.outOfRange time)) .ok

def ofFieldsInWords (time fraction : List Char) : List UInt64 → Option (Except TimeError UInt64)
  | [h, m, s] =>
    if 60 ≤ m ∨ 60 ≤ s then some (.error (.aboveSixty time))
    else match readFraction? fraction with
      | none => some (.error (.badFraction time))
      | some f => totalInWords time h m s (UInt64.ofNat f)
  | _ => some (.error (.notClock time))

def readWord (field : List Char) : Except NatError UInt64 := (Number.readNat word64 field).map UInt64.ofNat

def readTimeInWords (time : List Char) : Option (Except TimeError UInt64) :=
  match Text.splitLast? (fun c => c == ',' || c == '.') time with
  | none => some (.error (.noFraction time))
  | some (clock, fraction) =>
    match (clock.splitOn ':').mapM fun field => (readWord field).mapError (TimeError.badNumber time) with
    | .error e => some (.error e)
    | .ok fields => ofFieldsInWords time fraction fields

def totalOf (time : List Char) (h m s f : Nat) : Except TimeError Nat :=
  if ((h * 60 + m) * 60 + s) * 1000 + f < word64 then .ok (((h * 60 + m) * 60 + s) * 1000 + f)
  else .error (.outOfRange time)

def ofFields (time fraction : List Char) : List Nat → Except TimeError Nat
  | [h, m, s] =>
    if 60 ≤ m ∨ 60 ≤ s then .error (.aboveSixty time)
    else match readFraction? fraction with
      | none => .error (.badFraction time)
      | some f => totalOf time h m s f
  | _ => .error (.notClock time)

theorem readTime_eq (time : List Char) : readTime time =
    match Text.splitLast? (fun c => c == ',' || c == '.') time with
    | none => .error (.noFraction time)
    | some (clock, fraction) =>
      (clock.splitOn ':').mapM (fun field => (Number.readNat word64 field).mapError (TimeError.badNumber time)) >>=
        ofFields time fraction := by
  unfold readTime
  cases Text.splitLast? (fun c => c == ',' || c == '.') time with
  | none => rfl
  | some parts => rfl

variable {a b h m s f : UInt64}

theorem mul?_of_lt (h : a.toNat * b.toNat < word64) : ∃ c, mul? a b = some c ∧ c.toNat = a.toNat * b.toNat := by
  refine ⟨a * b, if_pos h, ?_⟩
  rw [UInt64.toNat_mul]
  exact Nat.mod_eq_of_lt h

theorem add?_of_lt (h : a.toNat + b.toNat < word64) : ∃ c, add? a b = some c ∧ c.toNat = a.toNat + b.toNat := by
  refine ⟨a + b, if_pos h, ?_⟩
  rw [UInt64.toNat_add]
  exact Nat.mod_eq_of_lt h

/-- What is below the hours stays far below the limit, and so do all steps on the way. -/
theorem belowHours?_of_lt (hm : m.toNat < 60) (hs : s.toNat < 60) (hf : f.toNat < 1000) :
    ∃ below, belowHours? m s f = some below ∧
      below.toNat = m.toNat * 60000 + s.toNat * 1000 + f.toNat := by
  have hlimit : 3600000 < word64 := by decide
  have hminute : (60000 : UInt64).toNat = 60000 := rfl
  have hsecond : (1000 : UInt64).toNat = 1000 := rfl
  obtain ⟨minutes, hminutes, hm'⟩ := mul?_of_lt (a := m) (b := 60000) (by rw [hminute]; omega)
  obtain ⟨seconds, hseconds, hs'⟩ := mul?_of_lt (a := s) (b := 1000) (by rw [hsecond]; omega)
  rw [hminute] at hm'
  rw [hsecond] at hs'
  obtain ⟨sum, hsum, hsum'⟩ := add?_of_lt (a := minutes) (b := seconds) (by omega)
  obtain ⟨below, hbelow, hbelow'⟩ := add?_of_lt (a := sum) (b := f) (by omega)
  refine ⟨below, ?_, by rw [hbelow', hsum', hm', hs']⟩
  simp only [belowHours?, hminutes, hseconds, hsum, hbelow, Option.bind_eq_bind, Option.bind_some]

theorem map_totalInWords (time : List Char) (hm : m.toNat < 60) (hs : s.toNat < 60) (hf : f.toNat < 1000) :
    (totalInWords time h m s f).map (Except.map UInt64.toNat) =
      some (totalOf time h.toNat m.toNat s.toNat f.toNat) := by
  obtain ⟨below, hbelow, hvalue⟩ := belowHours?_of_lt hm hs hf
  have hhour : (3600000 : UInt64).toNat = 3600000 := rfl
  have hsum : ((h.toNat * 60 + m.toNat) * 60 + s.toNat) * 1000 + f.toNat = h.toNat * 3600000 + below.toNat := by omega
  rw [totalOf, totalInWords, hsum, hbelow]
  by_cases hproduct : h.toNat * 3600000 < word64
  · obtain ⟨hours, hhours, hhours'⟩ := mul?_of_lt (a := h) (b := 3600000) (by rwa [hhour])
    rw [hhour] at hhours'
    rw [hhours, ← hhours']
    by_cases hword : hours.toNat + below.toNat < word64
    · obtain ⟨total, htotal, htotal'⟩ := add?_of_lt hword
      simp only [htotal, if_pos hword, htotal', Option.elim_some, Option.map_some, Except.map]
    · have hnone : add? hours below = none := if_neg hword
      simp only [hnone, if_neg hword, Option.elim_some, Option.elim_none, Option.map_some, Except.map]
  · have hnone : mul? h 3600000 = none := if_neg (by rwa [hhour])
    have hlarge : ¬ h.toNat * 3600000 + below.toNat < word64 :=
      fun hlt => hproduct (Nat.lt_of_le_of_lt (Nat.le_add_right _ _) hlt)
    simp only [hnone, if_neg hlarge, Option.elim_none, Option.map_some, Except.map]

theorem map_ofFieldsInWords (time fraction : List Char) (fields : List UInt64) :
    (ofFieldsInWords time fraction fields).map (Except.map UInt64.toNat) =
      some (ofFields time fraction (fields.map UInt64.toNat)) := by
  match fields with
  | [] => rfl
  | [_] => rfl
  | [_, _] => rfl
  | _ :: _ :: _ :: _ :: _ => rfl
  | [h, m, s] =>
    have habove : (60 ≤ m ∨ 60 ≤ s) ↔ (60 ≤ m.toNat ∨ 60 ≤ s.toNat) := by
      rw [UInt64.le_iff_toNat_le, UInt64.le_iff_toNat_le]
      rfl
    rw [ofFieldsInWords, List.map_cons, List.map_cons, List.map_cons, List.map_nil, ofFields]
    by_cases hlarge : 60 ≤ m ∨ 60 ≤ s
    · rw [if_pos hlarge, if_pos (habove.1 hlarge)]
      rfl
    · have hsmall := habove.not.1 hlarge
      rw [if_neg hlarge, if_neg hsmall]
      rw [not_or, Nat.not_le, Nat.not_le] at hsmall
      cases hfraction : readFraction? fraction with
      | none => rfl
      | some f =>
        have hlt := readFraction?_lt hfraction
        have hf : (UInt64.ofNat f).toNat = f := UInt64.toNat_ofNat_of_lt (Nat.lt_trans hlt (by decide))
        have htotal := map_totalInWords (h := h) time hsmall.1 hsmall.2 (by rwa [hf])
        rw [hf] at htotal
        exact htotal

private theorem mapM_readWord (error : NatError → TimeError) (fields : List (List Char)) :
    (fields.mapM fun field => (readWord field).mapError error).map (List.map UInt64.toNat) =
      fields.mapM fun field => (Number.readNat word64 field).mapError error := by
  induction fields with
  | nil => rfl
  | cons field fields ih =>
    rw [List.mapM_cons, List.mapM_cons, ← ih, readWord]
    cases hread : Number.readNat word64 field with
    | error e => rfl
    | ok n =>
      have hn : (UInt64.ofNat n).toNat = n := UInt64.toNat_ofNat_of_lt (Number.readNat_lt (by decide) hread)
      cases fields.mapM fun field => (readWord field).mapError error with
      | error e => rfl
      | ok words =>
        change Except.ok ((UInt64.ofNat n).toNat :: words.map UInt64.toNat) = _
        rw [hn]
        rfl

/-- Reading in words never leaves their range and gives what reading in numbers does. -/
theorem map_readTimeInWords (time : List Char) :
    (readTimeInWords time).map (Except.map UInt64.toNat) = some (readTime time) := by
  rw [readTimeInWords, readTime_eq]
  cases Text.splitLast? (fun c => c == ',' || c == '.') time with
  | none => rfl
  | some parts =>
    obtain ⟨clock, fraction⟩ := parts
    dsimp only
    rw [← mapM_readWord]
    cases (clock.splitOn ':').mapM fun field => (readWord field).mapError (TimeError.badNumber time) with
    | error e => rfl
    | ok fields => exact map_ofFieldsInWords time fraction fields

end Words

/-- A time is read exactly if it is made of three fields and a decimal fraction that come to a number of milliseconds
below the limit, and then as that number. In words the reader does the same, and no step leaves their range. Every word is
read back from its text. -/
theorem reading_times_is_exact :
    (∀ time v, readTime time = .ok v ↔ ∃ (w : WrittenTime) (h m s f : Nat), time = w.text ∧ w.Shows h m s f ∧
      ((h * 60 + m) * 60 + s) * 1000 + f = v ∧ v < word64) ∧
    (∀ time, (readTimeInWords time).map (Except.map UInt64.toNat) = some (readTime time)) ∧
    ∀ ms : UInt64, readTime (timeText ms.toNat) = .ok ms.toNat :=
  ⟨fun _ _ => readTime_eq_ok_iff_shows, map_readTimeInWords, fun ms => readTime_timeText ms.toNat_lt⟩

end OpenCaptions.Subtitle
