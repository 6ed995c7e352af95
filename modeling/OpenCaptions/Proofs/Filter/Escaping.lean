import OpenCaptions.Proofs.Filter.Settings
import OpenCaptions.Proofs.Text.Offsets

/-!
Escaped text between quotes. Escaping the special characters one after the other, the backslash first, is escaping
each character once; dropping the backslashes undoes it; and a scanner that looks back over the backslashes in front
of a byte takes only the outer two quotes for quotes.
-/
namespace OpenCaptions.Filter

open Text Text.Utf8

section InTurn

def specials : List Char := ['\\', '"', ':', '\'', '*']

/-- A backslash in front of one character wherever it stands. -/
def escapeOne (s : List Char) (c : Char) : List Char := s.flatMap fun d => if d = c then ['\\', c] else [d]

/-- Escapes one special character after the other, each in the whole text. -/
def escapeInTurn (s : List Char) : List Char := specials.foldl escapeOne s

def escapeAmong (chars s : List Char) : List Char := s.flatMap fun d => if d ∈ chars then ['\\', d] else [d]

variable {done rest : List Char} {c : Char}

private theorem escapeOne_escapeAmong (hc : c ∉ done) (hb : c ≠ '\\') (s : List Char) :
    escapeOne (escapeAmong done s) c = escapeAmong (done ++ [c]) s := by
  rw [escapeOne, escapeAmong, escapeAmong, List.flatMap_assoc]
  refine congrArg (s.flatMap ·) (funext fun d => ?_)
  by_cases hd : d ∈ done
  · have hdc : d ≠ c := by
      rintro rfl
      exact hc hd
    simp [hd, hdc, Ne.symm hb]
  · by_cases hdc : d = c
    · simp [hdc, hc]
    · simp [hd, hdc]

theorem foldl_escapeOne (hnodup : (done ++ rest).Nodup) (hb : '\\' ∉ rest) (s : List Char) :
    rest.foldl escapeOne (escapeAmong done s) = escapeAmong (done ++ rest) s := by
  induction rest generalizing done with
  | nil => rw [List.foldl_nil, List.append_nil]
  | cons c rest ih =>
    rw [List.mem_cons, not_or] at hb
    have hc : c ∉ done := by
      intro hm
      exact List.disjoint_of_nodup_append hnodup hm List.mem_cons_self
    have hassoc : done ++ [c] ++ rest = done ++ c :: rest := by simp
    rw [List.foldl_cons, escapeOne_escapeAmong hc (Ne.symm hb.1), ih (by rwa [hassoc]) hb.2, hassoc]

theorem isSpecial_iff : isSpecial c = true ↔ c ∈ specials := by
  simp [isSpecial, specials, or_assoc]

theorem escape_eq_escapeAmong (s : List Char) : escape s = escapeAmong specials s := by
  induction s with
  | nil => rfl
  | cons c s ih =>
    rw [escape, ih]
    by_cases hc : c ∈ specials
    · simp [escapeAmong, isSpecial_iff, hc]
    · simp [escapeAmong, isSpecial_iff, hc]

theorem escape_append (front back : List Char) : escape (front ++ back) = escape front ++ escape back := by
  simp only [escape_eq_escapeAmong, escapeAmong, List.flatMap_append]

/-- As the backslash is the first, no backslash that escapes is escaped in its turn. -/
theorem escapeInTurn_eq (s : List Char) : escapeInTurn s = escape s := by
  have hfirst : escapeOne s '\\' = escapeAmong ['\\'] s := by
    refine congrArg (s.flatMap ·) (funext fun d => ?_)
    by_cases hd : d = '\\'
    · simp [hd]
    · simp [hd]
  rw [escape_eq_escapeAmong, escapeInTurn, specials, List.foldl_cons, hfirst,
    foldl_escapeOne (by decide) (by decide)]
  rfl

end InTurn

section LookingBack

def backslash : UInt8 := 92

def quote : UInt8 := 39

/-- Whether an odd number of backslashes stands right in front of a byte. -/
def isEscaped (bytes : List UInt8) (n : Nat) : Bool :=
  ((bytes.take n).reverse.takeWhile (· == backslash)).length % 2 == 1

/-- Whether a quote is open behind so many bytes: each one that is not escaped opens or closes. -/
def quotedBehind (bytes : List UInt8) : Nat → Bool
  | 0 => false
  | n + 1 => quotedBehind bytes n ^^ (bytes[n]? == some quote && !isEscaped bytes n)

variable {front back : List Char} {c : Char}

private theorem eq_backslash_of_mem (h : backslash ∈ String.utf8EncodeChar c) : c = '\\' :=
  Char.toNat_inj.1 (encode_of_mem h (by decide))

theorem eq_quote_of_mem (h : quote ∈ String.utf8EncodeChar c) : c = '\'' :=
  Char.toNat_inj.1 (encode_of_mem h (by decide))

/-- Looking back over the backslashes tells what a scan from the front knows. -/
theorem isEscaped_size (front back : List Char) :
    isEscaped (bytes (front ++ back)) (size front) = (({} : Place).after front).escaped := by
  rw [isEscaped, take_bytes]
  induction front using List.reverseRecOn with
  | nil => rfl
  | append_singleton front c ih =>
    rw [bytes_append, bytes_singleton, List.reverse_append, Place.after_append, Place.after_cons, Place.after_nil]
    by_cases hc : c = '\\'
    · have hbyte : String.utf8EncodeChar '\\' = [backslash] := rfl
      rw [hc, hbyte, List.reverse_singleton, List.singleton_append, List.takeWhile_cons_of_pos (by decide),
        List.length_cons, Place.next, ← ih]
      generalize ((bytes front).reverse.takeWhile (· == backslash)).length = run
      obtain h | h := Nat.mod_two_eq_zero_or_one run
      · simp [Nat.add_mod, h]
      · simp [Nat.add_mod, h]
    · -- the last byte of any other character ends the run
      have hend : ∀ b ∈ (String.utf8EncodeChar c).reverse.head?, (b == backslash) = false := by
        intro b hb
        rw [beq_eq_false_iff_ne]
        rintro rfl
        exact hc (eq_backslash_of_mem (List.mem_reverse.1 (List.mem_of_mem_head? hb)))
      have hrun : ((String.utf8EncodeChar c).reverse ++ (bytes front).reverse).takeWhile (· == backslash) = [] := by
        cases hbytes : (String.utf8EncodeChar c).reverse with
        | nil => exact absurd (List.reverse_eq_nil_iff.1 hbytes) String.utf8EncodeChar_ne_nil
        | cons b rest =>
          rw [hbytes] at hend
          rw [List.cons_append, List.takeWhile_cons_of_neg (by simp [hend b rfl])]
      simp [hrun, Place.next, hc]

end LookingBack

def enquoted (s : List Char) : List Char := '\'' :: escape s ++ ['\'']

def opening (front : List Char) : List Char := '\'' :: escape front ++ ['\\']

section Guarded

variable {marks : Char → Bool} {sep c : Char} {p : Place} {w v : List Char}

theorem escaped_after_of_guards_append (h : guards marks p.escaped (w ++ c :: v) = true) (hc : marks c = true) :
    (p.after w).escaped = true := by
  induction w generalizing p with
  | nil => simpa [hc] using (guards_cons.1 h).1
  | cons d w ih => exact ih (guards_cons.1 h).2

/-- The splitter stays between the quotes as far as the text is guarded. -/
theorem Passes.of_guards_append {depth : Nat} (h : guards (· == '\'') p.escaped (w ++ v) = true) :
    Passes sep ⟨p.escaped, true, depth⟩ ⟨(p.after w).escaped, true, depth⟩ w := by
  induction w generalizing p with
  | nil => exact .nil
  | cons d w ih =>
    obtain ⟨hd, hw⟩ := guards_cons.1 h
    exact (Passes.insideQuotes hd).cons (ih (p := p.next d) hw)

end Guarded

section Enquoted

variable {front back read rest s w v : List Char} {c : Char}

theorem enquoted_append_cons (hc : isSpecial c = true) (front back : List Char) :
    enquoted (front ++ c :: back) = opening front ++ c :: (escape back ++ ['\'']) := by
  rw [enquoted, escape_append, escape, if_pos hc, opening]
  simp

theorem escaped_after_opening (front : List Char) : (({} : Place).after (opening front)).escaped = true := by
  have hguards : guards (· == '\'') (({} : Place).next '\'').escaped (escape front) = true := isSealed_escape front
  rw [opening, List.cons_append, Place.after_cons, Place.after_append, Place.after_cons, Place.after_nil, Place.next,
    escaped_after_of_guards hguards]
  rfl

theorem escaped_after_escape (s : List Char) : (({} : Place).after ('\'' :: escape s)).escaped = false :=
  escaped_after_of_guards (p := ({} : Place).next '\'') (isSealed_escape s)

theorem escaped_after_of_inside (h : escape s = w ++ '\'' :: v) :
    (({} : Place).after ('\'' :: w)).escaped = true := by
  have hguards : guards (· == '\'') (({} : Place).next '\'').escaped (w ++ '\'' :: v) = true :=
    h ▸ isSealed_escape s
  exact escaped_after_of_guards_append (p := ({} : Place).next '\'') hguards rfl

theorem eq_quote_of_getElem?_bytes (h : (bytes (front ++ c :: back))[size front]? = some quote) : c = '\'' := by
  have hbytes : bytes (front ++ c :: back) = bytes front ++ (String.utf8EncodeChar c ++ bytes back) := by
    rw [bytes_append]
    rfl
  rw [hbytes, ← length_bytes, List.getElem?_append_right le_rfl, Nat.sub_self, List.getElem?_append_left] at h
  · exact eq_quote_of_mem (List.mem_of_getElem? h)
  · rw [String.length_utf8EncodeChar]
    exact c.utf8Size_pos

theorem getElem?_bytes_size (front : List Char) {c : Char} {b : UInt8} (hb : String.utf8EncodeChar c = [b])
    (back : List Char) : (bytes (front ++ c :: back))[size front]? = some b := by
  have hbytes : bytes (front ++ c :: back) = bytes front ++ b :: bytes back := by
    rw [bytes_append, bytes, bytes, List.flatMap_cons, hb]
    rfl
  rw [hbytes, ← length_bytes, List.getElem?_append_right le_rfl, Nat.sub_self]
  rfl

theorem enquoted_eq_concat (s : List Char) : enquoted s = ('\'' :: escape s) ++ '\'' :: [] := rfl

theorem size_enquoted (s : List Char) : size (enquoted s) = size ('\'' :: escape s) + 1 := by
  rw [enquoted, size_append]
  rfl

private theorem one_lt_size_enquoted (s : List Char) : 1 < size (enquoted s) := by
  have hpos : 0 < size ('\'' :: escape s) := size_pos (List.cons_ne_nil _ _)
  rw [size_enquoted]
  omega

/-- Of the quotes only the first and the last are not escaped. -/
theorem unescaped_quote_iff (s : List Char) (n : Nat) :
    ((bytes (enquoted s))[n]? == some quote && !isEscaped (bytes (enquoted s)) n) = true ↔
      n = 0 ∨ n + 1 = size (enquoted s) := by
  rw [Bool.and_eq_true, beq_iff_eq, Bool.not_eq_true']
  constructor
  · rintro ⟨hbyte, hescaped⟩
    obtain ⟨front, c, back, htext, hcut, -⟩ := cutAt?_of_getElem?_bytes hbyte (by decide)
    obtain ⟨-, rfl⟩ := cutAt?_eq_some_iff.1 hcut
    have hc : c = '\'' := eq_quote_of_getElem?_bytes (htext ▸ hbyte)
    subst hc
    cases front with
    | nil => exact .inl rfl
    | cons d w =>
      obtain ⟨rfl, hinside⟩ := List.cons.inj htext
      rcases back.eq_nil_or_concat with rfl | ⟨v, d, rfl⟩
      · right
        rw [htext, size_append]
        rfl
      · -- a quote in front of the last one comes from the text and is escaped
        have hfront : escape s ++ ['\''] = (w ++ '\'' :: v) ++ [d] := by simpa using hinside
        have hs : escape s = w ++ '\'' :: v := List.append_inj_left' hfront rfl
        rw [htext, isEscaped_size, escaped_after_of_inside hs] at hescaped
        cases hescaped
  · rintro (rfl | hn)
    · exact ⟨rfl, rfl⟩
    · rw [size_enquoted] at hn
      obtain rfl : n = size ('\'' :: escape s) := Nat.succ.inj hn
      refine ⟨getElem?_bytes_size _ rfl _, ?_⟩
      rw [enquoted_eq_concat, isEscaped_size, escaped_after_escape]

private theorem quotedBehind_enquoted (s : List Char) (n : Nat) :
    quotedBehind (bytes (enquoted s)) n = decide (0 < n ∧ n < size (enquoted s)) := by
  induction n with
  | zero => rfl
  | succ n ih =>
    have htwo := one_lt_size_enquoted s
    rw [quotedBehind, ih]
    cases hmark : (bytes (enquoted s))[n]? == some quote && !isEscaped (bytes (enquoted s)) n with
    | true =>
      have hends := (unescaped_quote_iff s n).1 hmark
      rw [Bool.xor_true, ← decide_not, decide_eq_decide]
      omega
    | false =>
      have hinner : ¬ (n = 0 ∨ n + 1 = size (enquoted s)) := by
        rw [← unescaped_quote_iff, hmark]
        exact Bool.false_ne_true
      rw [Bool.xor_false, decide_eq_decide]
      omega

/-- The splitter is between the quotes behind each part of the text but the whole. -/
theorem passes_of_enquoted (sep : Char) (h : enquoted s = read ++ rest) (hread : read ≠ []) (hrest : rest ≠ []) :
    Passes sep {} ⟨(({} : Place).after read).escaped, true, 0⟩ read := by
  obtain ⟨d, w, rfl⟩ := List.exists_cons_of_ne_nil hread
  obtain ⟨v, c, rfl⟩ := (List.eq_nil_or_concat' rest).resolve_left hrest
  obtain ⟨rfl, hinside⟩ := List.cons.inj h
  have hfront : escape s ++ ['\''] = (w ++ v) ++ [c] := by simpa using hinside
  have hs : escape s = w ++ v := List.append_inj_left' hfront rfl
  have hguards : guards (· == '\'') (({} : Place).next '\'').escaped (w ++ v) = true := hs ▸ isSealed_escape s
  exact Passes.openQuote.cons (.of_guards_append (p := ({} : Place).next '\'') hguards)

end Enquoted

/-- Escaping is undone, and so is escaping a path, up to the slashes in it. Between quotes each special character but the
backslash is escaped wherever it stands in the text, and only the quotes around the text are not: a scanner is between
quotes behind each byte but the last, and so is the splitter behind each character. -/
theorem escaping_is_undone :
    (∀ s, escapeInTurn s = escape s ∧ unescape (escape s) = s) ∧
    (∀ path, unescape (escapePath path) = path.map fun c => if c = '\\' then '/' else c) ∧
    (∀ front c back, c ∈ ['"', ':', '\'', '*'] →
      enquoted (front ++ c :: back) = opening front ++ c :: (escape back ++ ['\'']) ∧
        isEscaped (bytes (enquoted (front ++ c :: back))) (size (opening front)) = true) ∧
    (∀ s, isEscaped (bytes (enquoted s)) 0 = false ∧
      isEscaped (bytes (enquoted s)) (size (enquoted s) - 1) = false) ∧
    (∀ s n, quotedBehind (bytes (enquoted s)) n = decide (0 < n ∧ n < size (enquoted s))) ∧
    ∀ sep s, Closed sep (enquoted s) ∧ ∀ read rest, enquoted s = read ++ rest → read ≠ [] → rest ≠ [] →
      Passes sep {} ⟨isEscaped (bytes (enquoted s)) (size read), true, 0⟩ read := by
  refine ⟨fun s => ⟨escapeInTurn_eq s, unescape_escape s⟩, fun path => unescape_escape _, ?_, ?_,
    quotedBehind_enquoted, ?_⟩
  · intro front c back hc
    have hspecial : isSpecial c = true := isSpecial_iff.2 (List.mem_cons_of_mem '\\' hc)
    have htext := enquoted_append_cons hspecial front back
    refine ⟨htext, ?_⟩
    rw [htext, isEscaped_size, escaped_after_opening]
  · intro s
    have hlast : size (enquoted s) - 1 = size ('\'' :: escape s) := by rw [size_enquoted, Nat.add_sub_cancel]
    refine ⟨rfl, ?_⟩
    rw [hlast, enquoted_eq_concat, isEscaped_size, escaped_after_escape]
  · intro sep s
    refine ⟨.quoted (isSealed_escape s), fun read rest h hread hrest => ?_⟩
    have hpasses := passes_of_enquoted sep h hread hrest
    rwa [← isEscaped_size read rest, ← h] at hpasses

/-- A text whose quote and whose last backslash look like the end of it. -/
theorem escaping_is_undone_deceptive :
    let s := ['\\', ':', '\'', '\\']
    let read := '\'' :: escape s
    ':' ∈ ['"', ':', '\'', '*'] ∧ isEscaped (bytes (enquoted s)) (size (opening ['\\'])) = true ∧
      enquoted s = read ++ ['\''] ∧ read ≠ [] ∧ ['\''] ≠ [] ∧
      Passes ';' {} ⟨isEscaped (bytes (enquoted s)) (size read), true, 0⟩ read := by
  intro s read
  have hcolon : ':' ∈ ['"', ':', '\'', '*'] := by decide
  have hread : read ≠ [] := List.cons_ne_nil _ _
  have hrest : ['\''] ≠ [] := List.cons_ne_nil _ _
  exact ⟨hcolon, (escaping_is_undone.2.2.1 ['\\'] ':' ['\'', '\\'] hcolon).2, rfl, hread, hrest,
    (escaping_is_undone.2.2.2.2.2 ';' s).2 read ['\''] rfl hread hrest⟩

end OpenCaptions.Filter
