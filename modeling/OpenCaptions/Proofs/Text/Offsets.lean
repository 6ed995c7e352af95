import OpenCaptions.Proofs.Text.Cutting

/-!
Positions in a text as numbers of bytes. A text can be cut at an offset exactly if that many bytes make up whole
characters at its front, so cuts between known pieces are always possible.
-/
namespace OpenCaptions.Text

open Utf8 (size)

/-- Cuts text at an offset; none if that lies inside a character or beyond the end. -/
def cutAt? : Nat → List Char → Option (List Char × List Char)
  | 0, s => some ([], s)
  | _ + 1, [] => none
  | n + 1, c :: s =>
    if c.utf8Size ≤ n + 1 then
      (cutAt? (n + 1 - c.utf8Size) s).map fun (front, back) => (c :: front, back)
    else none

def slice? (start stop : Nat) (s : List Char) : Option (List Char) :=
  if stop < start then none
  else (cutAt? stop s).bind fun (front, _) => (cutAt? start front).map Prod.snd

def bytes (s : List Char) : List UInt8 := s.flatMap String.utf8EncodeChar

def replaceRange? (start stop : Nat) (new s : List Char) : Option (List Char) :=
  if stop < start then none
  else (cutAt? stop s).bind fun (front, back) => (cutAt? start front).map fun (kept, _) => kept ++ (new ++ back)

variable {n start stop : Nat} {front middle back new s : List Char}

theorem cutAt?_size (front back : List Char) : cutAt? (size front) (front ++ back) = some (front, back) := by
  induction front with
  | nil => rw [Utf8.size_nil, List.nil_append, cutAt?]
  | cons c front ih =>
    obtain ⟨n, hn⟩ := Nat.exists_eq_add_one.2 (Nat.add_pos_left c.utf8Size_pos (size front))
    have hrest : n + 1 - c.utf8Size = size front := by omega
    rw [Utf8.size_cons, hn, List.cons_append, cutAt?, if_pos (by omega), hrest, ih]
    rfl

/-- The offsets of a text are the sizes of what can stand at its front. -/
theorem cutAt?_eq_some_iff : cutAt? n s = some (front, back) ↔ s = front ++ back ∧ size front = n := by
  constructor
  · intro h
    induction s generalizing n front with
    | nil =>
      cases n with
      | zero =>
        cases h
        exact ⟨rfl, rfl⟩
      | succ n => cases h
    | cons c s ih =>
      cases n with
      | zero =>
        cases h
        exact ⟨rfl, rfl⟩
      | succ n =>
        rw [cutAt?] at h
        split at h
        · obtain ⟨⟨front', back'⟩, hcut, heq⟩ := Option.map_eq_some_iff.1 h
          cases heq
          obtain ⟨rfl, hsize⟩ := ih hcut
          refine ⟨rfl, ?_⟩
          rw [Utf8.size_cons]
          omega
        · cases h
  · rintro ⟨rfl, rfl⟩
    exact cutAt?_size front back

theorem utf8Size_of_mem_encode {c : Char} {b : UInt8} (h : b ∈ String.utf8EncodeChar c) (hb : b.toNat < 128) :
    c.utf8Size = 1 := by
  rw [← String.length_utf8EncodeChar]
  unfold String.utf8EncodeChar at h ⊢
  dsimp only at h ⊢
  split_ifs at h ⊢
  · rfl
  all_goals
    -- the bytes of a longer character have their highest bit set
    simp only [List.mem_cons, List.not_mem_nil, or_false] at h
    rcases h with rfl | rfl | rfl | rfl <;>
      · rw [UInt8.toNat_ofNat'] at hb
        omega

@[simp] theorem bytes_append (front back : List Char) : bytes (front ++ back) = bytes front ++ bytes back :=
  List.flatMap_append

@[simp] theorem bytes_singleton (c : Char) : bytes [c] = String.utf8EncodeChar c := List.flatMap_singleton ..

@[simp] theorem length_bytes (s : List Char) : (bytes s).length = size s := by
  induction s with
  | nil => rfl
  | cons c s ih =>
    rw [Utf8.size_cons, ← ih, ← String.length_utf8EncodeChar, bytes, List.flatMap_cons, List.length_append]
    rfl

theorem take_bytes (front back : List Char) : (bytes (front ++ back)).take (size front) = bytes front := by
  rw [bytes_append, ← length_bytes, List.take_left]

/-- A byte below 128 stands for the character with its number, and for no part of another. -/
theorem encode_of_mem {c : Char} {b : UInt8} (h : b ∈ String.utf8EncodeChar c) (hb : b.toNat < 128) :
    c.toNat = b.toNat := by
  have hsize := utf8Size_of_mem_encode h hb
  rw [String.utf8EncodeChar_eq_singleton hsize, List.mem_singleton] at h
  rw [Char.utf8Size_eq_one_iff] at hsize
  have hle : c.val.toNat ≤ 127 := UInt32.le_iff_toNat_le.1 hsize
  rw [h, UInt32.toNat_toUInt8]
  change c.val.toNat = c.val.toNat % 256
  omega

/-- A byte below 128 is a character of its own, so the offsets on both sides of it are those of a cut. -/
theorem cutAt?_of_getElem?_bytes {b : UInt8} (h : (bytes s)[n]? = some b) (hb : b.toNat < 128) :
    ∃ front c back, s = front ++ c :: back ∧ cutAt? n s = some (front, c :: back) ∧
      cutAt? (n + 1) s = some (front ++ [c], back) := by
  simp only [cutAt?_eq_some_iff]
  suffices hs : ∃ front c back, s = front ++ c :: back ∧ Utf8.size front = n ∧ c.utf8Size = 1 by
    obtain ⟨front, c, back, rfl, rfl, hc⟩ := hs
    exact ⟨front, c, back, rfl, ⟨rfl, rfl⟩, by simp, by simp [hc]⟩
  induction s generalizing n with
  | nil => cases h
  | cons c s ih =>
    have hlen := String.length_utf8EncodeChar c
    rw [bytes, List.flatMap_cons, List.getElem?_append] at h
    split at h
    · have hc := utf8Size_of_mem_encode (List.mem_of_getElem? h) hb
      refine ⟨[], c, s, rfl, ?_, hc⟩
      rw [Utf8.size_nil]
      omega
    · obtain ⟨front, d, back, rfl, hsize, hd⟩ := ih h
      refine ⟨c :: front, d, back, rfl, ?_, hd⟩
      rw [Utf8.size_cons]
      omega

theorem slice?_size (front middle back : List Char) :
    slice? (size front) (size (front ++ middle)) (front ++ (middle ++ back)) = some middle := by
  rw [slice?, if_neg (by simp), ← List.append_assoc, cutAt?_size]
  simp only [Option.bind_some, cutAt?_size, Option.map_some]

/-- Only an edit whose offsets are in range and in order gives a text, and it keeps what is outside. -/
theorem replaceRange?_eq_some_iff :
    replaceRange? start stop new s = some back ↔
      ∃ front old rest, s = front ++ (old ++ rest) ∧ size front = start ∧ size (front ++ old) = stop ∧
        back = front ++ (new ++ rest) := by
  constructor
  · intro h
    unfold replaceRange? at h
    split at h
    · cases h
    · obtain ⟨⟨whole, rest⟩, hwhole, h⟩ := Option.bind_eq_some_iff.1 h
      obtain ⟨⟨front, old⟩, hfront, heq⟩ := Option.map_eq_some_iff.1 h
      obtain ⟨rfl, hstop⟩ := cutAt?_eq_some_iff.1 hwhole
      obtain ⟨rfl, hstart⟩ := cutAt?_eq_some_iff.1 hfront
      exact ⟨front, old, rest, by simp, hstart, hstop, heq.symm⟩
  · rintro ⟨front, old, rest, rfl, rfl, rfl, rfl⟩
    rw [replaceRange?, if_neg (by simp), ← List.append_assoc, cutAt?_size]
    simp only [Option.bind_some, cutAt?_size, Option.map_some]

theorem replaceRange?_of_lt (h : stop < start) (new s : List Char) : replaceRange? start stop new s = none := if_pos h

theorem slice?_of_lt (h : stop < start) (s : List Char) : slice? start stop s = none := if_pos h

theorem size_pos (h : s ≠ []) : 0 < size s := by
  obtain ⟨c, s, rfl⟩ := List.exists_cons_of_ne_nil h
  rw [Utf8.size_cons]
  exact Nat.add_pos_left c.utf8Size_pos (size s)

end OpenCaptions.Text
