/-!
UTF-8. Valid bytes become text as they are; in `lossy` each maximal piece that could not be completed
to a character becomes one replacement character.
-/
namespace OpenCaptions.Text.Utf8

/-- Stands for bytes that are no text. -/
def replacement : Char := '\uFFFD'

/-- Reads continuation bytes, each in its own range; gives the character and the bytes used. -/
def follow : List (Nat × Nat) → Nat → List UInt8 → Nat → Char × Nat
  | [], value, _, used => (Char.ofNat value, used)
  | (low, high) :: ranges, value, byte :: rest, used =>
    if low ≤ byte.toNat ∧ byte.toNat ≤ high then
      follow ranges (value * 64 + byte.toNat % 64) rest (used + 1)
    else (replacement, used)
  | _, _, [], used => (replacement, used)

/-- The character that starts with `byte`, and how many of the bytes after it belong to it. -/
def front (byte : UInt8) (rest : List UInt8) : Char × Nat :=
  let n := byte.toNat
  let any := (0x80, 0xBF)
  if n < 0x80 then (Char.ofNat n, 0)
  else if n < 0xC2 then (replacement, 0)
  else if n < 0xE0 then follow [any] (n - 0xC0) rest 0
  else if n = 0xE0 then follow [(0xA0, 0xBF), any] 0 rest 0
  else if n = 0xED then follow [(0x80, 0x9F), any] 0xD rest 0
  else if n < 0xF0 then follow [any, any] (n - 0xE0) rest 0
  else if n = 0xF0 then follow [(0x90, 0xBF), any, any] 0 rest 0
  else if n < 0xF4 then follow [any, any, any] (n - 0xF0) rest 0
  else if n = 0xF4 then follow [(0x80, 0x8F), any, any] 4 rest 0
  else (replacement, 0)

/-- Text of arbitrary bytes. -/
def lossy : List UInt8 → List Char
  | [] => []
  | byte :: rest =>
    let (c, used) := front byte rest
    c :: lossy (rest.drop used)
termination_by bytes => bytes.length
decreasing_by
  simp only [List.length_drop, List.length_cons]
  omega

def decode? (bytes : ByteArray) : Option String := String.fromUTF8? bytes

def encode (s : String) : ByteArray := s.toUTF8

def decodeLossy (bytes : ByteArray) : String :=
  match decode? bytes with
  | some s => s
  | none => String.ofList (lossy bytes.toList)

-- The zero of a sum is that of the core library, whatever else is imported.
attribute [local instance (high)] Zero.ofOfNat0

def size (s : List Char) : Nat := (s.map Char.utf8Size).sum

end OpenCaptions.Text.Utf8
