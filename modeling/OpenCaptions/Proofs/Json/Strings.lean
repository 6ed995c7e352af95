import OpenCaptions.Json.Printer
import OpenCaptions.Json.Tree

/-!
Strings in JSON text. What is written for a character is cut off whole, and it stands for that character only.
-/
namespace OpenCaptions.Json

def IsPlain (c : Char) : Prop := c ≠ '"' ∧ c ≠ '\\' ∧ ¬ c < ' '

inductive IsLetterEscape : Char → Char → Prop
  | quote : IsLetterEscape '"' '"'
  | backslash : IsLetterEscape '\\' '\\'
  | backspace : IsLetterEscape 'b' '\x08'
  | tab : IsLetterEscape 't' '\t'
  | newline : IsLetterEscape 'n' '\n'
  | formFeed : IsLetterEscape 'f' '\x0c'
  | carriageReturn : IsLetterEscape 'r' '\r'

/-- A character is written as an escape with a letter, by its number, or as it is. -/
theorem escapedChar_cases (c : Char) :
    (∃ letter, IsLetterEscape letter c ∧ escapedChar c = ['\\', letter]) ∨
      (c < ' ' ∧ escapedChar c =
        ['\\', 'u', '0', '0', Nat.digitChar (c.toNat / 16), Nat.digitChar (c.toNat % 16)]) ∨
      (IsPlain c ∧ escapedChar c = [c]) := by
  unfold escapedChar
  split
  · rename_i h
    rcases h with rfl | rfl
    · exact .inl ⟨_, .quote, rfl⟩
    · exact .inl ⟨_, .backslash, rfl⟩
  · rename_i hquote
    split
    · rename_i h
      exact .inl ⟨_, h ▸ .backspace, rfl⟩
    · split
      · rename_i h
        exact .inl ⟨_, h ▸ .tab, rfl⟩
      · split
        · rename_i h
          exact .inl ⟨_, h ▸ .newline, rfl⟩
        · split
          · rename_i h
            exact .inl ⟨_, h ▸ .formFeed, rfl⟩
          · split
            · rename_i h
              exact .inl ⟨_, h ▸ .carriageReturn, rfl⟩
            · split
              · rename_i h
                exact .inr (.inl ⟨h, rfl⟩)
              · rename_i h
                rw [not_or] at hquote
                exact .inr (.inr ⟨⟨hquote.1, hquote.2, h⟩, rfl⟩)

theorem isHexDigit_digitChar : ∀ n < 16, isHexDigit (Nat.digitChar n) = true := by decide

theorem hexValue_digitChar : ∀ n < 32, hexValue ['0', '0', Nat.digitChar (n / 16), Nat.digitChar (n % 16)] = n := by
  decide

theorem toNat_lt_of_lt {c : Char} (h : c < ' ') : c.toNat < 32 := h

variable (c : Char) (s : List Char)

private theorem scanString_escapedChar : scanString (escapedChar c ++ s) =
    (scanString s).map fun (raw, behind) => (escapedChar c ++ raw, behind) := by
  rcases escapedChar_cases c with ⟨letter, hletter, heq⟩ | ⟨hlt, heq⟩ | ⟨hplain, heq⟩
  · rw [heq]
    cases hletter <;> rfl
  · have hn := toNat_lt_of_lt hlt
    have hall : ['0', '0', Nat.digitChar (c.toNat / 16), Nat.digitChar (c.toNat % 16)].all isHexDigit = true := by
      simp only [List.all_cons, isHexDigit_digitChar _ (show c.toNat / 16 < 16 by omega),
        isHexDigit_digitChar _ (show c.toNat % 16 < 16 by omega)]
      rfl
    rw [heq]
    simp only [List.cons_append, List.nil_append, scanString, hall, if_true]
  · rw [heq]
    obtain ⟨hquote, hbackslash, hlow⟩ := hplain
    simp [scanString, hbackslash, hlow]

private theorem unescape_escapedChar : unescape (escapedChar c ++ s) = (unescape s).map (c :: ·) := by
  rcases escapedChar_cases c with ⟨letter, hletter, heq⟩ | ⟨hlt, heq⟩ | ⟨hplain, heq⟩
  · rw [heq]
    cases hletter <;> rfl
  · have hn := toNat_lt_of_lt hlt
    rw [heq, unescape.eq_def]
    simp only [List.cons_append, List.nil_append, hexValue_digitChar _ hn]
    rw [if_neg (by omega), if_neg (by omega), Char.ofNat_toNat]
  · rw [heq]
    obtain ⟨-, hbackslash, -⟩ := hplain
    simp [unescape, hbackslash]

theorem scanString_escaped (text : List Char) :
    scanString (text.flatMap escapedChar ++ '"' :: s) = some (text.flatMap escapedChar, s) := by
  induction text with
  | nil => rfl
  | cons c text ih => rw [List.flatMap_cons, List.append_assoc, scanString_escapedChar, ih, Option.map_some]

theorem unescape_escaped (text : List Char) : unescape (text.flatMap escapedChar) = some text := by
  induction text with
  | nil => rfl
  | cons c text ih => rw [List.flatMap_cons, unescape_escapedChar, ih, Option.map_some]

theorem stringText_append (s : String) (rest : List Char) :
    stringText s ++ rest = '"' :: (s.toList.flatMap escapedChar ++ '"' :: rest) := by
  simp [stringText]

theorem string?_escaped (text : String) : Charset.text.string? (text.toList.flatMap escapedChar) = some text := by
  simp [Charset.string?, Charset.decode?, unescape_escaped]

end OpenCaptions.Json
