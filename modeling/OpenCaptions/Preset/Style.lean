import OpenCaptions.Preset.Font
import OpenCaptions.Expr.Parser

/-!
Styles: presets with their fonts found and every free field checked. What cannot be used gives way to a
default, with a note that says so.
-/
namespace OpenCaptions

structure BoxStyle (α : Type) where
  color : String
  opacity : α
deriving DecidableEq, Repr

structure OutlineStyle where
  color : String
  size : Nat
deriving DecidableEq, Repr

/-- Why a setting was replaced. -/
inductive StyleNote where
  | missingFontFile (font : String)
  | zeroSize
  | badColor (color fallback : String)
  | badPosition (axis source : String) (e : SyntaxError)
deriving DecidableEq, Repr

/-- Most characters of a position that are shown. -/
def shownLength : Nat := 40

def StyleNote.message : StyleNote → String
  | missingFontFile font =>
    "font file for " ++ Text.quotedString font ++ " is missing, using a standard font"
  | zeroSize => "font size 0 is invalid, using " ++ toString defaultSize
  | badColor color fallback => "invalid color " ++ Text.quotedString color ++ ", using " ++ fallback
  | badPosition axis source e =>
    "invalid " ++ axis ++ " position " ++
      String.ofList (Text.quoted (source.toList.take shownLength)) ++ " (" ++ e.message ++
      "), using default"

structure Style (α : Type) where
  font : FontChoice
  size : Nat
  color : String
  x : Expr α
  y : Expr α
  animation : Animation
  background : Option (BoxStyle α)
  outline : Option OutlineStyle
  notes : List StyleNote
deriving DecidableEq, Repr

namespace Style

/-- A name in ASCII letters, or six or eight hexadecimal digits behind `#` or `0x`. -/
def isColor (color : List Char) : Bool :=
  let isHex (digits : List Char) :=
    (Text.Utf8.size digits == 6 || Text.Utf8.size digits == 8) && digits.all Json.isHexDigit
  match color with
  | '#' :: digits => isHex digits
  | '0' :: 'x' :: digits => isHex digits
  | name => name != [] && Text.Utf8.size name ≤ 32 && name.all Char.isAlpha

/-- A color that can be used, with a note if it is not the one asked for. -/
def checkColor (color fallback : String) : String × List StyleNote :=
  if isColor color.toList then (color, []) else (fallback, [.badColor color fallback])

variable {α : Type} [Scalar α]

def defaultX : Expr α := .div (.sub (.var .frameWidth) (.var .textWidth)) (.nat 2)

def defaultY : Expr α := .sub (.var .frameHeight) (.nat 100)

/-- A position that can be used, with a note if it is not the one asked for. -/
def checkPosition [Written α] (source axis : String) (fallback : Expr α) :
    Expr α × List StyleNote :=
  match Expr.parse source.toList with
  | .ok e => (e, [])
  | .error e => (fallback, [.badPosition axis source e])

/-- The style of a preset, where `isFile` tells which font files are there. -/
def ofPreset [Written α] (isFile : String → Bool) (fonts : FontRegistry) (p : Preset) : Style α :=
  let (color, colorNotes) := checkColor p.color defaultColor
  let (x, xNotes) := checkPosition p.x "x" defaultX
  let (y, yNotes) := checkPosition p.y "y" defaultY
  let (boxColor, boxNotes) := checkColor p.backgroundColor "black"
  let (outlineColor, outlineNotes) := checkColor p.outlineColor "black"
  let hasOutline := p.outline && 0 < p.outlineSize
  { font := Font.choose isFile fonts p.font
    size := if p.size = 0 then defaultSize else p.size
    color, x, y
    animation := p.animation
    background :=
      if p.background then
        some ⟨boxColor, Scalar.ofNat (min p.backgroundOpacity 100) / Scalar.ofNat 100⟩
      else none
    outline := if hasOutline then some ⟨outlineColor, p.outlineSize⟩ else none
    notes :=
      (if Font.isMissing isFile fonts p.font then [.missingFontFile p.font] else []) ++
      (if p.size = 0 then [.zeroSize] else []) ++ colorNotes ++ xNotes ++ yNotes ++
      (if p.background then boxNotes else []) ++ (if hasOutline then outlineNotes else []) }

end Style
end OpenCaptions
