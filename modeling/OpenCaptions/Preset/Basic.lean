import OpenCaptions.Caption.Timing
import OpenCaptions.Table

/-!
Presets: named bundles of style settings, and the ones that come with the program.
-/
namespace OpenCaptions

def defaultFont : String := "Arial"

def defaultSize : Nat := 24

def defaultColor : String := "white"

/-- Style settings as they are stored. -/
structure Preset where
  font : String := defaultFont
  size : Nat := defaultSize
  color : String := defaultColor
  x : String := "(w-text_w)/2"
  y : String := "h-100"
  animation : Animation := .appear
  background : Bool := false
  backgroundColor : String := "black"
  /-- Percent. -/
  backgroundOpacity : Nat := 50
  outline : Bool := false
  outlineColor : String := "black"
  outlineSize : Nat := 2
deriving DecidableEq, Repr, Inhabited

namespace Preset

def builtin : Table Preset := .ofList [
  ("fadeBottom", { size := 36, animation := .fadeInBottom }),
  ("topSlide", { font := "Verdana", color := "yellow", y := "50", animation := .slideFromTop }),
  ("centerBold", { font := "Arial Black", size := 42, color := "#ffffff", y := "(h-text_h)/2" })]

end Preset
end OpenCaptions
