import OpenCaptions.Caption.Basic
import OpenCaptions.Expr.Basic

/-!
Opacity and position of a caption as formulas of the playback time. The opacity is a trapezoid: it rises
after the start and falls before the end, in a fade that takes at most a quarter of the caption each.
-/
namespace OpenCaptions

inductive Animation where
  | appear | fadeInBottom | slideFromTop | fadeIn
deriving DecidableEq, Repr

namespace Animation

def all : List Animation := [appear, fadeInBottom, slideFromTop, fadeIn]

def name : Animation → String
  | appear => "appear"
  | fadeInBottom => "fadeInBottom"
  | slideFromTop => "slideFromTop"
  | fadeIn => "fadeIn"

def title : Animation → String
  | appear => "Appear"
  | fadeInBottom => "FadeInBottom"
  | slideFromTop => "SlideFromTop"
  | fadeIn => "FadeIn"

/-- Reads a name; any other name stands for the plainest kind. -/
def ofName (name : String) : Animation := (all.find? (·.name = name)).getD appear

end Animation

namespace Timing

variable {α : Type} [Scalar α]

/-- Fade of captions that are long enough, in seconds. -/
def defaultFade : α := Scalar.ofDecimal 5 1

/-- Way of a moving caption, in pixels. -/
def slideDistance : α := Scalar.ofNat 50

/-- The fade of a caption: at most a quarter of its duration, and not below zero. -/
def fadeDuration (start finish configured : α) : α :=
  Scalar.positivePart (Scalar.min configured ((finish - start) / Scalar.ofNat 4))

def isSudden (fade : α) : Bool := Scalar.le fade (Scalar.ofNat 0)

/-- Opacity: zero outside the caption, one between the fades. -/
def trapezoid (start finish fade : α) : Expr α :=
  if isSudden fade then
    .choose (.less .time (.number start)) (.nat 0)
      (.choose (.less .time (.number finish)) (.nat 1) (.nat 0))
  else
    let rise := Expr.smaller (.nat 1) (.div (.sub .time (.number start)) (.number fade))
    let fall := Expr.smaller (.nat 1) (.div (.sub (.number finish) .time) (.number fade))
    .choose (.less .time (.number start)) (.nat 0)
      (.choose (.less .time (.number (start + fade))) rise
        (.choose (.less .time (.number (finish - fade))) (.nat 1)
          (.choose (.less .time (.number finish)) fall (.nat 0))))

/-- Share of the way that is done while the fade at the start lasts. -/
def entryProgress (start fade : α) : Expr α :=
  .larger (.nat 0) (.div (.sub .time (.number start)) (.number fade))

/-- Vertical position that rises to `base` while the caption fades in. -/
def riseFromBelow (base : Expr α) (start fade : α) : Expr α :=
  let moving := Expr.sub (.add base (.number slideDistance))
    (.mul (.number slideDistance) (entryProgress start fade))
  .choose (.less .time (.number (start + fade))) moving base

/-- Vertical position that comes down to `base` from near the upper edge. -/
def slideFromTop (base : Expr α) (start fade : α) : Expr α :=
  let moving := Expr.add (.number slideDistance)
    (.mul (entryProgress start fade) (.sub base (.number slideDistance)))
  .choose (.less .time (.number (start + fade))) moving base

end Timing

structure Timing (α : Type) where
  fade : α
  opacity : Expr α
  position : Option (Expr α)
deriving DecidableEq, Repr

/-- The animation of a caption whose vertical position is `base` when it rests. -/
def Caption.timing {α : Type} [Scalar α] (c : Caption α) (animation : Animation) (base : Expr α)
    (configured : α) : Except (CaptionError α) (Timing α) := do
  c.validate
  let fade := Timing.fadeDuration c.start c.finish configured
  let position :=
    if Timing.isSudden fade then none
    else match animation with
      | .fadeInBottom => some (Timing.riseFromBelow base c.start fade)
      | .slideFromTop => some (Timing.slideFromTop base c.start fade)
      | .appear | .fadeIn => none
  return ⟨fade, Timing.trapezoid c.start c.finish fade, position⟩

end OpenCaptions
