import OpenCaptions.Number.Scalar

/-!
Timed captions. A caption that can be drawn has finite times with `0 ≤ start < finish`.
-/
namespace OpenCaptions

/-- A text with the seconds, from the start of the video, between which it is shown. -/
structure Caption (α : Type) where
  start : α
  finish : α
  text : String
  presetId : String
  language : Option String := none
  autoGenerated : Bool := false
deriving DecidableEq, Repr

inductive CaptionError (α : Type) where
  | nonFinite (start finish : α)
  | badRange (start finish : α)
deriving DecidableEq, Repr

def CaptionError.message {α : Type} [Written α] : CaptionError α → String
  | nonFinite start finish => "caption times must be finite (" ++ times start finish ++ ")"
  | badRange start finish => "caption must satisfy 0 <= start < end (" ++ times start finish ++ ")"
where
  times (start finish : α) : String :=
    "start=" ++ String.ofList (Written.text start) ++ ", end=" ++ String.ofList (Written.text finish)

namespace Caption

variable {α : Type} [Scalar α]

def duration (c : Caption α) : α := c.finish - c.start

def validate (c : Caption α) : Except (CaptionError α) Unit :=
  if !Scalar.isFinite c.start || !Scalar.isFinite c.finish then .error (.nonFinite c.start c.finish)
  else if Scalar.lt c.start (Scalar.ofNat 0) || Scalar.le c.finish c.start then
    .error (.badRange c.start c.finish)
  else .ok ()

/-- The caption on a clock that starts at `origin`. -/
def rebased (c : Caption α) (origin : α) : Caption α :=
  { c with start := Scalar.positivePart (c.start - origin), finish := c.finish - origin }

end Caption
end OpenCaptions
