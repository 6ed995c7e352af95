import OpenCaptions.Caption.File
import OpenCaptions.Number.Natural
import OpenCaptions.Text.Blank
import OpenCaptions.Text.Quoted

/-!
SRT subtitles: blocks of a number, a time line and text lines, with blank lines between them. Times are
milliseconds.
-/
namespace OpenCaptions

structure SubtitleBlock where
  index : Nat
  startMs : Nat
  finishMs : Nat
  lines : List (List Char)
deriving DecidableEq, Repr

namespace Subtitle

inductive TimeError where
  | noFraction (time : List Char)
  | badNumber (time : List Char) (e : NatError)
  | notClock (time : List Char)
  | aboveSixty (time : List Char)
  | badFraction (time : List Char)
  | outOfRange (time : List Char)
deriving DecidableEq, Repr

inductive BlockError where
  | noArrow (line : List Char)
  | time (e : TimeError)
deriving DecidableEq, Repr

inductive Error where
  | noTimeLine (first : List Char)
  | badIndex (line : List Char) (e : NatError)
  | block (index : Nat) (e : BlockError)
deriving DecidableEq, Repr

def TimeError.messages : TimeError → List String
  | noFraction time => ["time " ++ String.ofList (Text.quoted time) ++ " has no milliseconds"]
  | badNumber time e => ["bad time " ++ String.ofList (Text.quoted time), e.message]
  | notClock time => ["time " ++ String.ofList (Text.quoted time) ++ " is not HH:MM:SS"]
  | aboveSixty time =>
    ["time " ++ String.ofList (Text.quoted time) ++ " has minutes or seconds above 59"]
  | badFraction time => ["time " ++ String.ofList (Text.quoted time) ++ " has a bad millisecond field"]
  | outOfRange time => ["time " ++ String.ofList (Text.quoted time) ++ " is out of range"]

/-- What went wrong, from the block down to its cause. -/
def Error.messages : Error → List String
  | noTimeLine first => ["block " ++ String.ofList (Text.quoted first) ++ ": missing time line"]
  | badIndex line e => ["bad block index " ++ String.ofList (Text.quoted line), e.message]
  | block index (.noArrow line) =>
    ["block " ++ toString index, "no arrow in time line " ++ String.ofList (Text.quoted line)]
  | block index (.time e) => ("block " ++ toString index) :: e.messages

/-- Reads one to three digits as a decimal fraction of a second. -/
def readFraction? (digits : List Char) : Option Nat :=
  if digits = [] ∨ 3 < digits.length ∨ !digits.all Char.isDigit then none
  else some (Nat.ofDigitChars 10 (digits ++ List.replicate (3 - digits.length) '0') 0)

/-- Reads a time such as `00:00:01,5`, in milliseconds below `word64`. -/
def readTime (time : List Char) : Except TimeError Nat := do
  match Text.splitLast? (fun c => c == ',' || c == '.') time with
  | none => throw (.noFraction time)
  | some (clock, fraction) =>
    let fields ← (clock.splitOn ':').mapM fun field => (Number.readNat word64 field).mapError (.badNumber time)
    match fields with
    | [h, m, s] =>
      if 60 ≤ m ∨ 60 ≤ s then throw (.aboveSixty time)
      match readFraction? fraction with
      | none => throw (.badFraction time)
      | some ms =>
        let total := ((h * 60 + m) * 60 + s) * 1000 + ms
        if total < word64 then return total else throw (.outOfRange time)
    | _ => throw (.notClock time)

def readTimes (line : List Char) : Except BlockError (Nat × Nat) :=
  match Text.splitAtText? "-->".toList line with
  | none => .error (.noArrow line)
  | some (start, finish) => do
    let start ← (readTime (Text.trim start)).mapError .time
    let finish ← (readTime (Text.trim finish)).mapError .time
    return (start, finish)

def readBlock : List (List Char) → Except Error SubtitleBlock
  | indexLine :: timeLine :: lines => do
    let index ← (Number.readNat word32 (Text.trim indexLine)).mapError (.badIndex indexLine)
    let (start, finish) ← (readTimes timeLine).mapError (.block index)
    return ⟨index, start, finish, lines⟩
  | lines => .error (.noTimeLine (lines.headD []))

/-- Runs of lines that are not blank. -/
def groups : List (List Char) → List (List (List Char))
  | [] => []
  | line :: lines =>
    if Text.isBlankText line then groups lines
    else match lines with
      | [] => [[line]]
      | next :: _ =>
        if Text.isBlankText next then [line] :: groups lines
        else match groups lines with
          | [] => [[line]]
          | group :: rest => (line :: group) :: rest

def parse (source : List Char) : Except Error (List SubtitleBlock) :=
  let source := source.dropWhile (· == '\uFEFF')
  let lines := (Text.lines source).map (Text.dropWhileEnd (· == '\r'))
  (groups lines).mapM readBlock

def padded (width n : Nat) : List Char :=
  let digits := Nat.toDigits 10 n
  List.replicate (width - digits.length) '0' ++ digits

def timeText (ms : Nat) : List Char :=
  let seconds := ms / 1000
  padded 2 (seconds / 3600) ++ ':' :: padded 2 (seconds / 60 % 60) ++ ':' :: padded 2 (seconds % 60) ++
    ',' :: padded 3 (ms % 1000)

def blockText (block : SubtitleBlock) : List Char :=
  Nat.toDigits 10 block.index ++ '\n' :: timeText block.startMs ++ " --> ".toList ++
    timeText block.finishMs ++ '\n' :: Text.join ['\n'] block.lines ++ ['\n', '\n']

def format (blocks : List SubtitleBlock) : List Char := blocks.flatMap blockText

variable {α : Type} [Scalar α]

/-- The caption of a block; none if its time range is empty. -/
def toCaption? (presetId : String) (block : SubtitleBlock) : Option (Caption α) :=
  if block.finishMs ≤ block.startMs then none
  else some {
    start := Scalar.ofNat block.startMs / Scalar.ofNat 1000
    finish := Scalar.ofNat block.finishMs / Scalar.ofNat 1000
    text := String.ofList (Text.join ['\n'] block.lines)
    presetId }

def toCaptions (presetId : String) (blocks : List SubtitleBlock) : List (Caption α) :=
  blocks.filterMap (toCaption? presetId)

/-- Whole milliseconds of a time that is not below zero. -/
def milliseconds (seconds : α) : Nat :=
  Scalar.nearestNat (Scalar.positivePart seconds * Scalar.ofNat 1000) (word64 - 1)

def numbered (index : Nat) : List (Caption α) → List SubtitleBlock
  | [] => []
  | c :: captions =>
    ⟨index, milliseconds c.start, milliseconds c.finish, Text.lines c.text.toList⟩ ::
      numbered (index + 1) captions

def ofCaptions (captions : List (Caption α)) : List SubtitleBlock := numbered 1 captions

inductive ImportError where
  | unreadable (path : String) (cause : FileError)
  | malformed (e : Error)
deriving DecidableEq, Repr

def ImportError.messages : ImportError → List String
  | unreadable path cause => ["reading " ++ path, cause.message]
  | malformed e => e.messages

def load (store : FileStore) (path presetId : String) : Except ImportError (List (Caption Float)) :=
  match store.readText path with
  | .error cause => .error (.unreadable path cause)
  | .ok content => ((parse content.toList).map (toCaptions presetId)).mapError .malformed

def save (path : String) (captions : List (Caption Float)) : FileM FileError Unit :=
  FileM.attempt (·.writeText path (String.ofList (format (ofCaptions captions))))

end Subtitle
end OpenCaptions
