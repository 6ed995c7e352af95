import OpenCaptions.Json.Basic
import OpenCaptions.Number.Natural
import OpenCaptions.Text.Blank
import OpenCaptions.Text.Quoted
import OpenCaptions.Text.Split

/-!
Failures of renders, and what the engine's diagnostics say about their cause.
-/
namespace OpenCaptions

inductive Stage where
  | probe | assemble | encode | preview | extract
deriving DecidableEq, Repr

def Stage.text : Stage → String
  | probe => "probe"
  | assemble => "graph assembly"
  | encode => "encode"
  | preview => "preview"
  | extract => "extract"

structure FailureContext where
  stage : Stage
  caption : Option Nat := none
  presetId : Option String := none
deriving DecidableEq, Repr

def FailureContext.text (context : FailureContext) : String :=
  "during " ++ context.stage.text ++
    match context.caption with
    | none => ""
    | some index =>
      " (caption " ++ toString index ++
        (match context.presetId with
          | none => ""
          | some id => ", preset " ++ Text.quotedString id) ++ ")"

inductive EngineFault where
  | fontFile
  | textRenderer
  | dimensions
  | missingStream
  | other (code : Option Int)
deriving DecidableEq, Repr

inductive RenderError where
  | input (message : String)
  | resolution (context : FailureContext) (message : String)
  | engine (fault : EngineFault) (context : FailureContext) (detail : String)
  | noOutput (path : String)
  | cancelled
  | io (context : FailureContext) (message : String)
deriving DecidableEq, Repr

def exitCodeText : Option Int → String
  | some code => "Some(" ++ toString code ++ ")"
  | none => "None"

def EngineFault.text (fault : EngineFault) (context : FailureContext) : String :=
  match fault with
  | fontFile => "a font file could not be found " ++ context.text
  | textRenderer => "the text renderer failed to initialise " ++ context.text
  | dimensions => "output dimensions are invalid or too small " ++ context.text
  | missingStream => "the input is missing a required stream " ++ context.text
  | other code =>
    "the video engine failed " ++ context.text ++ " (exit code " ++ exitCodeText code ++ ")"

namespace RenderError

def message : RenderError → String
  | input message => "invalid input: " ++ message
  | resolution context message => "cannot prepare the render " ++ context.text ++ ": " ++ message
  | engine fault context detail => fault.text context ++ ": " ++ detail
  | noOutput path => "render finished but produced no output at " ++ path
  | cancelled => "render cancelled"
  | io context message => "I/O error " ++ context.text ++ ": " ++ message

/-- Whether a repaired graph could help. -/
def isGraphRelated : RenderError → Bool
  | engine .fontFile _ _ | engine .textRenderer _ _ | engine (.other _) _ _ => true
  | _ => false

end RenderError

namespace Diagnosis

/-- Whether one of the needles occurs. The needles are small ASCII letters that no other character turns
into, so ASCII letters are all whose case matters. -/
def mentions (lower : List Char) (needles : List String) : Bool :=
  needles.any fun needle => Text.contains needle.toList lower

def fault (code : Option Int) (diagnostics : List Char) : EngineFault :=
  let lower := diagnostics.map Char.toLower
  if mentions lower ["cannot find a valid font", "could not load font", "cannot open resource"] then
    .fontFile
  else if mentions lower ["drawtext"] &&
      mentions lower ["error initializing", "error reinitializing", "failed to"] then
    .textRenderer
  else if mentions lower ["not divisible by 2", "invalid too big or non positive size",
      "invalid size", "picture size", "too small"] then
    .dimensions
  else if mentions lower ["matches no streams", "does not contain any stream", "stream specifier",
      "no such stream"] then
    .missingStream
  else .other code

def isMeaningful (line : List Char) : Bool :=
  line != [] && (Text.dropPrefix? "Conversion failed".toList line).isNone

def lastMeaningfulLine (diagnostics : List Char) : String :=
  match ((Text.lines diagnostics).map Text.trim).reverse.find? isMeaningful with
  | some line => String.ofList line
  | none => "no diagnostic output"

def classify (context : FailureContext) (code : Option Int) (diagnostics : String) : RenderError :=
  .engine (fault code diagnostics.toList) context (lastMeaningfulLine diagnostics.toList)

/-- The number of the filter that a line blames, as in `[Parsed_drawtext_3 @ 0x1]`. -/
def blamedIn? (line : List Char) : Option Nat := do
  let (_, rest) ← Text.splitAtText? "[Parsed_".toList line
  let isEnd (c : Char) := c == ' ' || c == ']'
  let name := rest.takeWhile (!isEnd ·)
  if name.length = rest.length then none
  let (_, number) ← Text.splitLast? (· == '_') name
  (Number.readNat word64 number).toOption

def blamedFilter? (diagnostics : List Char) : Option Nat :=
  (Text.lines diagnostics).reverse.findSome? blamedIn?

end Diagnosis
end OpenCaptions
