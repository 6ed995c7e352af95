import OpenCaptions.Engine.Basic
import OpenCaptions.Caption.File

/-!
Reading the prober's report, which is JSON: the first video stream with a size, whether there is any
audio, and the duration.
-/
namespace OpenCaptions

namespace VideoInfo

structure Stream where
  kind : Option String
  width : Option Nat
  height : Option Nat

def streamFields : List Json.FieldNames := [["codec_type"], ["width"], ["height"]]

def side? : Json.Tree → Option (Option Nat) :=
  Json.Tree.leaf? .bytes (Json.nullable? (Json.natBelow? word32))

def word? : Json.Tree → Option (Option String) :=
  Json.Tree.leaf? .bytes (Json.nullable? Json.string?)

def stream? (tree : Json.Tree) : Option Stream := do
  let [kind, width, height] ← tree.slots? .bytes streamFields 3 | none
  return {
    kind := ← Json.optional? word? none kind
    width := ← Json.optional? side? none width
    height := ← Json.optional? side? none height }

def duration? (tree : Json.Tree) : Option (Option String) := do
  let [duration] ← tree.slots? .bytes [["duration"]] 1 | none
  Json.optional? word? none duration

/-- The size of a video stream; a stream without a kind counts as video. -/
def Stream.size? (stream : Stream) : Option (Nat × Nat) :=
  if stream.kind.getD "video" = "video" then return (← stream.width, ← stream.height) else none

def ofReport (report : ByteArray) : Except ProbeError VideoInfo := do
  let parsed : Option (List Stream × Option String) := do
    let tree ← Json.Tree.read? (Json.charsOfBytes report)
    let [streams, format] ← tree.slots? .bytes [["streams"], ["format"]] 0 | none
    return (← Json.optional? (Json.Tree.itemsOf? stream?) [] streams,
      ← Json.optional? duration? none format)
  match parsed with
  | none => throw .unreadable
  | some (streams, duration) =>
    match streams.findSome? Stream.size? with
    | none => throw .noVideo
    | some (width, height) =>
      return {
        duration := (duration.bind fun d => Number.Numeral.read? d.toList).getD 0
        width, height
        hasAudio := streams.any (·.kind = some "audio") }

end VideoInfo
end OpenCaptions
