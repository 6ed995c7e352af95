import OpenCaptions.Filter.Split

/-!
Filter graphs: a chain of labelled nodes, each with the text of its filters. The engine numbers the
filters of a graph through all nodes, and so a number leads back to a caption.
-/
namespace OpenCaptions

/-- The caption that a node draws, and the plain filter that can stand in for it. -/
structure CaptionSource where
  index : Nat
  presetId : String
  fallback : String
deriving DecidableEq, Repr

/-- Filters between an input and an output label. -/
structure FilterNode where
  input : String
  body : String
  output : String
  source : Option CaptionSource
deriving DecidableEq, Repr

structure FilterGraph where
  nodes : List FilterNode
deriving DecidableEq, Repr

def inputLabel : String := "0:v"

def labelledText (input body output : String) : String :=
  "[" ++ input ++ "]" ++ body ++ "[" ++ output ++ "]"

namespace FilterNode

def text (node : FilterNode) : String := labelledText node.input node.body node.output

def filterCount? (node : FilterNode) : Option Nat :=
  (Filter.splitTopLevel ',' node.body.toList).toOption.map List.length

end FilterNode

namespace FilterGraph

def text (graph : FilterGraph) : String := ";".intercalate (graph.nodes.map FilterNode.text)

/-- The label to send to the output file. -/
def outputLabel (graph : FilterGraph) : String :=
  (graph.nodes.getLast?.map FilterNode.output).getD inputLabel

/-- The caption of the filter with a number, among nodes whose filters are numbered from zero. -/
def ownerIn (number : Nat) : List FilterNode → Option CaptionSource
  | [] => none
  | node :: nodes =>
    match node.filterCount? with
    | none => none
    | some count => if number < count then node.source else ownerIn (number - count) nodes

def captionAtFilter (graph : FilterGraph) (number : Nat) : Option CaptionSource :=
  ownerIn number graph.nodes

end FilterGraph

/-- Something that was replaced or left out, with the caption it concerns. -/
structure Warning where
  caption : Option Nat
  presetId : Option String
  message : String
deriving DecidableEq, Repr

def Warning.text (w : Warning) : String :=
  match w.caption with
  | some index => "caption " ++ toString index ++ ": " ++ w.message
  | none => w.message

end OpenCaptions
