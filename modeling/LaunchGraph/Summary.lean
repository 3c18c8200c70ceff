import LaunchGraph.Element

/-!
# Summaries

A snapshot of a context: how large it is, and where each vertex ended up.
-/

namespace LaunchGraph

/-- Where one vertex ended up. -/
structure VertexSummary where
  vertex : VertexId
  label : String
  stream : Option StreamId
  state : Lifecycle
  parents : List VertexId
deriving DecidableEq, Repr

/-- A snapshot of a context. -/
structure Summary where
  vertexCount : Nat
  edgeCount : Nat
  frontier : List VertexId
  streamCount : Nat
  /-- How many vertices are on the device. -/
  active : Nat
  /-- How many vertices are held back. -/
  pending : Nat
  failed : Nat
  vertices : List VertexSummary
deriving DecidableEq, Repr

/-- The text with blanks behind it, up to a width. -/
def padRight (width : Nat) (s : String) : String :=
  s ++ String.ofList (List.replicate (width - s.length) ' ')

/-- The text with blanks in front of it, up to a width. -/
def padLeft (width : Nat) (s : String) : String :=
  String.ofList (List.replicate (width - s.length) ' ') ++ s

def VertexSummary.text (v : VertexSummary) : String :=
  let stream := (v.stream.map StreamId.text).getD "-"
  "  #" ++ padRight 3 (toString v.vertex) ++ " " ++ padRight 16 v.label ++ " " ++
    padRight 9 stream ++ " " ++ v.state.name ++
    (if v.parents.isEmpty then "" else "  after " ++ numbersText v.parents)

namespace Summary

/-- How many different streams vertices were bound to. -/
def streamsUsed (s : Summary) : Nat := (s.vertices.filterMap VertexSummary.stream).eraseDups.length

def text (s : Summary) : String :=
  s!"vertices: {s.vertexCount}  edges: {s.edgeCount}  streams: {s.streamCount}  " ++
    s!"failed: {s.failed}\nfrontier: {numbersText s.frontier}\n" ++
    String.join (s.vertices.map fun v => v.text ++ "\n")

end Summary

end LaunchGraph
