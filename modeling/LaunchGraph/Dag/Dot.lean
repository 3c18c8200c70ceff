import LaunchGraph.Dag

/-!
# Drawing the graph

The graph in the language of Graphviz: a line for each vertex with its label, state and stream,
then a line for each edge.
-/

namespace LaunchGraph.Dag

/-- A label inside double quotes: quotes and backslashes are escaped, and a line end becomes a
left-justified break. -/
def dotEscape (s : String) : String :=
  String.ofList (s.toList.flatMap fun c =>
    if c = '\x22' then ['\x5c', '\x22'] else if c = '\x5c' then ['\x5c', '\x5c']
    else if c = '\n' then ['\x5c', 'l'] else [c])

/-- The label of a vertex. -/
def dotLabel (v : Vertex) : String :=
  let stream := (v.element.stream.map StreamId.text).getD "-"
  s!"#{v.id} {v.element.label} [{v.element.state.name}] @{stream}"

/-- The graph as a drawing. -/
def toDot (d : Dag) : String :=
  "digraph \x7b\n" ++
    String.join (d.vertices.map fun v =>
      s!"    {v.id} [ label = \"" ++ dotEscape (dotLabel v) ++ "\" ]\n") ++
    String.join (d.edges.map fun e => s!"    {e.source} -> {e.target} [ ]\n") ++
    "\x7d\n"

end LaunchGraph.Dag
