import LaunchGraph.Action

/-!
# The dependency graph

Vertices and edges are appended and never removed.  A new vertex is connected to those vertices
of the *frontier* that it depends on; the frontier holds the vertices that later work may still
have to wait for, oldest first.

The frontier is rebuilt by an append only.  A vertex that finishes in between stays in it until
the next append, and takes part in that append.
-/

namespace LaunchGraph

/-- The target has to wait for the source. -/
structure Edge where
  id : EdgeId
  source : VertexId
  target : VertexId
  /-- The accesses of the source that the target waits for. -/
  dependencies : List Argument
deriving DecidableEq, Repr

/-- One computation in the graph. -/
structure Vertex where
  id : VertexId
  element : Element
  /-- The vertex waits for no other. -/
  isStart : Bool := true
  /-- The edges that end here. -/
  parents : List EdgeId := []
  /-- The edges that start here. -/
  children : List EdgeId := []
deriving DecidableEq, Repr

namespace Vertex

/-- Later work may still have to wait for this vertex. -/
def isFrontier (v : Vertex) : Bool := !v.element.active.isEmpty && !v.element.isTerminal

def text (v : Vertex) : String :=
  s!"V(id={v.id}, label={v.element.label}, isStart={v.isStart}, isFrontier={v.isFrontier}, " ++
    s!"parents={numbersText v.parents}, children={numbersText v.children})"

end Vertex

def Edge.text (e : Edge) : String := s!"E(id={e.id}, start={e.source}, end={e.target})"

/-- The graph of all computations. -/
structure Dag where
  policy : DependencyPolicy
  vertices : List Vertex := []
  edges : List Edge := []
  /-- The vertices that later work may still have to wait for, as of the last append. -/
  frontier : List VertexId := []
deriving DecidableEq, Repr

namespace Dag

def element? (d : Dag) (v : VertexId) : Option Element := d.vertices[v]?.map Vertex.element

def modifyVertex (d : Dag) (v : VertexId) (f : Vertex → Vertex) : Dag :=
  { d with vertices := d.vertices.modify v f }

def modifyElement (d : Dag) (v : VertexId) (f : Element → Element) : Dag :=
  d.modifyVertex v fun x => { x with element := f x.element }

/-- The vertices that `v` waits for, in the order of the edges. -/
def parentVertices (d : Dag) (v : VertexId) : List VertexId :=
  match d.vertices[v]? with
  | some x => x.parents.filterMap fun e => d.edges[e]?.map Edge.source
  | none => []

/-- The vertices that wait for `v`, in the order of the edges. -/
def childVertices (d : Dag) (v : VertexId) : List VertexId :=
  match d.vertices[v]? with
  | some x => x.children.filterMap fun e => d.edges[e]?.map Edge.target
  | none => []

/-- Whether `v` is a vertex in a final state. -/
def isTerminal (d : Dag) (v : VertexId) : Bool := (d.element? v).any Element.isTerminal

/-- Whether `v` is a vertex that failed. -/
def isFailed (d : Dag) (v : VertexId) : Bool := (d.element? v).any Element.isFailed

/-- Not started, and everything it waits for is over. -/
def isExecutable (d : Dag) (v : VertexId) : Bool :=
  (d.element? v).any (fun e => !e.isStarted) && (d.parentVertices v).all d.isTerminal

/-- Whether `v` is a vertex that later work may still have to wait for. -/
def isFrontier (d : Dag) (v : VertexId) : Bool := d.vertices[v]?.any Vertex.isFrontier

/-- The graph with one more edge, which both its ends know of. -/
def insertEdge (d : Dag) (source target : VertexId) (dependencies : List Argument) : Dag :=
  let edge : Edge := ⟨d.edges.length, source, target, dependencies⟩
  { d with
    edges := d.edges ++ [edge]
    vertices := (d.vertices.modify source fun x =>
        { x with children := x.children ++ [edge.id] }).modify target fun x =>
      { x with parents := x.parents ++ [edge.id], isStart := false } }

/-- Adds an edge from a vertex of `frontier` to the newest vertex. -/
def addEdge (d : Dag) (frontier : List VertexId) (source target : VertexId)
    (dependencies : List Argument) : Except Breach Dag :=
  if ¬ source < target then .error (.edgeNotIncreasing source target)
  else if source ∉ frontier then .error (.edgeOutsideFrontier source target)
  else if source ∈ d.parentVertices target then .error (.duplicateEdge source target)
  else .ok (d.insertEdge source target dependencies)

/-- Settles what the newest vertex, `target`, means for vertex `source` of the frontier: an edge
if it depends on it, and a smaller set of active accesses if it supersedes some. -/
def connect (frontier : List VertexId) (target : VertexId) (d : Dag) (source : VertexId) :
    Except Breach Dag :=
  match d.element? source, d.element? target with
  | some earlier, some later =>
      let dependencies := earlier.dependencies d.policy later
      let d := d.modifyElement source fun e => e.supersededBy d.policy later
      if dependencies.isEmpty then .ok d else d.addEdge frontier source target dependencies
  | none, _ => .error (.noVertex source)
  | _, none => .error (.noVertex target)

/-- Connects the newest vertex with each vertex of a list, in order. -/
def connectAll (frontier : List VertexId) (target : VertexId) :
    List VertexId → Dag → Except Breach Dag
  | [], d => .ok d
  | source :: rest, d =>
      match d.connect frontier target source with
      | .ok d => connectAll frontier target rest d
      | .error b => .error b

/-- The graph with one more vertex, which is not connected yet. -/
def push (d : Dag) (element : Element) : Dag :=
  let id := d.vertices.length
  { d with vertices := d.vertices ++ [{ id, element := { element with id := some id } }] }

/-- Appends an element that is not part of a graph yet: it is connected with the frontier, oldest
vertex first, and the frontier is rebuilt. -/
def append (d : Dag) (element : Element) : Except Breach Dag :=
  let target := d.vertices.length
  if element.id.isSome then .error .registeredTwice
  else
    match connectAll d.frontier target d.frontier (d.push element) with
    | .ok e => .ok { e with frontier := (d.frontier ++ [target]).filter e.isFrontier }
    | .error b => .error b

def text (d : Dag) : String :=
  s!"DAG(|V|={d.vertices.length}, |E|={d.edges.length}\n" ++
    String.join (d.vertices.map fun v => "  " ++ v.text ++ "\n") ++ ")"

end Dag

end LaunchGraph
