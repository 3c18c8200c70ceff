/-!
# Identities

Everything the scheduler refers to is numbered: device buffers, streams and events by the
device, kernels by the context, vertices and edges by their position in the graph.
-/

namespace LaunchGraph

/-- An allocated device buffer. Two arguments alias when they name the same buffer. -/
abbrev BufferId := Nat

/-- A hardware queue. Work on one stream runs in order. -/
abbrev StreamId := Nat

/-- A completion marker, recorded on one stream and waited on by others. -/
abbrev EventId := Nat

/-- A kernel known to a context. -/
abbrev KernelId := Nat

/-- A position in the list of vertices. -/
abbrev VertexId := Nat

/-- A position in the list of edges. -/
abbrev EdgeId := Nat

def BufferId.text (b : BufferId) : String := s!"buf{b}"

def StreamId.text (s : StreamId) : String := s!"stream{s}"

def EventId.text (e : EventId) : String := s!"event{e}"

/-- A list of numbers in brackets, parted by commas. -/
def numbersText (ns : List Nat) : String := "[" ++ ", ".intercalate (ns.map toString) ++ "]"

end LaunchGraph
