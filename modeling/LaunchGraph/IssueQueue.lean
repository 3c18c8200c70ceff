import LaunchGraph.Policy

/-!
# The issue queue

Holds the vertices that have been scheduled and not yet handed to the device.  Under eager issue
it is always empty.
-/

namespace LaunchGraph

/-- The vertices that are held back, oldest first. -/
structure IssueQueue where
  policy : IssuePolicy
  /-- How many vertices make a batch; at least one. -/
  batchSize : Nat
  pending : List VertexId := []
deriving DecidableEq, Repr

namespace IssueQueue

def new (policy : IssuePolicy) (batchSize : Nat) : IssueQueue where
  policy
  batchSize := max batchSize 1

/-- What is held back, and the empty queue. -/
def drain (q : IssueQueue) : List VertexId × IssueQueue := (q.pending, { q with pending := [] })

/-- Takes in a vertex, and returns those to be issued now.  The host blocks on a vertex that must
be flushed. -/
def register (q : IssueQueue) (v : VertexId) (mustFlush : Bool) : List VertexId × IssueQueue :=
  match q.policy with
  | .eager => ([v], q)
  | .deferred =>
      let q := { q with pending := q.pending ++ [v] }
      if mustFlush || q.batchSize ≤ q.pending.length then q.drain else ([], q)

end IssueQueue

end LaunchGraph
