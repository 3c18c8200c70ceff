import LaunchGraph.Dag
import LaunchGraph.Table

/-!
# The pool of streams

The bookkeeping of the streams and events a scheduler owns.  For each stream the pool knows which
vertices bound to it are not over, and which vertex was bound to it last.  A stream whose
vertices are all over is free, and the stream that became free first is reused first.  Where the
number of streams is limited, busy streams are shared in turn.
-/

namespace LaunchGraph

/-- What the pool knows of one stream. -/
structure Slot where
  /-- The vertices bound to the stream that are not over. -/
  active : List VertexId := []
  /-- The vertex bound last. -/
  tail : Option VertexId := none
  /-- How many vertices have been bound. -/
  boundTotal : Nat := 0
deriving DecidableEq, Repr

/-- The streams and events of a scheduler. -/
structure StreamPool where
  slots : Table StreamId Slot := .empty
  /-- The idle streams, in the order they became idle. -/
  free : List StreamId := []
  /-- The events that have been created and not released, in increasing order. -/
  events : Table EventId Unit := .empty
  maxStreams : Option Nat := none
  /-- How often a busy stream has been shared. -/
  shared : Nat := 0
deriving DecidableEq

namespace StreamPool

/-- The stream of `parent`, if nothing was bound to it after `parent`. -/
def continuation? (pool : StreamPool) (d : Dag) (parent : VertexId) : Option StreamId := do
  let s ← (← d.element? parent).stream
  let slot ← pool.slots.get? s
  if slot.tail = some parent then some s else none

/-- Whether a stream belongs to the pool and nothing on it is under way. -/
def isIdle (pool : StreamPool) (s : StreamId) : Bool :=
  (pool.slots.get? s).any fun slot => slot.active.isEmpty

/-- The first idle stream of the free list, and the pool without what was passed. -/
def takeIdle (pool : StreamPool) : Option StreamId × StreamPool :=
  match pool.free.dropWhile fun s => !pool.isIdle s with
  | [] => (none, { pool with free := [] })
  | s :: rest => (some s, { pool with free := rest })

/-- The limit is reached: no further streams are to be made. -/
def isFull (pool : StreamPool) : Bool :=
  pool.maxStreams.any fun max => 0 < max && max ≤ pool.slots.size

/-- The busy stream whose turn it is. -/
def nextShared? (pool : StreamPool) : Option StreamId :=
  pool.slots.keys[pool.shared % pool.slots.size]?

/-- The pool with a new stream. -/
def addStream (pool : StreamPool) (s : StreamId) : StreamPool :=
  { pool with slots := pool.slots.insert s {} }

/-- Binds `v` to stream `s`. -/
def bind (pool : StreamPool) (s : StreamId) (v : VertexId) : StreamPool :=
  let slot := (pool.slots.get? s).getD {}
  { pool with
    free := pool.free.filter (· ≠ s)
    slots := pool.slots.insert s ⟨slot.active.insert v, some v, slot.boundTotal + 1⟩ }

/-- Notes that `v` on stream `s` is over; the stream is free if nothing else is under way. -/
def release (pool : StreamPool) (s : StreamId) (v : VertexId) : StreamPool :=
  match pool.slots.get? s with
  | none => pool
  | some slot =>
      let active := slot.active.filter (· ≠ v)
      { pool with
        slots := pool.slots.modify s fun slot => { slot with active }
        free :=
          if active.isEmpty ∧ s ∉ pool.free then pool.free ++ [s] else pool.free }

/-- `release` on the stream of an element that has one. -/
def releaseElement (pool : StreamPool) (e : Element) (v : VertexId) : StreamPool :=
  match e.stream with
  | some s => pool.release s v
  | none => pool

/-- For each stream, how many vertices were bound to it and how many are under way. -/
def usage (pool : StreamPool) : List (StreamId × Nat × Nat) :=
  pool.slots.entries.map fun (s, slot) => (s, slot.boundTotal, slot.active.length)

end StreamPool

end LaunchGraph
