import LaunchGraph.Device
import LaunchGraph.StreamPool

/-!
# The scheduler

The graph, the pool of streams and the device together, with the steps that a vertex takes on its
way to the device and back: it is assigned a stream, its stream is made to wait for its parents,
its completion is recorded, and in the end its stream and its event are released.

A failure takes with it the descendants that have not been handed to the device
(`Scheduler.failDescendants`).
-/

namespace LaunchGraph

/-- The graph, the pool of streams and the device. -/
structure Scheduler where
  dag : Dag
  pool : StreamPool := {}
  device : Device := {}
deriving DecidableEq

namespace Scheduler

/-- A call to the device. -/
def onDevice {α : Type} (x : Action Device α) : Action Scheduler α :=
  Action.zoom Scheduler.device (fun d s => { s with device := d }) x

def modifyDag (f : Dag → Dag) : Action Scheduler Unit :=
  Action.modify fun s => { s with dag := f s.dag }

def modifyPool (f : StreamPool → StreamPool) : Action Scheduler Unit :=
  Action.modify fun s => { s with pool := f s.pool }

/-- The element of a vertex, which has to exist. -/
def element (v : VertexId) : Action Scheduler Element := do
  let e? ← Action.gets fun s => s.dag.element? v
  Action.require e? (.noVertex v)

/-- Appends an element to the graph. -/
def append (element : Element) : Action Scheduler VertexId := fun s =>
  match s.dag.append element with
  | .ok d => (.ok s.dag.vertices.length, { s with dag := d })
  | .error b => (.error (.breach b), s)

/-! ### Streams -/

/-- Makes a new stream for the pool. -/
def createStream : Action Scheduler StreamId := do
  let s ← onDevice Device.createStream
  modifyPool fun pool => pool.addStream s
  pure s

/-- An idle stream; else a new one, or a busy one where the limit is reached. -/
def acquire : Action Scheduler StreamId := do
  let (idle?, pool) ← Action.gets fun s => s.pool.takeIdle
  modifyPool fun _ => pool
  match idle? with
  | some s => pure s
  | none =>
      if pool.isFull then
        match pool.nextShared? with
        | some s =>
            modifyPool fun pool => { pool with shared := pool.shared + 1 }
            pure s
        | none => Action.fail (.device .emptyPool)
      else createStream

/-- Chooses a stream for a vertex and binds it.  A vertex with exactly one parent that is not over
continues on the stream of that parent, as long as nothing else was bound there after it. -/
def assign (v : VertexId) : Action Scheduler StreamId := do
  let _ ← element v
  let s ← Action.gets id
  let continued? :=
    match (s.dag.parentVertices v).filter fun p => !s.dag.isTerminal p with
    | [parent] => s.pool.continuation? s.dag parent
    | _ => none
  let stream ←
    match continued? with
    | some stream => pure stream
    | none => acquire
  modifyPool fun pool => pool.bind stream v
  modifyDag fun d => d.modifyElement v fun e => e.bind stream
  pure stream

/-- The stream of a vertex, which has to be bound. -/
def boundStream (v : VertexId) : Action Scheduler StreamId := do
  match (← element v).stream with
  | some s => pure s
  | none => Action.fail (.unboundVertex v)

/-! ### Order -/

/-- The events that work of `v` on `stream` has to wait for, in the order of `parents`: those of
the parents that are not over and run on other streams.  A parent that failed, or that has no
event to wait for, is an error. -/
def waitsFor (d : Dag) (v : VertexId) (stream : StreamId) :
    List VertexId → Except Error (List EventId)
  | [] => .ok []
  | parent :: rest =>
      match d.element? parent with
      | none => waitsFor d v stream rest
      | some e =>
          if e.isFailed then .error (.parentFailed v parent)
          else if e.isTerminal || e.stream == some stream then waitsFor d v stream rest
          else
            match e.event with
            | none => .error (.missingParentEvent v parent)
            | some event =>
                match waitsFor d v stream rest with
                | .ok events => .ok (event :: events)
                | .error e => .error e

/-- Makes the stream of `v` wait for the parents of `v` on other streams, and counts the waits.
Nothing is queued if a parent cannot be waited for. -/
def synchronizeParents (v : VertexId) : Action Scheduler Nat := do
  let stream ← boundStream v
  let d ← Action.gets Scheduler.dag
  let events ← Action.ofExcept (waitsFor d v stream (d.parentVertices v))
  Action.each (fun e => onDevice (Device.waitEvent stream e)) events
  pure events.length

/-- Records the completion of `v` on its stream. -/
def recordCompletion (v : VertexId) : Action Scheduler EventId := do
  let stream ← boundStream v
  let event ← onDevice Device.createEvent
  modifyPool fun pool => { pool with events := pool.events.insert event () }
  onDevice (Device.recordEvent event stream)
  pure event

/-! ### Release -/

/-- Gives back an event that nothing can wait for any more. -/
def releaseEvent (event : EventId) : Action Scheduler Unit := do
  if ← Action.gets fun s => s.pool.events.contains event then
    modifyPool fun pool => { pool with events := pool.events.erase event }
    onDevice (Device.destroyEvent event)

/-- Tries all the calls, and returns the first error. -/
def tryAll (calls : List (Action Device Unit)) : Action Scheduler (Option Error) :=
  match calls with
  | [] => pure none
  | call :: rest => do
      let result ← Action.attempt (onDevice call)
      let later ← tryAll rest
      match result with
      | .error e => pure (some e)
      | .ok () => pure later

/-- Gives back every event, in order, and every stream, in order.  All are given up even when
the device refuses some, and then the first refusal is the error. -/
def cleanup : Action Scheduler Unit := do
  let pool ← Action.gets Scheduler.pool
  modifyPool fun pool => { pool with slots := .empty, free := [], events := .empty, shared := 0 }
  let error? ← tryAll (pool.events.keys.map Device.destroyEvent ++
    pool.slots.keys.map Device.destroyStream)
  match error? with
  | some e => Action.fail e
  | none => pure ()

/-! ### Failure -/

/-- Fails the vertices of a list that have not been handed to the device, on account of `parent`,
and returns them. -/
def failUnissued (parent : VertexId) : List VertexId → Scheduler → List VertexId × Scheduler
  | [], s => ([], s)
  | child :: rest, s =>
      match s.dag.element? child with
      | some e =>
          if e.isStarted then failUnissued parent rest s
          else
            let s := { s with
              dag := s.dag.modifyElement child fun e => e.fail (.parent parent)
              pool := s.pool.releaseElement e child }
            let (failed, s) := failUnissued parent rest s
            (child :: failed, s)
      | none => failUnissued parent rest s

/-- Walks from the vertices of `queue` to their children that have not been handed to the device,
failing these on the way, for at most `bound` vertices. -/
def failFrom (s : Scheduler) : (bound : Nat) → (queue : List VertexId) → Scheduler
  | 0, _ => s
  | _ + 1, [] => s
  | bound + 1, parent :: queue =>
      let (failed, s) := failUnissued parent (s.dag.childVertices parent) s
      failFrom s bound (queue ++ failed)

/-- Fails the descendants of `v` that can be reached through vertices that have not been handed to
the device; those that have been wait for their own events.  The walk goes breadth first, and
meets no vertex twice, so the number of vertices bounds it. -/
def failDescendants (s : Scheduler) (v : VertexId) : Scheduler :=
  s.failFrom s.dag.vertices.length [v]

end Scheduler

end LaunchGraph
