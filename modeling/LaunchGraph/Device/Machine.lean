import LaunchGraph.Action
import LaunchGraph.Table

/-!
# The simulated device

Every stream is a queue of operations: wait for an event, run a launch, record an event.  Nothing
runs on its own; `Machine.advance` runs the first operation of one stream, unless that waits for
an event that is still pending, and everything else that makes progress is a sequence of these.

A launch that fails poisons its stream.  On a poisoned stream launches fail, and the events
recorded there fail; waiting for a failed event poisons the waiting stream as well.  A stream
recovers when its queue runs empty.

The operations that have run are kept in `history`, oldest first, each with the stream it ran on
and whether it left the stream poisoned.
-/

namespace LaunchGraph

/-- What is known of an event. -/
inductive EventStatus where
  /-- Recorded, and the work before it is not complete yet. -/
  | pending
  /-- Never recorded, or the work before it is complete. -/
  | complete
  /-- The work before it failed. -/
  | failed
deriving DecidableEq, Repr

def EventStatus.name : EventStatus → String
  | .pending => "Pending"
  | .complete => "Complete"
  | .failed => "Failed"

/-- A launch as the device sees it. -/
structure Job where
  /-- The vertex it was issued for, if any. -/
  vertex : Option VertexId
  label : String
  /-- Whether it will fail when it runs. -/
  fails : Bool
deriving DecidableEq, Repr

/-- One operation of a stream. -/
inductive Op where
  | wait (event : EventId)
  | launch (job : Job)
  | record (event : EventId)
deriving DecidableEq, Repr

/-- A stream of the device. -/
structure Lane where
  /-- The operations that have not run yet, first one first. -/
  ops : List Op := []
  poisoned : Bool := false
deriving DecidableEq, Repr, Inhabited

/-- An operation that has run. -/
structure Retired where
  stream : StreamId
  op : Op
  /-- Whether the stream was poisoned when the operation had run. -/
  failed : Bool
deriving DecidableEq, Repr

/-- The label of a launch that ran without failing. -/
def Retired.executed? (r : Retired) : Option String :=
  match r.op, r.failed with
  | .launch job, false => some job.label
  | _, _ => none

/-- The device. -/
structure Machine where
  nextStream : StreamId := 0
  nextEvent : EventId := 0
  nextBuffer : BufferId := 0
  streams : Table StreamId Lane := .empty
  events : Table EventId EventStatus := .empty
  /-- The buffers that are allocated. -/
  buffers : List BufferId := []
  /-- The labels whose launches are refused. -/
  rejected : List String := []
  /-- The labels whose launches are accepted, and fail when they run. -/
  failing : List String := []
  /-- How many streams there can be at once. -/
  streamLimit : Option Nat := none
  history : List Retired := []
deriving DecidableEq

namespace Machine

/-- The labels of the launches that ran without failing, in order. -/
def executed (m : Machine) : List String := m.history.filterMap Retired.executed?

/-- How many operations are queued on some streams. -/
def queued : List Lane → Nat
  | [] => 0
  | lane :: rest => lane.ops.length + queued rest

/-- How many operations have not run yet. -/
def pendingOperations (m : Machine) : Nat := queued m.streams.values

/-! ### Progress -/

/-- Whether the stream is poisoned once its first operation `op` has run; nothing if `op` has to
wait.  An event that is unknown does not block. -/
def outcome? (m : Machine) (poisoned : Bool) : Op → Option Bool
  | .wait e =>
      match m.events.get? e with
      | some .pending => none
      | some .failed => some true
      | some .complete | none => some poisoned
  | .launch job => some (poisoned || job.fails)
  | .record _ => some poisoned

/-- The device once `op`, the first operation of stream `s`, has run, with `rest` behind it. -/
def retire (m : Machine) (s : StreamId) (op : Op) (rest : List Op) (failed : Bool) : Machine :=
  { m with
    streams := m.streams.modify s fun _ => ⟨rest, failed && !rest.isEmpty⟩
    events := match op with
      | .record e => m.events.insert e (if failed then .failed else .complete)
      | _ => m.events
    history := m.history ++ [⟨s, op, failed⟩] }

/-- Runs the first operation of stream `s`, if there is one and it need not wait. -/
def advance (m : Machine) (s : StreamId) : Option Machine :=
  match m.streams.get? s with
  | some ⟨op :: rest, poisoned⟩ => (m.outcome? poisoned op).map (m.retire s op rest)
  | _ => none

/-- Advances each of the streams once, and counts those that did. -/
def stepOver (m : Machine) : List StreamId → Nat × Machine
  | [] => (0, m)
  | s :: rest =>
      match m.advance s with
      | some m' =>
          let (n, m'') := m'.stepOver rest
          (n + 1, m'')
      | none => m.stepOver rest

/-- Advances every stream once, in order, and counts those that did. -/
def step (m : Machine) : Nat × Machine := m.stepOver m.streams.keys

/-- Steps until nothing advances, but at most `bound` times. -/
def settleWithin (m : Machine) : Nat → Machine
  | 0 => m
  | bound + 1 =>
      match m.step with
      | (0, _) => m
      | (_, m') => m'.settleWithin bound

/-- Steps until nothing advances.  Every step that counts something leaves fewer operations, so
their number bounds the steps. -/
def settle (m : Machine) : Machine := m.settleWithin m.pendingOperations

/-- Steps until stream `s` is empty, but at most `bound` times. -/
def drainWithin (s : StreamId) : Nat → Action Machine Unit
  | 0 => fun m =>
      match m.streams.get? s with
      | none => (.error (.error (.unknownStream s)), m)
      | some lane =>
          if lane.ops.isEmpty then (.ok (), m)
          else (.error (.error (.device (.streamStalled s lane.ops.length))), m)
  | bound + 1 => fun m =>
      match m.streams.get? s with
      | none => (.error (.error (.unknownStream s)), m)
      | some lane =>
          if lane.ops.isEmpty then (.ok (), m)
          else
            match m.step with
            | (0, _) => (.error (.error (.device (.streamStalled s lane.ops.length))), m)
            | (_, m') => drainWithin s bound m'

/-! ### Calls -/

/-- Makes a new stream, unless the limit is reached. -/
def createStream : Action Machine StreamId := fun m =>
  if m.streamLimit.any (· ≤ m.streams.size) then
    (.error (.error (.device (.outOfStreams m.streams.size))), m)
  else
    (.ok m.nextStream,
      { m with nextStream := m.nextStream + 1, streams := m.streams.insert m.nextStream {} })

/-- Removes a stream, together with what is queued on it. -/
def destroyStream (s : StreamId) : Action Machine Unit := fun m =>
  if m.streams.contains s then (.ok (), { m with streams := m.streams.erase s })
  else (.error (.error (.unknownStream s)), m)

/-- Makes a new event, which counts as complete until it is recorded. -/
def createEvent : Action Machine EventId := fun m =>
  (.ok m.nextEvent,
    { m with nextEvent := m.nextEvent + 1, events := m.events.insert m.nextEvent .complete })

/-- Forgets an event. -/
def destroyEvent (e : EventId) : Action Machine Unit := fun m =>
  (.ok (), { m with events := m.events.erase e })

/-- The device with `op` queued on stream `s`. -/
def enqueue (m : Machine) (s : StreamId) (op : Op) : Machine :=
  { m with streams := m.streams.modify s fun l => { l with ops := l.ops ++ [op] } }

/-- Queues an operation on a stream. -/
def push (s : StreamId) (op : Op) : Action Machine Unit := fun m =>
  if m.streams.contains s then (.ok (), m.enqueue s op)
  else (.error (.error (.unknownStream s)), m)

/-- Queues the recording of an event, which is pending from now on. -/
def recordEvent (e : EventId) (s : StreamId) : Action Machine Unit := do
  if !(← Action.gets fun m => m.events.contains e) then
    Action.fail (.device (.recordOfUnknown e))
  push s (.record e)
  Action.modify fun m => { m with events := m.events.insert e .pending }

/-- Makes the work to come on a stream wait for an event. -/
def waitEvent (s : StreamId) (e : EventId) : Action Machine Unit := push s (.wait e)

/-- The first buffer among the arguments that is not allocated. -/
def missingBuffer? (m : Machine) (arguments : List Argument) : Option BufferId :=
  (arguments.filterMap Argument.buffer?).find? fun b => !m.buffers.contains b

/-- Queues the work of an element on a stream. -/
def issue (element : Element) (s : StreamId) : Action Machine Unit := do
  let m ← Action.gets id
  if m.rejected.contains element.label then
    Action.fail (.device (.rejected element.label))
  match m.missingBuffer? element.arguments with
  | some b => Action.fail (.invalidBuffer b)
  | none => push s (.launch ⟨element.id, element.label, m.failing.contains element.label⟩)

def eventStatus (e : EventId) : Action Machine EventStatus := fun m =>
  match m.events.get? e with
  | some status => (.ok status, m)
  | none => (.error (.error (.device (.statusOfUnknown e))), m)

/-- Runs the device until stream `s` is empty. -/
def syncStream (s : StreamId) : Action Machine Unit := fun m =>
  drainWithin s m.pendingOperations m

/-- Runs the device until nothing advances; it is an error if work is left then. -/
def syncDevice : Action Machine Unit := fun m =>
  let m := m.settle
  if m.pendingOperations = 0 then (.ok (), m)
  else (.error (.error (.device (.stalled m.pendingOperations))), m)

/-- Makes a new buffer. -/
def allocate : Action Machine BufferId := fun m =>
  (.ok m.nextBuffer,
    { m with nextBuffer := m.nextBuffer + 1, buffers := m.buffers ++ [m.nextBuffer] })

def free (b : BufferId) : Action Machine Unit := fun m =>
  if m.buffers.contains b then (.ok (), { m with buffers := m.buffers.erase b })
  else (.error (.error (.invalidBuffer b)), m)

/-! ### Failures to come -/

/-- Refuses the launches with a label from now on. -/
def rejectLaunches (m : Machine) (label : String) : Machine :=
  { m with rejected := m.rejected.insert label }

/-- Lets the launches with a label that are accepted from now on fail when they run. -/
def failExecutions (m : Machine) (label : String) : Machine :=
  { m with failing := m.failing.insert label }

/-- Refuses to make streams while there are `limit` of them. -/
def limitStreams (m : Machine) (limit : Nat) : Machine := { m with streamLimit := some limit }

end Machine

end LaunchGraph
