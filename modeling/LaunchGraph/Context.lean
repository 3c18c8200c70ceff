import LaunchGraph.DeviceArray
import LaunchGraph.IssueQueue
import LaunchGraph.Kernel
import LaunchGraph.Scheduler
import LaunchGraph.Summary

/-!
# The execution context

The place where work is submitted.  Registering an element appends it to the graph, binds it to a
stream and passes it to the issue queue; issuing a vertex makes its stream wait for its parents on
other streams, queues its work and records its completion.

Completions are noticed only when the context looks: it asks for the events of all running work
when new work is registered and when it is queried (`Context.observe`).
-/

namespace LaunchGraph

/-- The choices a context is made with. -/
structure ContextOptions where
  dependency : DependencyPolicy := .withConst
  issue : IssuePolicy := .eager
  batchSize : Nat := 8
  maxStreams : Option Nat := none
deriving DecidableEq, Repr

/-- The state of a scheduling session. -/
structure Context extends Scheduler where
  queue : IssueQueue
  /-- The vertices on the device that have not been seen to be over, in the order of issue. -/
  running : List VertexId := []
  arrays : Table BufferId DeviceArray := .empty
  kernels : Table KernelId Kernel := .empty
  /-- The number of the next kernel.  Every context counts its kernels from one; a number only
  tells the kernels of a context apart. -/
  nextKernel : KernelId := 1
deriving DecidableEq

namespace Context

/-- A context on a device. -/
def new (options : ContextOptions) (device : Device) : Context where
  dag := { policy := options.dependency }
  pool := { maxStreams := options.maxStreams }
  device
  queue := .new options.issue options.batchSize

/-- A step of the scheduler. -/
def onScheduler {α : Type} (x : Action Scheduler α) : Action Context α :=
  Action.zoom Context.toScheduler (fun s c => { c with toScheduler := s }) x

/-- A call to the device. -/
def onDevice {α : Type} (x : Action Device α) : Action Context α :=
  onScheduler (Scheduler.onDevice x)

/-- The element of a vertex, which has to exist. -/
def element (v : VertexId) : Action Context Element := onScheduler (Scheduler.element v)

/-! ### Failure and completion -/

/-- Marks a vertex as failed that has no work left on its stream, and fails its descendants that
have not been issued. A vertex that is over stays as it is. -/
def failVertex (c : Context) (v : VertexId) (cause : FailureCause) : Context :=
  match c.dag.element? v with
  | some e =>
      if e.isTerminal then c
      else
        let s := { c.toScheduler with
          dag := c.dag.modifyElement v fun e => e.fail cause
          pool := c.pool.releaseElement e v }
        { c with
          toScheduler := s.failDescendants v
          running := c.running.filter (· ≠ v) }
  | none => c

/-- Marks a vertex as finished, and releases its stream and its event. -/
def finishVertex (v : VertexId) : Action Context Unit := do
  let e ← element v
  Action.modify fun c => { c with running := c.running.filter (· ≠ v) }
  if e.isTerminal then pure ()
  else
    Action.modify fun c => { c with
      dag := c.dag.modifyElement v Element.finish
      pool := c.pool.releaseElement e v }
    match e.event with
    | some event => onScheduler (Scheduler.releaseEvent event)
    | none => pure ()

/-- What the device says of a running vertex. -/
def poll (v : VertexId) : Action Context (VertexId × EventStatus) := do
  match (← element v).event with
  | some event =>
      let status ← onDevice (Device.eventStatus event)
      pure (v, status)
  | none => pure (v, .complete)

/-- Why a vertex failed whose event failed: a parent that failed, if there is one. -/
def blame (d : Dag) (v : VertexId) : FailureCause :=
  match (d.parentVertices v).find? d.isFailed with
  | some parent => .parent parent
  | none => .launch "device reported a failed execution"

/-- Asks for the events of all running vertices, then takes note of those that are over: first of
the completions, then of the failures, each in the order of issue.  Parents are issued before
their children, so a child that failed with its parent is blamed on the parent. -/
def observe : Action Context Unit := do
  let running ← Action.gets Context.running
  let statuses ← Action.collect poll running
  Action.each finishVertex ((statuses.filter fun s => s.2 = .complete).map Prod.fst)
  Action.modify fun c =>
    ((statuses.filter fun s => s.2 = .failed).map Prod.fst).foldl
      (fun c v => c.failVertex v (blame c.dag v)) c

/-! ### Issue -/

/-- Hands a vertex to the device.  A launch that is refused fails the vertex and is no error here;
it is an error if the completion of a launch cannot be recorded, and then the stream stays busy,
since that launch is queued. -/
def issueVertex (v : VertexId) : Action Context Unit := do
  let e ← element v
  if e.isTerminal then pure ()
  else
    let stream ← onScheduler (Scheduler.boundStream v)
    match ← Action.attempt (onScheduler (Scheduler.synchronizeParents v)) with
    | .error (.parentFailed _ parent) | .error (.missingParentEvent _ parent) =>
        Action.modify fun c => c.failVertex v (.parent parent)
    | .error error => Action.modify fun c => c.failVertex v (.launch error.message)
    | .ok _ =>
        match ← Action.attempt (onDevice (Device.issue e stream)) with
        | .error error => Action.modify fun c => c.failVertex v (.launch error.message)
        | .ok () =>
            match ← Action.attempt (onScheduler (Scheduler.recordCompletion v)) with
            | .ok event =>
                Action.modify fun c => { c with
                  dag := c.dag.modifyElement v fun e => e.start event
                  running := c.running ++ [v] }
            | .error error =>
                Action.modify fun c =>
                  let dag := c.dag.modifyElement v fun e => e.fail (.launch error.message)
                  { c with toScheduler := { c.toScheduler with dag }.failDescendants v }
                Action.fail error

/-- Takes what the issue queue holds back. -/
def drainQueue : Action Context (List VertexId) := fun c =>
  let (vs, queue) := c.queue.drain
  (.ok vs, { c with queue })

/-- Passes a vertex to the issue queue, and takes what is to be issued now. -/
def enqueue (v : VertexId) (mustFlush : Bool) : Action Context (List VertexId) := fun c =>
  let (vs, queue) := c.queue.register v mustFlush
  (.ok vs, { c with queue })

/-! ### Operations -/

/-- Appends an element to the graph, binds it to a stream and passes it to the issue queue.  It is
an error if no stream can be had, and then the vertex has failed.  The host waits for its own
accesses. -/
def register (e : Element) : Action Context VertexId := do
  observe
  let v ← onScheduler (Scheduler.append e)
  match ← Action.attempt (onScheduler (Scheduler.assign v)) with
  | .error error =>
      Action.modify fun c => c.failVertex v (.launch error.message)
      Action.fail error
  | .ok stream =>
      let ready ← enqueue v e.work.blocksHost
      Action.each issueVertex ready
      if e.work.blocksHost then
        if (← element v).isTerminal then pure ()
        else
          onDevice (Device.syncStream stream)
          observe
      pure v

/-- Issues everything that is held back.  What failed on the device is noted first, so that its
descendants are not issued. -/
def flush : Action Context Unit := do
  observe
  let ready ← drainQueue
  Action.each issueVertex ready

/-- Issues everything, runs the device until it is idle, and notes every completion. -/
def synchronize : Action Context Unit := do
  flush
  onDevice Device.syncDevice
  observe

/-- What waiting for a vertex tells, given its element. -/
def verdict (v : VertexId) (e : Element) : Except Error Unit :=
  match e.state, e.failure with
  | .finished, _ => .ok ()
  | .failed, some (.parent parent) => .error (.parentFailed v parent)
  | .failed, some cause => .error (.launchFailed v cause.text)
  | .failed, none => .error (.launchFailed v "")
  | state, _ => .error (.device (.unsettled v state))

/-- Waits until a vertex is over, and fails if it failed. -/
def wait (v : VertexId) : Action Context Unit := do
  flush
  let e ← element v
  if e.isTerminal then pure ()
  else
    match e.stream with
    | some stream => onDevice (Device.syncStream stream)
    | none => pure ()
    observe
  let e ← element v
  Action.ofExcept (verdict v e)

/-- The state of a vertex. -/
def state (v : VertexId) : Action Context Lifecycle := do
  observe
  let e ← element v
  pure e.state

/-- Whether some vertex is on the device that has not been seen to be over. -/
def isActive : Action Context Bool := do
  observe
  Action.gets fun c => !c.running.isEmpty

/-- Whether some vertex is held back. -/
def hasPending (c : Context) : Bool := !c.queue.pending.isEmpty

/-- Waits for all work, then gives back every stream and event. -/
def cleanup : Action Context Unit := do
  if ← Action.gets fun c => c.hasPending || !c.running.isEmpty then synchronize
  onScheduler Scheduler.cleanup

/-- Makes an array known; an array that is known stays as it is. -/
def registerArray (c : Context) (a : DeviceArray) : Context :=
  { c with arrays := c.arrays.insertNew a.buffer a }

/-- Makes a kernel known; a kernel that is known stays as it is. -/
def registerKernel (c : Context) (k : Kernel) : Context :=
  { c with kernels := c.kernels.insertNew k.id k }

/-- Allocates an array and makes it known. -/
def allocateArray (type : ElementType) (length : Nat) : Action Context DeviceArray := do
  let a ← onDevice (DeviceArray.allocate type length)
  Action.modify fun c => c.registerArray a
  pure a

/-- A kernel with a number of its own, not made known yet. -/
def newKernel (name signature : String) : Action Context Kernel := do
  let id ← Action.gets Context.nextKernel
  let k ← Action.ofExcept (Kernel.new id name signature)
  Action.modify fun c => { c with nextKernel := id + 1 }
  pure k

/-- Makes a new kernel known. -/
def declareKernel (name signature : String) : Action Context KernelId := do
  let k ← newKernel name signature
  Action.modify fun c => { c with kernels := c.kernels.insert k.id k }
  pure k.id

/-- Launches a kernel that is known. -/
def launch (id : KernelId) (config : LaunchConfig) (values : List CallValue) :
    Action Context VertexId := do
  match ← Action.gets fun c => c.kernels.get? id with
  | none => Action.fail (.unknownKernel s!"#{id}")
  | some k =>
      let (e, k) ← Action.ofExcept (k.launch config values)
      Action.modify fun c => { c with kernels := c.kernels.insert id k }
      register e

/-- Lets the host read or write an array, which becomes known. -/
def accessArray (a : DeviceArray) (write : Bool) : Action Context VertexId := do
  Action.modify fun c => c.registerArray a
  register (.ofAccess a.buffer a.type write)

/-- A snapshot. -/
def summary (c : Context) : Summary :=
  let vertices := c.dag.vertices.map fun v => {
    vertex := v.id
    label := v.element.label
    stream := v.element.stream
    state := v.element.state
    parents := c.dag.parentVertices v.id : VertexSummary }
  { vertexCount := c.dag.vertices.length
    edgeCount := c.dag.edges.length
    frontier := c.dag.frontier
    streamCount := c.pool.slots.size
    active := c.running.length
    pending := c.queue.pending.length
    failed := (vertices.filter fun v => v.state = .failed).length
    vertices }

/-- Gives up the context: its streams and events are given back, and work is not waited for. -/
def drop (c : Context) : Context := ((onScheduler Scheduler.cleanup).run c).2

end Context

end LaunchGraph
