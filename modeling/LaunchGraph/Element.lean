import LaunchGraph.Policy

/-!
# Elements

An element is one unit of work with its arguments: the launch of a kernel, or an access of the
host to a device array.  It goes through a lifecycle, and it keeps the list of its *active*
accesses, those that later work may still have to wait for.

`Element.dependencies` and `Element.supersededBy` say what happens when a later element comes:
which active accesses the later one has to wait for, and what stays active afterwards.
-/

namespace LaunchGraph

/-- Where an element stands. `finished` and `failed` are final. -/
inductive Lifecycle where
  /-- Not bound to a stream yet. -/
  | created
  /-- Bound to a stream, not handed to the device yet. -/
  | scheduled
  /-- Handed to the device. -/
  | running
  | finished
  | failed
deriving DecidableEq, Repr, Inhabited

namespace Lifecycle

def isTerminal : Lifecycle → Bool
  | .finished | .failed => true
  | _ => false

/-- Handed to the device, or beyond that. -/
def isStarted : Lifecycle → Bool
  | .running | .finished | .failed => true
  | _ => false

def name : Lifecycle → String
  | .created => "Created"
  | .scheduled => "Scheduled"
  | .running => "Running"
  | .finished => "Finished"
  | .failed => "Failed"

end Lifecycle

/-- Why an element failed. -/
inductive FailureCause where
  /-- Its own launch was refused, or failed on the device. -/
  | launch (reason : String)
  /-- A vertex it depends on failed. -/
  | parent (vertex : VertexId)
deriving DecidableEq, Repr

def FailureCause.text : FailureCause → String
  | .launch reason => "launch failed: " ++ reason
  | .parent v => s!"parent vertex {v} failed"

/-- The shape of a kernel launch. -/
structure LaunchConfig where
  grid : Nat := 1
  block : Nat := 1
  sharedBytes : Nat := 0
deriving DecidableEq, Repr, Inhabited

/-- The work an element stands for. -/
inductive Work where
  | launch (kernel : KernelId) (name : String) (config : LaunchConfig)
  /-- The host reads or writes a device array, and blocks until that is done. -/
  | access (buffer : BufferId) (write : Bool)
deriving DecidableEq, Repr

namespace Work

/-- The name the device knows the work by. -/
def label : Work → String
  | .launch _ name _ => name
  | .access _ true => "array-write"
  | .access _ false => "array-read"

/-- Whether the host waits for the work. -/
def blocksHost : Work → Bool
  | .launch .. => false
  | .access .. => true

end Work

/-- Adds an array argument to merged accesses: an access to the same buffer absorbs it, and
stays read only when both are. -/
def mergeAccess (accesses : List Argument) (a : Argument) : List Argument :=
  match accesses with
  | [] => [a]
  | seen :: rest =>
      if seen.aliases a then seen.withConst (seen.isConst && a.isConst) :: rest
      else seen :: mergeAccess rest a

/-- One access per buffer among the array arguments, in order of first occurrence. -/
def mergeAccesses (arguments : List Argument) : List Argument :=
  (arguments.filter Argument.isArray).foldl mergeAccess []

/-- One unit of work. -/
structure Element where
  work : Work
  arguments : List Argument
  /-- The accesses later work may still have to wait for. -/
  active : List Argument
  /-- The vertex, once the element is part of a graph. -/
  id : Option VertexId
  state : Lifecycle
  stream : Option StreamId
  /-- The event that marks its completion on the device. -/
  event : Option EventId
  failure : Option FailureCause
deriving DecidableEq, Repr

namespace Element

/-- A new element. All its accesses are active. -/
def new (work : Work) (arguments : List Argument) : Element where
  work
  arguments
  active := mergeAccesses arguments
  id := none
  state := .created
  stream := none
  event := none
  failure := none

/-- An access of the host to a whole array. -/
def ofAccess (buffer : BufferId) (type : ElementType) (write : Bool) : Element :=
  new (.access buffer write) [.array type buffer !write]

def label (e : Element) : String := e.work.label

/-- The accesses of the element, one per buffer. -/
def accesses (e : Element) : List Argument := mergeAccesses e.arguments

def isTerminal (e : Element) : Bool := e.state.isTerminal

def isStarted (e : Element) : Bool := e.state.isStarted

def isFailed (e : Element) : Bool := e.state == .failed

/-- The first of some later accesses that conflicts with `a`. -/
def conflicting? (p : DependencyPolicy) (a : Argument) (later : List Argument) : Option Argument :=
  later.find? (p.conflicts a)

/-- The active accesses that `later` has to wait for, in order. -/
def dependencies (p : DependencyPolicy) (e later : Element) : List Argument :=
  let accesses := later.accesses
  e.active.filter fun a => (conflicting? p a accesses).isSome

/-- The element once `later` has come: the accesses that `later` supersedes are not active any
more. -/
def supersededBy (p : DependencyPolicy) (e later : Element) : Element :=
  let accesses := later.accesses
  { e with active := e.active.filter fun a =>
      match conflicting? p a accesses with
      | some b => !p.supersedes a b
      | none => true }

/-- Bound to a stream; a new element is scheduled by that. -/
def bind (e : Element) (s : StreamId) : Element :=
  { e with
    stream := some s
    state := match e.state with
      | .created => .scheduled
      | state => state }

/-- Handed to the device, its completion marked by `event`. -/
def start (e : Element) (event : EventId) : Element :=
  { e with event := some event, state := .running }

/-- Seen to be complete; its event is not needed any more. -/
def finish (e : Element) : Element := { e with state := .finished, event := none }

def fail (e : Element) (cause : FailureCause) : Element :=
  { e with state := .failed, failure := some cause }

end Element

end LaunchGraph
