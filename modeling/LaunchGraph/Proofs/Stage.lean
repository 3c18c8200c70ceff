import Mathlib.Logic.Relation
import LaunchGraph.Context.Command
import LaunchGraph.Proofs.Streams

/-!
# Stages and moves

An operation of a context passes through states that no caller sees.  A *stage* is such a state:
a context, the vertices that have been taken from the issue queue and are still to be issued, and
a record of what has been handed to the device so far.  `Stage.Move` lists everything that can
happen to a stage, one small change each, with what is known when it happens:

* the device advances (`advance`), or something is changed that no work depends on (`adjust`);
* a running vertex is seen to be complete (`finish`) or, after all that was issued before it, to
  have failed (`crash`), and failure spreads to a vertex that has not been issued (`cascade`);
* an element becomes a vertex with a stream (`enlist`) or without one (`refuse`), and what is held
  back becomes due (`drain`);
* the first vertex that is due has failed already (`skip`), has a failed parent (`shun`), is
  refused by the device (`reject`), or is handed to it (`issue`);
* all streams and events are given back (`cleanup`).

What the settings of the device are changed to from outside is a `Stage.Disturbance`.

`Stage.Rules` restrict, given the stage, the elements that are admitted and the vertices that are
handed to the device.  Work is issued only where every running vertex has a pending event
(`Stage.Observed`): the context has looked at the device, and the device has not moved since.
-/

namespace LaunchGraph

/-- An element that is not part of a graph and has been nowhere near a device. -/
structure Element.Unused (e : Element) : Prop where
  id : e.id = none
  state : e.state = .created
  stream : e.stream = none
  event : e.event = none
  failure : e.failure = none

/-- Work of a vertex that was handed to the device: the stream it was queued on, and the event
that marks its completion. -/
structure Ticket where
  vertex : VertexId
  stream : StreamId
  event : EventId
deriving DecidableEq, Repr

/-- A context in the middle of an operation. -/
structure Stage extends Context where
  /-- The vertices taken from the issue queue that are still to be issued, in order. -/
  due : List VertexId := []
  /-- What has been handed to the device, in order. -/
  tickets : List Ticket := []

namespace Stage

/-- The simulated device of a stage. -/
abbrev machine (s : Stage) : Machine := s.device.machine

/-- The stage with another device. -/
def onMachine (s : Stage) (m : Machine) : Stage :=
  { s with device := { s.device with machine := m } }

/-- The context has looked at the device, and the device has not moved since: every running vertex
has a pending event. -/
def Observed (s : Stage) : Prop :=
  ∀ v ∈ s.running, ∃ el e, s.dag.element? v = some el ∧ el.event = some e ∧
    s.machine.events.get? e = some .pending

/-- The stage with vertex `v` failed and its stream released. -/
def failed (s : Stage) (v : VertexId) (el : Element) (cause : FailureCause) : Stage :=
  { s with
    dag := s.dag.modifyElement v fun e => e.fail cause
    pool := s.pool.releaseElement el v }

/-- The stage with vertex `v` finished, and its stream and its event `e` released. -/
def finished (s : Stage) (v : VertexId) (el : Element) (e : EventId) : Stage :=
  { s with
    dag := s.dag.modifyElement v Element.finish
    pool := { s.pool.releaseElement el v with events := s.pool.events.erase e }
    running := s.running.filter (· ≠ v)
    device := s.device.after [.destroyEvent e]
      { s.machine with events := s.machine.events.erase e } }

/-- The calls that hand over an element on stream `t`, as far as the launch. -/
def launchCalls (t : StreamId) (waits : List EventId) (el : Element) : List Call :=
  waits.map (Call.waitEvent t) ++ [.issue el.label t]

/-- The stage with the waits of vertex `v` queued on stream `t` and its launch refused. -/
def rejected (s : Stage) (v : VertexId) (el : Element) (t : StreamId) (waits : List EventId)
    (reason : String) : Stage :=
  { s.failed v el (.launch reason) with
    running := s.running.filter (· ≠ v)
    device := s.device.after (launchCalls t waits el) (s.machine.extend t (waits.map .wait)) }

/-- The stage with the work of vertex `v` queued on stream `t`. -/
def issued (s : Stage) (v : VertexId) (el : Element) (t : StreamId) (waits : List EventId) :
    Stage :=
  { s with
    dag := s.dag.modifyElement v fun e => e.start s.machine.nextEvent
    pool := { s.pool with events := s.pool.events.insert s.machine.nextEvent () }
    running := s.running ++ [v]
    device := s.device.after
      (launchCalls t waits el ++ [.createEvent, .recordEvent s.machine.nextEvent t])
      (s.machine.withWork t waits ⟨el.id, el.label, s.machine.failing.contains el.label⟩)
    tickets := s.tickets ++ [⟨v, t, s.machine.nextEvent⟩] }

/-- What no work depends on: arrays and kernels, more buffers, the log of calls. -/
structure Adjusts (s t : Stage) : Prop where
  dag : t.dag = s.dag
  pool : t.pool = s.pool
  queue : t.queue = s.queue
  running : t.running = s.running
  due : t.due = s.due
  tickets : t.tickets = s.tickets
  faults : t.device.faults = s.device.faults
  work : s.machine.SameWork t.machine
  rejected : t.machine.rejected = s.machine.rejected
  failing : t.machine.failing = s.machine.failing
  streamLimit : t.machine.streamLimit = s.machine.streamLimit
  buffers : ∀ b ∈ s.machine.buffers, b ∈ t.machine.buffers

/-- What is allowed at a stage: which elements are admitted, and which vertices are handed to the
device. -/
structure Rules where
  admits : Stage → Element → Prop
  hands : Stage → VertexId → Prop := fun _ _ => True

/-- Rules that say which elements are admitted only. -/
instance : Coe (Stage → Element → Prop) Rules := ⟨fun admits => { admits }⟩

/-- The rules by which no element is admitted. -/
def Rules.closed : Rules := { admits := fun _ _ => False }

/-- What can happen to a stage. -/
inductive Move (P : Rules) : Stage → Stage → Prop where
  | advance {s : Stage} {t : StreamId} {m : Machine} (h : s.machine.advance t = some m) :
      Move P s (s.onMachine m)
  | adjust {s t : Stage} (h : Adjusts s t) : Move P s t
  | finish {s : Stage} {v : VertexId} {el : Element} {e : EventId}
      (hv : s.dag.element? v = some el) (hr : el.state = .running) (he : el.event = some e)
      (hc : s.machine.events.get? e = some .complete)
      (hp : ∀ u, s.dag.HasEdge u v → s.dag.IsFinished u) :
      Move P s (s.finished v el e)
  | crash {s : Stage} {v : VertexId} {el : Element} {e : EventId}
      (hv : s.dag.element? v = some el) (hr : el.state = .running) (he : el.event = some e)
      (hc : s.machine.events.get? e = some .failed)
      (hp : ∀ u x a, u < v → s.dag.element? u = some x → x.state = .running → x.event = some a →
        s.machine.events.get? a = some .pending) :
      Move P s { s.failed v el (Context.blame s.dag v) with
        running := s.running.filter (· ≠ v) }
  | cascade {s : Stage} {u v : VertexId} {el : Element} (hu : s.dag.isFailed u = true)
      (huv : s.dag.HasEdge u v) (hv : s.dag.element? v = some el) (hs : el.isStarted = false) :
      Move P s (s.failed v el (.parent u))
  | skip {s : Stage} {v : VertexId} {rest : List VertexId} {el : Element}
      (hd : s.due = v :: rest) (hv : s.dag.element? v = some el) (ht : el.isTerminal = true) :
      Move P s { s with due := rest }
  | shun {s : Stage} {u v : VertexId} {rest : List VertexId} {el : Element}
      (hd : s.due = v :: rest) (hv : s.dag.element? v = some el) (hs : el.isTerminal = false)
      (hu : s.dag.isFailed u = true) (huv : s.dag.HasEdge u v) :
      Move P s { s.failed v el (.parent u) with
        running := s.running.filter (· ≠ v)
        due := rest }
  | reject {s : Stage} {v : VertexId} {rest : List VertexId} {el : Element} {t : StreamId}
      {waits : List EventId} {reason : String} (ho : s.Observed) (hd : s.due = v :: rest)
      (hv : s.dag.element? v = some el) (hs : el.isTerminal = false) (ht : el.stream = some t)
      (hw : Scheduler.waitsFor s.dag v t (s.dag.parentVertices v) = .ok waits)
      (hr : s.machine.Refuses el) (hP : P.hands s v) :
      Move P s { s.rejected v el t waits reason with due := rest }
  | issue {s : Stage} {v : VertexId} {rest : List VertexId} {el : Element} {t : StreamId}
      {waits : List EventId} (ho : s.Observed) (hd : s.due = v :: rest)
      (hv : s.dag.element? v = some el) (hs : el.isTerminal = false) (ht : el.stream = some t)
      (hw : Scheduler.waitsFor s.dag v t (s.dag.parentVertices v) = .ok waits)
      (hr : ¬ s.machine.Refuses el) (hP : P.hands s v) :
      Move P s { s.issued v el t waits with due := rest }
  | enlist {s : Stage} {e : Element} {d : Dag} {t : StreamId} {sch : Scheduler} (hu : e.Unused)
      (hP : P.admits s e) (hd : s.dag.append e = .ok d)
      (ha : (Scheduler.assign s.dag.vertices.length).run { s.toScheduler with dag := d } =
        (.ok t, sch)) :
      Move P s { s with
        toScheduler := sch
        queue := (s.queue.register s.dag.vertices.length e.work.blocksHost).2
        due := s.due ++ (s.queue.register s.dag.vertices.length e.work.blocksHost).1 }
  | refuse {s : Stage} {e : Element} {d : Dag} {error : Error} {sch : Scheduler} (hu : e.Unused)
      (hP : P.admits s e) (hd : s.dag.append e = .ok d)
      (ha : (Scheduler.assign s.dag.vertices.length).run { s.toScheduler with dag := d } =
        (.error (.error error), sch)) :
      Move P s { s with
        toScheduler := { sch with
          dag := sch.dag.modifyElement s.dag.vertices.length fun e =>
            e.fail (.launch error.message) } }
  | drain {s : Stage} : Move P s { s with queue := s.queue.drain.2, due := s.due ++ s.queue.drain.1 }
  | cleanup {s : Stage} {sch : Scheduler} {r : Except Halt Unit} (hr : s.running = [])
      (hd : s.due = []) (hq : s.queue.pending = [])
      (hc : Scheduler.cleanup.run s.toScheduler = (r, sch)) :
      Move P s { s with toScheduler := sch }

/-- Labels are rejected or let fail, streams are limited or buffers are freed from outside. -/
structure Disturbance (s t : Stage) : Prop where
  dag : t.dag = s.dag
  pool : t.pool = s.pool
  queue : t.queue = s.queue
  running : t.running = s.running
  due : t.due = s.due
  tickets : t.tickets = s.tickets
  faults : t.device.faults = s.device.faults
  work : s.machine.SameWork t.machine

/-- Moves, one after the other. -/
def Moves (P : Rules) : Stage → Stage → Prop := Relation.ReflTransGen (Move P)

/-- Moves and disturbances, one after the other. -/
def Steps (P : Rules) : Stage → Stage → Prop :=
  Relation.ReflTransGen fun s t => Move P s t ∨ Disturbance s t

/-- Where the rules allow more, the same moves are possible. -/
theorem Move.mono {P Q : Rules} (hadmits : ∀ s e, P.admits s e → Q.admits s e)
    (hhands : ∀ s v, P.hands s v → Q.hands s v) {s t : Stage} (h : Move P s t) : Move Q s t := by
  cases h with
  | advance h => exact .advance h
  | adjust h => exact .adjust h
  | finish hv hr he hc hp => exact .finish hv hr he hc hp
  | crash hv hr he hc hp => exact .crash hv hr he hc hp
  | cascade hu huv hv hs => exact .cascade hu huv hv hs
  | skip hd hv ht => exact .skip hd hv ht
  | shun hd hv hs hu huv => exact .shun hd hv hs hu huv
  | reject ho hd hv hs ht hw hr hP => exact .reject ho hd hv hs ht hw hr (hhands _ _ hP)
  | issue ho hd hv hs ht hw hr hP => exact .issue ho hd hv hs ht hw hr (hhands _ _ hP)
  | enlist hu hP hd ha => exact .enlist hu (hadmits _ _ hP) hd ha
  | refuse hu hP hd ha => exact .refuse hu (hadmits _ _ hP) hd ha
  | drain => exact .drain
  | cleanup hr hd hq hc => exact .cleanup hr hd hq hc

theorem Moves.mono {P Q : Rules} (hadmits : ∀ s e, P.admits s e → Q.admits s e)
    (hhands : ∀ s v, P.hands s v → Q.hands s v) {s t : Stage} (h : Moves P s t) : Moves Q s t :=
  Relation.ReflTransGen.mono (fun _ _ => Move.mono hadmits hhands) _ _ h

theorem Moves.of_closed {P : Stage → Element → Prop} {s t : Stage} (h : Moves .closed s t) :
    Moves P s t :=
  h.mono (fun _ _ => False.elim) fun _ _ _ => trivial

theorem Moves.steps {P : Rules} {s t : Stage} (h : Moves P s t) :
    Steps P s t := by
  induction h with
  | refl => exact .refl
  | tail _ hm ih => exact ih.tail (.inl hm)

end Stage

end LaunchGraph
