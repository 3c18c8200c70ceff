import Mathlib.Data.List.Sort
import LaunchGraph.Proofs.Commands
import LaunchGraph.Proofs.Schedule

/-!
# The time of issue — holding work back does not change the schedule

A context may hand work to the device when it is registered, or hold it back and hand it over later
in batches.  As long as the host does not wait, the device does not move and nothing fails, the
outcome is the same (`Context.deferred_schedule_eq_eager`).

The proof follows the *outlook* of a context, which is its schedule once everything that is held
back is handed over.  Registering an element changes the outlook by `Schedule.register`, whichever
part of the queue is let go at that moment (`Stage.Unhindered.register`): the vertices that are
handed over now and those that stay in the queue are, together, those that were in it and the new
one, and taking in the new one commutes with handing over the others.
-/

namespace LaunchGraph

namespace Context

/-- What registering and issuing have decided so far. -/
def schedule (c : Context) : Schedule where
  dag := c.dag
  pool := c.pool
  machine := c.device.machine
  running := c.running

/-- The schedule once everything that is held back has been handed to the device. -/
def outlook (c : Context) : Schedule := c.schedule.issueAll c.queue.pending

end Context

namespace Stage

/-- Nothing stands in the way: the device has not moved since the context looked at it, it makes
streams without limit, and every vertex is accepted by it and not over. -/
structure Unhindered (s : Stage) : Prop where
  coherent : s.Coherent
  observed : s.Observed
  streamLimit : s.machine.streamLimit = none
  element : ∀ v el, s.dag.element? v = some el →
    el.isTerminal = false ∧ ¬ s.machine.Refuses el

namespace Unhindered

variable {s : Stage}

/-- A vertex that is held back can be handed over. -/
theorem ready (h : s.Unhindered) {v : VertexId} (hv : v ∈ s.held) :
    s.toContext.schedule.Ready v := by
  obtain ⟨el, hel⟩ := h.coherent.element_of_held hv
  have hopen := (h.element v el hel).1
  obtain ⟨t, ht, hlive⟩ := h.coherent.owned.bound v el hel hopen
  exact ⟨el, t, hel, hopen, ht, h.coherent.owned.stream_lt t hlive⟩

/-- **The first vertex that is due is handed over.** -/
theorem issueVertex (h : s.Unhindered) {v : VertexId} {rest : List VertexId}
    (hd : s.due = v :: rest) :
    ∃ t : Stage, (Context.issueVertex v).run s.toContext = (.ok (), t.toContext) ∧
      t.Unhindered ∧ t.due = rest ∧ t.queue = s.queue ∧ Undisturbed s t ∧
      t.toContext.schedule = s.toContext.schedule.issue v := by
  obtain ⟨el, hv⟩ := h.coherent.element_of_due hd
  obtain ⟨ht, hr⟩ := h.element v el hv
  obtain ⟨t, hstream, hlive⟩ := h.coherent.owned.bound v el hv ht
  cases hw : Scheduler.waitsFor s.dag v t (s.dag.parentVertices v) with
  | error error =>
      -- a parent that cannot be waited for has failed, and no vertex has
      obtain ⟨u, -, hu, -⟩ := h.coherent.parent_of_error hd hw
      obtain ⟨x, hx, hfailed⟩ := Dag.state?_eq_some.mp (Dag.isFailed_iff.mp hu)
      have hopen := (h.element u x hx).1
      simp [Element.isTerminal, hfailed, Lifecycle.isTerminal] at hopen
  | ok waits =>
      obtain ⟨-, rfl⟩ := h.coherent.waits_eq_awaited hd hw
      have hmove : Move .closed s _ := .issue h.observed hd hv ht hstream hw hr trivial
      have hundisturbed := h.coherent.undisturbed hmove
      refine ⟨{ s.issued v el t (s.dag.awaited v t) with due := rest },
        run_issueVertex h.coherent.faults hv ht hstream hlive hw hr,
        ⟨h.coherent.move hmove, ?_, hundisturbed.streamLimit.trans h.streamLimit, ?_⟩, rfl, rfl,
        hundisturbed, ?_⟩
      · exact h.coherent.observed_issued h.observed hv (h.coherent.state_of_due hd hv ht) t _
      · intro w x hx
        rcases Dag.element?_modifyElement_cases hx with ⟨-, old, ho, rfl⟩ | ⟨-, hx⟩
        · exact ⟨rfl, hundisturbed.not_refuses (h.element v old ho).2⟩
        · exact ⟨(h.element w x hx).1, hundisturbed.not_refuses (h.element w x hx).2⟩
      · rw [Schedule.issue_eq (p := s.toContext.schedule) hv hstream]
        rfl

/-- All that is due is handed over, in order. -/
theorem issueAll (h : s.Unhindered) {ready : List VertexId} (hd : s.due = ready) :
    ∃ t : Stage, (Action.each Context.issueVertex ready).run s.toContext =
        (.ok (), t.toContext) ∧ t.Unhindered ∧ t.due = [] ∧ t.queue = s.queue ∧
      Undisturbed s t ∧ t.toContext.schedule = s.toContext.schedule.issueAll ready := by
  induction ready generalizing s with
  | nil => exact ⟨s, rfl, h, hd, rfl, .of_eq rfl rfl rfl rfl, rfl⟩
  | cons v rest ih =>
      obtain ⟨t, hrun, ht, hdue, hqueue, hundisturbed, hschedule⟩ := h.issueVertex hd
      obtain ⟨u, hrun', hu, hdue', hqueue', hundisturbed', hschedule'⟩ := ih ht hdue
      refine ⟨u, ?_, hu, hdue', hqueue'.trans hqueue, hundisturbed.trans hundisturbed', ?_⟩
      · rw [Action.run_each_cons, Action.run_bind_ok hrun, hrun']
      · rw [hschedule', hschedule]
        rfl

/-- **An element that the device accepts is taken in**, and gets the stream that the schedule
says. -/
theorem enroll (h : s.Unhindered) {e : Element} (hu : e.Unused) (hr : ¬ s.machine.Refuses e) :
    ∃ (t : Stage) (stream : StreamId),
      (Context.enroll e).run s.toContext = (.ok (s.dag.vertices.length, stream,
        (s.queue.register s.dag.vertices.length e.work.blocksHost).1), t.toContext) ∧
      t.Unhindered ∧
      t.due = s.due ++ (s.queue.register s.dag.vertices.length e.work.blocksHost).1 ∧
      t.queue = (s.queue.register s.dag.vertices.length e.work.blocksHost).2 ∧
      Undisturbed s t ∧ t.toContext.schedule = s.toContext.schedule.enlist e := by
  obtain ⟨d, hd, happ⟩ := Dag.append_eq h.coherent.linked hu.id
  obtain ⟨sch, hrun, hdag, hpool, hmachine⟩ := Scheduler.run_assign_choice
    (s := { s.toScheduler with dag := d }) h.coherent.faults h.streamLimit
    h.coherent.slots_nextStream happ.element?_new
  have hmove : Move (fun _ _ => True : Stage → Element → Prop) s _ :=
    .enlist hu trivial hd hrun
  have hundisturbed := h.coherent.undisturbed hmove
  obtain ⟨-, hassigned⟩ := h.coherent.assigned hu hd hrun
  refine ⟨_, _, run_enroll hd hrun, ⟨h.coherent.move hmove, ?_,
    hundisturbed.streamLimit.trans h.streamLimit, ?_⟩, rfl, rfl, hundisturbed, ?_⟩
  · exact observed_of_eventIs h.observed h.coherent (fun _ hv => hv)
      fun v _ st hv => eventIs_assigned happ hassigned hv
  · intro v el hv
    simp only [hdag] at hv
    rcases Dag.element?_modifyElement_inv happ.element?_new hv with ⟨-, rfl⟩ | ⟨hne, hv⟩
    · refine ⟨?_, hundisturbed.not_refuses hr⟩
      simp [Element.isTerminal, Element.bind, hu.state, Lifecycle.isTerminal]
    · rcases happ.element?_cases hv with ⟨heq, -⟩ | ⟨-, old, active, ho, rfl⟩
      · exact absurd heq hne
      · exact ⟨(h.element v old ho).1, hundisturbed.not_refuses (h.element v old ho).2⟩
  · rw [Schedule.enlist_eq (p := s.toContext.schedule) hd]
    simp only [Context.schedule, hdag, hpool, hmachine]
    rfl

/-- **Registering an element** changes the outlook as if it were handed over at once, whatever part
of the queue is let go. -/
theorem register (h : s.Unhindered) (hd : s.due = []) {e : Element} (hu : e.Unused)
    (hb : e.work.blocksHost = false) (hr : ¬ s.machine.Refuses e) :
    ∃ t : Stage, (Context.register e).run s.toContext =
        (.ok s.dag.vertices.length, t.toContext) ∧ t.Unhindered ∧ t.due = [] ∧
      t.queue.policy = s.queue.policy ∧ t.dag.vertices.length = s.dag.vertices.length + 1 ∧
      Undisturbed s t ∧ t.toContext.outlook = s.toContext.outlook.register e := by
  obtain ⟨t, stream, hrun, ht, hdue, hqueue, hundisturbed, hschedule⟩ := h.enroll hu hr
  rw [hd, List.nil_append] at hdue
  obtain ⟨u, hrun', hu', hdue', hqueue', hundisturbed', hschedule'⟩ := ht.issueAll hdue
  have hall := hschedule'.trans (congrArg (Schedule.issueAll · _) hschedule)
  refine ⟨u, ?_, hu', hdue', ?_, ?_, hundisturbed.trans hundisturbed', ?_⟩
  · rw [Context.register_eq_enroll, Action.run_bind_ok (h.coherent.run_observe h.observed),
      Action.run_bind_ok hrun]
    dsimp only
    rw [Action.run_bind_ok hrun', hb]
    rfl
  · rw [hqueue', hqueue, IssueQueue.policy_register]
  · have hlength := congrArg (fun p => p.dag.vertices.length) hall
    rw [Schedule.length_issueAll, Schedule.length_enlist h.coherent.linked hu.id] at hlength
    exact hlength
  · have hheld := h.coherent.settled.held_register s.dag.vertices.length e.work.blocksHost
    have hready : ∀ v ∈ s.queue.pending, s.toContext.schedule.Ready v :=
      fun v hv => h.ready (List.mem_append_right _ hv)
    calc u.toContext.outlook
        = (s.toContext.schedule.enlist e).issueAll
            (s.queue.pending ++ [s.dag.vertices.length]) := by
          rw [Context.outlook, hall, hqueue', hqueue, ← Schedule.issueAll_append, hheld]
      _ = ((s.toContext.schedule.issueAll s.queue.pending).enlist e).issue
            s.dag.vertices.length := by
          rw [Schedule.issueAll_append, Schedule.enlist_issueAll h.coherent.linked hready hu.id]
          rfl
      _ = s.toContext.outlook.register e := by
          rw [Schedule.register, Context.outlook, Schedule.length_issueAll]
          rfl

/-- Registering elements one after the other. -/
theorem registerAll (h : s.Unhindered) (hd : s.due = []) {elements : List Element}
    (hall : ∀ e ∈ elements, e.Unused ∧ e.work.blocksHost = false ∧ ¬ s.machine.Refuses e) :
    ∃ t : Stage, (Action.collect Context.register elements).run s.toContext =
        (.ok (List.range' s.dag.vertices.length elements.length), t.toContext) ∧
      t.Unhindered ∧ t.due = [] ∧ t.queue.policy = s.queue.policy ∧
      t.dag.vertices.length = s.dag.vertices.length + elements.length ∧
      t.toContext.outlook = elements.foldl Schedule.register s.toContext.outlook := by
  induction elements generalizing s with
  | nil => exact ⟨s, rfl, h, hd, rfl, rfl, rfl⟩
  | cons e rest ih =>
      obtain ⟨hu, hb, hr⟩ := hall e List.mem_cons_self
      obtain ⟨t, hrun, ht, hdue, hpolicy, hlength, hundisturbed, houtlook⟩ := h.register hd hu hb hr
      have hrest : ∀ e ∈ rest, e.Unused ∧ e.work.blocksHost = false ∧ ¬ t.machine.Refuses e := by
        intro e he
        obtain ⟨hu, hb, hr⟩ := hall e (List.mem_cons_of_mem _ he)
        exact ⟨hu, hb, hundisturbed.not_refuses hr⟩
      obtain ⟨u, hrun', hu', hdue', hpolicy', hlength', houtlook'⟩ := ih ht hdue hrest
      refine ⟨u, ?_, hu', hdue', hpolicy'.trans hpolicy, ?_, ?_⟩
      · rw [Action.run_collect_cons, Action.run_bind_ok hrun, Action.run_bind_ok hrun', hlength]
        rfl
      · rw [hlength', hlength, List.length_cons]
        lia
      · rw [houtlook', houtlook]
        rfl

/-- **Flushing makes the outlook come true.** -/
theorem flush (h : s.Unhindered) (hd : s.due = []) :
    ∃ t : Stage, Context.flush.run s.toContext = (.ok (), t.toContext) ∧ t.Unhindered ∧
      t.due = [] ∧ t.queue.pending = [] ∧ t.toContext.schedule = s.toContext.outlook := by
  have hdrained : Unhindered { s with
      queue := s.queue.drain.2
      due := s.due ++ s.queue.drain.1 } :=
    ⟨h.coherent.move (P := .closed) .drain, h.observed, h.streamLimit, h.element⟩
  have hready : s.due ++ s.queue.drain.1 = s.queue.pending := by
    rw [hd]
    rfl
  obtain ⟨t, hrun, ht, hdue, hqueue, -, hschedule⟩ := hdrained.issueAll hready
  refine ⟨t, ?_, ht, hdue, by rw [hqueue]; rfl, hschedule⟩
  rw [Context.flush, Action.run_bind_ok (h.coherent.run_observe h.observed)]
  exact hrun

/-- Where nothing is held back, every vertex is on the device, in the order of registration. -/
theorem running_eq (h : s.Unhindered) (hd : s.due = []) (hq : s.queue.pending = []) :
    s.running = List.range s.dag.vertices.length := by
  refine h.coherent.agenda.running_sorted.eq_of_mem_iff List.pairwise_lt_range fun v => ?_
  rw [List.mem_range]
  constructor
  · intro hv
    exact Dag.lt_of_state? ((h.coherent.agenda.mem_running v).mp hv)
  · intro hv
    obtain ⟨el, hel⟩ := Dag.exists_element? hv
    exact (h.coherent.mem_running hel).mpr (Element.running_of_started
      (h.coherent.started_of_rest hd hq hel) (h.element v el hel).1)

/-- A new context on a device that has no work and makes streams without limit. -/
theorem new (options : ContextOptions) {device : Device} (hf : device.faults = [])
    (hnew : Machine.SameWork {} device.machine) (hlimit : device.machine.streamLimit = none) :
    Unhindered { Context.new options device with } where
  coherent := (Coherent.initial options).disturbance ⟨rfl, rfl, rfl, rfl, rfl, rfl, hf, hnew⟩
  observed := by simp [Observed, Context.new]
  streamLimit := hlimit
  element := by simp [Context.new, Dag.element?]

end Unhindered

end Stage

namespace Context

/-- Registers some elements, then hands over what is held back. -/
def registerAndFlush (elements : List Element) : Action Context (List VertexId) := do
  let vertices ← Action.collect register elements
  flush
  pure vertices

/-- **Holding work back does not change the schedule.**  Let some launches be registered that the
device accepts, with nothing in between, on a device that makes streams without limit.  A context
that hands each of them over at once, and one that holds them back in batches of any size and is
flushed in the end, agree on the graph, the streams and events of every vertex, the pool of
streams, the order of issue and the queues of the device; both have handed over everything. -/
theorem deferred_schedule_eq_eager (options : ContextOptions) (device : Device)
    (elements : List Element) (hf : device.faults = [])
    (hnew : Machine.SameWork {} device.machine) (hlimit : device.machine.streamLimit = none)
    (hall : ∀ e ∈ elements, e.Unused ∧ e.work.blocksHost = false ∧ ¬ device.machine.Refuses e) :
    ∃ eager deferred : Context,
      (Action.collect register elements).run (new { options with issue := .eager } device) =
        (.ok (List.range elements.length), eager) ∧
      (registerAndFlush elements).run (new { options with issue := .deferred } device) =
        (.ok (List.range elements.length), deferred) ∧
      deferred.dag = eager.dag ∧ deferred.pool = eager.pool ∧
      deferred.device.machine = eager.device.machine ∧ deferred.running = eager.running ∧
      eager.running = List.range elements.length ∧
      eager.queue.pending = [] ∧ deferred.queue.pending = [] := by
  have heager := Stage.Unhindered.new { options with issue := .eager } hf hnew hlimit
  have hdeferred := Stage.Unhindered.new { options with issue := .deferred } hf hnew hlimit
  obtain ⟨s, hrun, hs, hdue, hpolicy, hlength, houtlook⟩ := heager.registerAll rfl hall
  obtain ⟨t, hrun', ht, hdue', -, -, houtlook'⟩ := hdeferred.registerAll rfl hall
  obtain ⟨u, hflush, -, -, hpending', hschedule⟩ := ht.flush hdue'
  have hpending : s.queue.pending = [] := hs.coherent.settled hpolicy
  have hrunning : s.running = List.range elements.length := by
    rw [hs.running_eq hdue hpending, hlength]
    exact congrArg List.range (Nat.zero_add _)
  -- nothing is held back at first, so both start from the same outlook
  have hsame : u.toContext.schedule = s.toContext.schedule := by
    calc u.toContext.schedule
        = t.toContext.outlook := hschedule
      _ = s.toContext.outlook := houtlook'.trans houtlook.symm
      _ = s.toContext.schedule := by rw [outlook, hpending]; rfl
  refine ⟨s.toContext, u.toContext, ?_, ?_, congrArg Schedule.dag hsame,
    congrArg Schedule.pool hsame, congrArg Schedule.machine hsame,
    congrArg Schedule.running hsame, hrunning, hpending, hpending'⟩
  · rw [List.range_eq_range']
    exact hrun
  · rw [registerAndFlush, Action.run_bind_ok hrun', Action.run_bind_ok hflush, List.range_eq_range']
    rfl

/-- Two launches that follow one, a third that joins them, and one that writes what the third
reads. -/
def diamond : List Element :=
  [.new (.launch 1 "source" {}) [.array .float 0 false],
   .new (.launch 2 "left" {}) [.array .float 0 true, .array .float 1 false],
   .new (.launch 3 "right" {}) [.array .float 0 true, .array .float 2 false],
   .new (.launch 4 "join" {})
     [.array .float 1 true, .array .float 2 true, .array .float 0 false],
   .new (.launch 5 "after" {}) [.array .float 1 false]]

/-- A device with three buffers that refuses one label and lets another fail. -/
def diamondDevice : Device where
  machine := { nextBuffer := 3, buffers := [0, 1, 2], rejected := ["other"], failing := ["join"] }

/-- At most two streams, and batches of three. -/
def diamondOptions : ContextOptions where
  maxStreams := some 2
  batchSize := 3

/-- Held back in batches of three, the first launch is handed over after the second stream has been
made, and the schedule is the same: a stream is shared where two are busy. -/
theorem deferred_schedule_eq_eager_diamond :
    ∃ eager deferred : Context,
      (Action.collect register diamond).run
        (new { diamondOptions with issue := .eager } diamondDevice) =
        (.ok [0, 1, 2, 3, 4], eager) ∧
      (registerAndFlush diamond).run
        (new { diamondOptions with issue := .deferred } diamondDevice) =
        (.ok [0, 1, 2, 3, 4], deferred) ∧
      eager.device.calls[1]? = some (.issue "source" 0) ∧
      deferred.device.calls[1]? = some .createStream ∧
      deferred.dag = eager.dag ∧ deferred.pool = eager.pool ∧
      deferred.device.machine = eager.device.machine ∧ deferred.running = [0, 1, 2, 3, 4] ∧
      deferred.dag.vertices.map (·.element.stream) =
        [some 0, some 0, some 1, some 0, some 1] := by
  have hall : ∀ e ∈ diamond, e.Unused ∧ e.work.blocksHost = false ∧
      ¬ diamondDevice.machine.Refuses e := by
    simp only [diamond, List.forall_mem_cons]
    exact ⟨⟨Element.unused_new .., rfl, by decide⟩, ⟨Element.unused_new .., rfl, by decide⟩,
      ⟨Element.unused_new .., rfl, by decide⟩, ⟨Element.unused_new .., rfl, by decide⟩,
      ⟨Element.unused_new .., rfl, by decide⟩, by simp⟩
  obtain ⟨eager, deferred, heager, hdeferred, hdag, hpool, hmachine, hrunning, horder, -⟩ :=
    deferred_schedule_eq_eager diamondOptions diamondDevice diamond rfl
      ⟨rfl, rfl, rfl, rfl, rfl⟩ rfl hall
  have hvertices : List.range diamond.length = [0, 1, 2, 3, 4] := rfl
  rw [hvertices] at heager hdeferred horder
  refine ⟨eager, deferred, heager, hdeferred, ?_, ?_, hdag, hpool, hmachine,
    hrunning.trans horder, ?_⟩
  · refine (congrArg (fun r => r.2.device.calls[1]?) heager).symm.trans ?_
    decide +kernel
  · refine (congrArg (fun r => r.2.device.calls[1]?) hdeferred).symm.trans ?_
    decide +kernel
  · refine (congrArg (fun r => r.2.dag.vertices.map (·.element.stream)) hdeferred).symm.trans ?_
    decide +kernel

end Context

end LaunchGraph
