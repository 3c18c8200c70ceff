import Mathlib.Data.List.Sort
import LaunchGraph.Proofs.Lives
import LaunchGraph.Proofs.Runs
import LaunchGraph.Session

/-!
# Resources of the device

A context makes streams and events on the device and has to give them back.  At every point of a
run the pool knows exactly those that are there, and the events are those of single vertices
(`Context.Accounted`).  Cleaning up succeeds wherever a run has come to, and leaves nothing on the
device and nobody under way (`Stage.Coherent.cleanUp`); after that there is nothing to clean up
(`Context.Cleared.run_cleanup`).

A session serves commands one after the other, and its context is that of a run as long as it does
(`Session.context_of_serving`).  However it ends, it leaves a context that has been cleaned up.
-/

namespace LaunchGraph

/-- Two tables that have the same keys list them in the same order. -/
theorem Table.keys_eq_keys {α β : Type} {t : Table Nat α} {u : Table Nat β}
    (h : ∀ k, t.contains k = u.contains k) : t.keys = u.keys := by
  refine t.keys_pairwise.eq_of_mem_iff u.keys_pairwise fun k => ?_
  rw [mem_keys_iff, mem_keys_iff, h]

/-- An element that has finished has no event any more. -/
def Element.EventGone (el : Element) : Prop := el.state = .finished → el.event = none

namespace Element.EventGone

variable {el el' : Element}

theorem turns (h : el.EventGone) (ht : el.Turns el') : el'.EventGone := by
  cases ht with
  | stay active => exact h
  | start hs event => exact fun hfinished => by cases hfinished
  | finish hr => exact fun _ => rfl
  | fail ht cause => exact fun hfinished => by cases hfinished

theorem enters (h : el.Enters) : el.EventGone := by
  intro hfinished
  cases h with
  | placed hs => cases hs.symm.trans hfinished
  | unplaced hs => cases hs.symm.trans hfinished

end Element.EventGone

namespace Context

/-! ### What is on the device -/

/-- The pool knows the streams and events that are on the device, and the events are those of
single vertices: whoever is running has one, and whoever has finished has none. -/
structure Accounted (c : Context) : Prop where
  streams : c.device.machine.streams.keys = c.pool.slots.keys
  events : c.device.machine.events.keys = c.pool.events.keys
  running : ∀ v el, c.dag.element? v = some el → el.state = .running →
    ∃ e, el.event = some e ∧ c.pool.events.contains e = true
  distinct : ∀ u v x y e, c.dag.element? u = some x → c.dag.element? v = some y →
    x.event = some e → y.event = some e → u = v
  finished : ∀ v el, c.dag.element? v = some el → el.state = .finished → el.event = none

/-- Nothing is held back or running, and there is nothing in the pool and on the device. -/
structure Cleared (c : Context) : Prop where
  pending : c.queue.pending = []
  running : c.running = []
  pool : c.pool = { maxStreams := c.pool.maxStreams }
  streams : c.device.machine.streams = .empty
  events : c.device.machine.events = .empty

theorem Cleared.pendingOperations {c : Context} (h : c.Cleared) :
    c.device.machine.pendingOperations = 0 := by
  refine Machine.pendingOperations_eq_zero.mpr fun s lane hs => ?_
  simp [h.streams] at hs

/-- Where everything has been cleaned up, cleaning up does nothing. -/
theorem Cleared.run_cleanup {c : Context} (h : c.Cleared) (hf : c.device.faults = []) :
    cleanup.run c = (.ok (), c) := by
  have hslots : c.pool.slots = .empty := by rw [h.pool]
  have hevents : c.pool.events = .empty := by rw [h.pool]
  have hpool : ({ c.pool with slots := .empty, free := [], events := .empty, shared := 0 } :
      StreamPool) = c.pool := h.pool.symm
  have hmachine : ({ c.device.machine with streams := .empty, events := .empty } : Machine) =
      c.device.machine := by
    rw [← h.streams, ← h.events]
  have hrun := Scheduler.run_cleanup (s := c.toScheduler) hf (by simp [hslots, h.streams])
    (by simp [hevents, h.events])
  rw [hpool, hmachine, hslots, hevents] at hrun
  rw [cleanup, Action.run_gets_bind]
  simp only [hasPending, h.pending, h.running, List.isEmpty_nil, Bool.not_true, Bool.or_self,
    Bool.false_eq_true, if_false]
  have hcalls : (Table.empty : Table EventId Unit).keys.map Call.destroyEvent ++
      (Table.empty : Table StreamId Slot).keys.map Call.destroyStream = [] := rfl
  rw [hcalls, Device.after_nil] at hrun
  exact run_onScheduler hrun

end Context

namespace Stage

variable {P : Rules} {s : Stage}

theorem eventGone_steps {options : ContextOptions} (hm : Steps P (.initial options) s)
    {v : VertexId} {el : Element} (hv : s.dag.element? v = some el) : el.EventGone := by
  refine (Coherent.initial options).invariant
    (I := fun s => ∀ v el, s.dag.element? v = some el → el.EventGone) ?_ ?_ ?_ hm v el hv
  · intro s t h hgone hmove v el hv
    rcases h.element_cases hmove hv with ⟨x, hx, hturns⟩ | ⟨-, henters, -⟩
    · exact (hgone v x hx).turns hturns
    · exact .enters henters
  · intro s t hgone hdist v el hv
    exact hgone v el (hdist.dag ▸ hv)
  · simp [Stage.initial, Context.new, Dag.element?]

/-- **The pool accounts for the device.** -/
theorem Coherent.accounted (h : s.Coherent)
    (hgone : ∀ v el, s.dag.element? v = some el → el.EventGone) : s.toContext.Accounted where
  streams := Table.keys_eq_keys fun t => (h.owned.slots t).symm
  events := Table.keys_eq_keys fun e => (h.owned.events e).symm
  running v el hv hr := by
    obtain ⟨e, he, hlive⟩ := h.timeline.event_of_running v el hv hr
    exact ⟨e, he, (h.owned.events e).trans hlive⟩
  distinct u v x y e hu hv hx hy := by
    obtain ⟨t, -, ht⟩ := h.timeline.ticket u x e hu hx
    obtain ⟨t', -, ht'⟩ := h.timeline.ticket v y e hv hy
    exact congrArg Ticket.vertex (h.timeline.ledger.event_inj _ ht _ ht' rfl)
  finished := hgone

/-- **Cleaning up succeeds**, and nothing is left then: neither work nor streams nor events. -/
theorem Coherent.cleanUp {P : Stage → Element → Prop} (h : s.Coherent) (hd : s.due = []) :
    Leads P s Context.cleanup fun r t => r = .ok () ∧ t.due = [] ∧ t.toContext.Cleared := by
  have hgive : ∀ t : Stage, t.Coherent → t.due = [] → t.queue.pending = [] → t.running = [] →
      Leads P t (Context.onScheduler Scheduler.cleanup) fun r u =>
        r = .ok () ∧ u.due = [] ∧ u.toContext.Cleared := by
    intro t ht hdue hpending hrunning
    have hrun := Scheduler.run_cleanup ht.faults ht.owned.slots ht.owned.events
    exact ⟨.ok (), t.onScheduler _, Context.run_onScheduler hrun,
      .single (.cleanup hrunning hdue hpending hrun), rfl, hdue, hpending, hrunning, rfl, rfl, rfl⟩
  rw [Leads, Context.cleanup, Action.run_gets_bind]
  cases hbusy : (s.hasPending || !s.running.isEmpty) with
  | true =>
      simp only [if_true]
      refine (h.synchronize hd).bind ?_ (by rintro e t - ⟨hr, -⟩; cases hr)
      rintro _ t hmoves ⟨-, hdue, hpending, hrunning⟩
      exact hgive t (h.moves hmoves) hdue hpending hrunning
  | false =>
      have hnothing : s.queue.pending = [] ∧ s.running = [] := by
        simpa [Context.hasPending] using hbusy
      simp only [Bool.false_eq_true, if_false]
      exact hgive s h hd hnothing.1 hnothing.2

end Stage

/-! ### Sessions -/

namespace Session

/-- The session after a command: it serves those that are not meant for the device itself. -/
def take (s : Session) : Context.Command → Session
  | .device command => ((onDevice (Device.perform command)).run s).2
  | command => ((serve command).run s).2

/-- The session after some commands. -/
def served (s : Session) (commands : List Context.Command) : Session := commands.foldl take s

/-- A session that is serving after a command was serving before it, and its context has carried out
the command. -/
theorem take_of_serving {s : Session} {command : Context.Command}
    (h : (s.take command).phase = .serving) :
    s.phase = .serving ∧
      (s.take command).context = ((Context.perform command).run s.context).2 := by
  have hserve : ((serve command).run s).2.phase = .serving → s.phase = .serving ∧
      ((serve command).run s).2.context = ((Context.perform command).run s.context).2 := by
    simp only [serve, request, Action.run]
    cases hphase : s.phase with
    | serving =>
        cases hrun : Context.perform command s.context with
        | mk r c => rcases r with (e | b) | a <;> simp
    | ended | broken => simp [hphase]
  cases command with
  | device command =>
      cases hrun : (Device.perform command).run s.context.device with
      | mk r d =>
          have hdevice : (onDevice (Device.perform command)).run s =
              (r, { s with context := { s.context with device := d } }) := Action.run_zoom hrun
          rw [take, hdevice] at h ⊢
          refine ⟨h, ?_⟩
          rw [Context.perform]
          cases r with
          | ok reply => rw [Action.run_bind_ok (Context.run_onDevice hrun), Action.run_pure]
          | error halt => rw [Action.run_bind_error (Context.run_onDevice hrun)]
  | _ => exact hserve h

/-- **The context of a session that is serving is that of a run.** -/
theorem context_of_serving {s : Session} {commands : List Context.Command}
    (h : (s.served commands).phase = .serving) :
    s.phase = .serving ∧ (s.served commands).context = s.context.after commands := by
  induction commands generalizing s with
  | nil => exact ⟨h, rfl⟩
  | cons command rest ih =>
      obtain ⟨hphase, hcontext⟩ := @ih (s.take command) h
      obtain ⟨hserving, heq⟩ := take_of_serving hphase
      refine ⟨hserving, hcontext.trans ?_⟩
      rw [heq]
      rfl

end Session

namespace Context

theorem accounted_ran (options : ContextOptions) {commands : List Command}
    (hc : ∀ command ∈ commands, command.Contained) : (ran options commands).Accounted := by
  obtain ⟨s, hs, hsteps, h, -⟩ := Stage.exists_stage_ran options (P := fun _ _ => True) hc
    fun _ _ _ _ _ _ => trivial
  rw [← hs]
  exact h.accounted fun v el hv => Stage.eventGone_steps hsteps hv

/-- **The resources of the device are accounted for exactly, and cleaning up releases them.**  In
every state of a contained run the pool knows the streams and events of the device.  Cleaning up
succeeds there; every vertex is over then, the device has no stream, no event and no operation
left, and cleaning up once more makes no call and changes nothing.  The run may go on from there.
A session that has served the same commands leaves the same behind, whether it is shut down or
abandoned. -/
theorem resources_accounted (options : ContextOptions) (commands : List Command)
    (hc : ∀ command ∈ commands, command.Contained) :
    (ran options commands).Accounted ∧
    ∃ c, cleanup.run (ran options commands) = (.ok (), c) ∧
      c.dag.vertices.length = (ran options commands).dag.vertices.length ∧
      (∀ v el, c.dag.element? v = some el → el.isTerminal = true) ∧
      c.device.machine.streams.size = 0 ∧ c.device.machine.events.size = 0 ∧
      c.device.machine.pendingOperations = 0 ∧
      cleanup.run c = (.ok (), c) ∧
      (∀ more : List Command, (∀ command ∈ more, command.Contained) →
        (c.after more).Accounted) ∧
      ∀ s, s = Session.served ⟨new options {}, .serving⟩ commands → s.phase = .serving →
        Session.shutdown.run s = (.ok (), ⟨c, .ended⟩) ∧ s.finish = ⟨c, .ended⟩ := by
  refine ⟨accounted_ran options hc, ?_⟩
  obtain ⟨s, hs, -, h, hd⟩ := Stage.exists_stage_ran options (P := fun _ _ => True) hc
    fun _ _ _ _ _ _ => trivial
  obtain ⟨r, t, hrun, hmoves, rfl, hdue, hcleared⟩ := h.cleanUp (P := fun _ _ => False) hd
  have ht := h.moves hmoves
  rw [hs] at hrun
  refine ⟨t.toContext, hrun, ?_, fun v el hv => ?_, ?_, ?_, hcleared.pendingOperations,
    hcleared.run_cleanup ht.faults, fun more hmore => ?_, fun x hx hserving => ?_⟩
  · rw [← hs]
    exact h.length_closed hmoves
  · exact ht.terminal_of_rest hdue hcleared.pending hcleared.running hv
  · rw [hcleared.streams]
    rfl
  · rw [hcleared.events]
    rfl
  · -- the run goes on after the command to clean up
    have hran : t.toContext.after more = ran options (commands ++ .cleanup :: more) := by
      have hperform : ((perform .cleanup).run (ran options commands)).2 = t.toContext :=
        congrArg Prod.snd (Action.run_bind_ok hrun)
      rw [ran, after_append]
      exact congrArg (after · more) hperform.symm
    rw [hran]
    refine accounted_ran options fun command hmem => ?_
    rcases List.mem_append.mp hmem with hmem | hmem
    · exact hc command hmem
    · rcases List.mem_cons.mp hmem with rfl | hmem
      · trivial
      · exact hmore command hmem
  · have hcontext : x.context = ran options commands := by
      subst hx
      exact (Session.context_of_serving hserving).2
    have hfinish : x.finish = ⟨t.toContext, .ended⟩ := by
      simp only [Session.finish, hserving, hcontext, hrun]
    refine ⟨?_, hfinish⟩
    simp only [Session.shutdown, Action.run, hserving, hfinish]

/-- Two launches, of which one has failed on the device, and one that depends on both. -/
def failedJoin : List Command :=
  .device (.failExecutions "left") :: fork ++ [join, .device .step, .device .step]

/-- The three streams and the three events are given back when the session ends. -/
theorem resources_accounted_failedJoin :
    (ran {} failedJoin).device.machine.streams.keys = [0, 1, 2] ∧
    (ran {} failedJoin).pool.slots.keys = [0, 1, 2] ∧
    (ran {} failedJoin).pool.events.keys = [0, 1, 2] ∧
    ∃ c, Session.shutdown.run (Session.served ⟨new {} {}, .serving⟩ failedJoin) =
        (.ok (), ⟨c, .ended⟩) ∧
      (∀ v el, c.dag.element? v = some el → el.isTerminal = true) ∧
      c.device.machine.streams.size = 0 ∧ c.device.machine.events.size = 0 := by
  have hcontained : ∀ command ∈ failedJoin, command.Contained := by
    simp only [failedJoin, fork, join, List.cons_append, List.nil_append, List.forall_mem_cons]
    exact ⟨rfl, rfl, rfl, (contained_new _ _).1, (contained_new _ _).1, (contained_new _ _).1, rfl,
      rfl, by simp⟩
  have hstreams : (ran {} failedJoin).device.machine.streams.keys = [0, 1, 2] := by decide +kernel
  have hevents : (ran {} failedJoin).device.machine.events.keys = [0, 1, 2] := by decide +kernel
  have hserving : (Session.served ⟨new {} {}, .serving⟩ failedJoin).phase = .serving := by
    decide +kernel
  obtain ⟨haccounted, c, -, -, hterminal, hnoStreams, hnoEvents, -, -, -, hsession⟩ :=
    resources_accounted {} failedJoin hcontained
  exact ⟨hstreams, haccounted.streams ▸ hstreams, haccounted.events ▸ hevents, c,
    (hsession _ rfl hserving).1, hterminal, hnoStreams, hnoEvents⟩

end Context

end LaunchGraph
