import LaunchGraph.Proofs.Lives
import LaunchGraph.Proofs.Runs

/-!
# The log of what is handed over

Waiting for an event, launching, creating an event and recording it are the calls by which work is
handed to a device.  A context makes them when the turn of a vertex comes and at no other time, so
its log of these calls is made of one block for each turn (`Context.handover`), one after the
other, in the order of the vertices (`Context.issue_log`).

Everything else a context does is quiet (`Context.quiet_prepare`): it looks at the device, keeps
its books, makes and gives back streams and events, and lets the device run.
-/

namespace LaunchGraph

/-- The call is one of those by which work is handed to a device. -/
def Call.isHandover : Call → Bool
  | .waitEvent .. | .issue .. | .createEvent | .recordEvent .. => true
  | _ => false

namespace Device

/-- The calls by which work has been handed to the device, oldest first. -/
def issueLog (d : Device) : List Call := d.calls.filter Call.isHandover

/-- The step hands no work to the device. -/
abbrev Quiet {α : Type} (x : Action Device α) : Prop := x.Keeps issueLog

theorem quiet_checkFault (m : Method) : Quiet (checkFault m) := by
  intro d
  refine ⟨?_, fun _ _ => trivial⟩
  unfold Action.run checkFault
  split <;> rfl

theorem quiet_onMachine {α : Type} (x : Action Machine α) : Quiet (onMachine x) :=
  fun _ => ⟨rfl, fun _ _ => trivial⟩

theorem quiet_call {α : Type} {entry : Call} (h : entry.isHandover = false) (m : Method)
    (x : Action Machine α) : Quiet (call m entry x) := by
  refine (quiet_checkFault m).seq fun _ => .bind (.modify fun d => ?_) fun _ _ =>
    quiet_onMachine x
  simp [issueLog, h]

theorem quiet_eventStatus (e : EventId) : Quiet (eventStatus e) :=
  (quiet_checkFault _).seq fun _ => quiet_onMachine _

/-- A command that leaves streams and events to the context is quiet. -/
theorem quiet_perform {command : Command} (h : command.isContained = true) :
    Quiet (perform command) := by
  cases command with
  | step => exact fun _ => ⟨rfl, fun _ _ => trivial⟩
  | runUntilIdle => exact (quiet_onMachine _).seq fun _ => .done _
  | rejectLaunches | failExecutions | limitStreams =>
      exact .modify_seq (fun _ => rfl) <| .done _
  | isAllocated b => exact (Action.Keeps.gets _).seq fun _ => .done _
  | eventStatus e => exact (quiet_eventStatus e).seq fun _ => .done _
  | syncStream | syncDevice | allocate | free =>
      exact (quiet_call rfl _ _).seq fun _ => .done _
  | _ => cases h

end Device

namespace Scheduler

/-- The step hands no work to the device. -/
abbrev Quiet {α : Type} (x : Action Scheduler α) : Prop := x.Keeps fun s => s.device.issueLog

theorem quiet_onDevice {α : Type} {x : Action Device α} (h : Device.Quiet x) : Quiet (onDevice x) :=
  h.zoom (fun _ _ => rfl) fun _ => rfl

theorem quiet_modifyDag (f : Dag → Dag) : Quiet (modifyDag f) := .modify fun _ => rfl

theorem quiet_modifyPool (f : StreamPool → StreamPool) : Quiet (modifyPool f) := .modify fun _ => rfl

theorem quiet_append (e : Element) : Quiet (append e) := by
  intro s
  refine ⟨?_, fun _ _ => trivial⟩
  unfold Action.run append
  split <;> rfl

theorem quiet_acquire : Quiet acquire :=
  keeps_acquire (fun _ _ => rfl) (quiet_onDevice (Device.quiet_call rfl _ _))

theorem quiet_assign (v : VertexId) : Quiet (assign v) := by
  refine (keeps_element v).seq fun _ => (Action.Keeps.gets _).seq fun s => ?_
  have hbind : ∀ stream, Quiet (do
      modifyPool fun pool => pool.bind stream v
      modifyDag fun d => d.modifyElement v fun e => e.bind stream
      pure stream) := fun stream =>
    (quiet_modifyPool _).seq fun _ => (quiet_modifyDag _).seq fun _ => .done _
  dsimp only
  split
  · exact (Action.Keeps.done _).seq hbind
  · exact quiet_acquire.seq hbind

theorem quiet_releaseEvent (e : EventId) : Quiet (releaseEvent e) :=
  keeps_releaseEvent (fun _ _ => rfl) (quiet_onDevice (Device.quiet_call rfl _ _))

theorem quiet_cleanup : Quiet cleanup :=
  keeps_cleanup (fun _ _ => rfl) (fun _ => quiet_onDevice (Device.quiet_call rfl _ _))
    fun _ => quiet_onDevice (Device.quiet_call rfl _ _)

end Scheduler

namespace Context

/-- The step hands no work to the device. -/
abbrev Quiet {α : Type} (x : Action Context α) : Prop := x.Keeps fun c => c.device.issueLog

theorem quiet_onScheduler {α : Type} {x : Action Scheduler α} (h : Scheduler.Quiet x) :
    Quiet (onScheduler x) :=
  h.zoom (fun _ _ => rfl) fun _ => rfl

theorem quiet_onDevice {α : Type} {x : Action Device α} (h : Device.Quiet x) : Quiet (onDevice x) :=
  quiet_onScheduler (Scheduler.quiet_onDevice h)

/-! ### Looking at the device -/

theorem quiet_observe : Quiet observe :=
  Detached.observe
    { ofEq := fun _ _ hdevice _ => congrArg Device.issueLog hdevice
      eventStatus := fun e => quiet_onDevice (Device.quiet_eventStatus e)
      releaseEvent := fun e => quiet_onScheduler (Scheduler.quiet_releaseEvent e) }

theorem quiet_syncStream (t : StreamId) : Quiet (onDevice (Device.syncStream t)) :=
  quiet_onDevice (Device.quiet_call rfl _ _)

theorem quiet_syncDevice : Quiet (onDevice Device.syncDevice) :=
  quiet_onDevice (Device.quiet_call rfl _ _)

/-! ### Between the turns -/

theorem quiet_enroll (e : Element) : Quiet (enroll e) := by
  refine (quiet_onScheduler (Scheduler.quiet_append e)).seq fun v =>
    (quiet_onScheduler (Scheduler.quiet_assign v)).attempt.seq fun out => ?_
  cases out with
  | error error =>
      refine Action.Keeps.bind (Action.Keeps.modify fun c => ?_) fun _ _ => .fail error
      exact congrArg Device.issueLog (device_failVertex c v _)
  | ok stream =>
      exact Action.Keeps.bind (Q := fun _ => True) (fun _ => ⟨rfl, fun _ _ => trivial⟩)
        fun _ _ => .done _

/-- What is left to do after the turns is quiet. -/
def QuietAfter (out : List VertexId × Action Context Reply) : Prop := Quiet out.2

theorem quiet_admission (e : Element) :
    (admission e).Keeps (fun c => c.device.issueLog) QuietAfter := by
  refine quiet_observe.seq fun _ => (quiet_enroll e).seq fun out => .pure ?_
  obtain ⟨v, stream, ready⟩ := out
  change Quiet _
  cases e.work.blocksHost with
  | false => exact .done _
  | true =>
      refine (keeps_element v).seq fun el => ?_
      cases el.isTerminal with
      | true => exact .done _
      | false =>
          exact (quiet_syncStream stream).seq fun _ => quiet_observe.seq fun _ => .done _

/-- Preparing to hand over nothing is quiet. -/
theorem quiet_nothing {rest : Action Context Reply} (h : Quiet rest) :
    (pure ([], rest) : Action Context (List VertexId × Action Context Reply)).Keeps
      (fun c => c.device.issueLog) QuietAfter :=
  .pure h

/-- Preparing to hand over what is held back is quiet. -/
theorem quiet_drain {rest : Action Context Reply} (h : Quiet rest) :
    (do
      let ready ← (do observe; drainQueue)
      pure (ready, rest) : Action Context _).Keeps (fun c => c.device.issueLog) QuietAfter := by
  have hdrain : Quiet drainQueue := fun _ => ⟨rfl, fun _ _ => trivial⟩
  exact (quiet_observe.seq fun _ => hdrain).seq fun _ => .pure h

theorem quiet_verdict (v : VertexId) : Quiet (do
    let e ← element v
    if e.isTerminal then pure ()
    else
      match e.stream with
      | some stream => onDevice (Device.syncStream stream)
      | none => pure ()
      observe
    let e ← element v
    Action.ofExcept (verdict v e)
    pure .done : Action Context Reply) := by
  have hverdict : Quiet (do
      let e ← element v
      Action.ofExcept (verdict v e)
      pure .done : Action Context Reply) :=
    (keeps_element v).seq fun _ => (Action.Keeps.ofExcept _).seq fun _ => .done _
  refine (keeps_element v).seq fun e => ?_
  cases e.isTerminal with
  | true => exact hverdict
  | false =>
      cases e.stream with
      | none => exact quiet_observe.seq fun _ => hverdict
      | some stream =>
          exact (quiet_syncStream stream).seq fun _ => quiet_observe.seq fun _ => hverdict

theorem quiet_allocateArray (type : ElementType) (length : Nat) :
    Quiet (allocateArray type length) := by
  refine Action.Keeps.bind (Q := fun _ => True) (quiet_onDevice ?_) fun a _ =>
    .bind (.modify fun _ => rfl) fun _ _ => .done _
  have hcall : Device.Quiet (do
      let buffer ← Device.allocate (type.size * length)
      pure (⟨buffer, type, length⟩ : DeviceArray)) :=
    (Device.quiet_call rfl _ _).seq fun _ => .done _
  exact hcall.fail_if.fail_if

theorem quiet_declareKernel (name signature : String) : Quiet (declareKernel name signature) := by
  have hnew : Quiet (newKernel name signature) :=
    (Action.Keeps.gets _).seq fun _ => (Action.Keeps.ofExcept _).seq fun _ =>
      .modify_seq (fun _ => rfl) <| .done _
  exact hnew.seq fun _ => .modify_seq (fun _ => rfl) <| .done _

/-- **Between the turns a command is quiet**: it hands no work to the device before the first turn,
nor after the last. -/
theorem quiet_prepare {command : Command} (h : command.Contained) :
    (prepare command).Keeps (fun c => c.device.issueLog) QuietAfter := by
  cases command with
  | register e => exact quiet_admission e
  | launch id config values =>
      refine (Action.Keeps.gets _).seq fun k => ?_
      cases k with
      | none => exact .fail _
      | some k =>
          exact (Action.Keeps.ofExcept _).seq fun out =>
            .modify_seq (fun _ => rfl) <| quiet_admission out.1
  | access a write => exact .modify_seq (fun _ => rfl) <| quiet_admission _
  | flush => exact quiet_drain (.done _)
  | wait v => exact quiet_drain (quiet_verdict v)
  | synchronize =>
      exact quiet_drain ((quiet_syncDevice.seq fun _ => quiet_observe).seq fun _ =>
        .done _)
  | cleanup =>
      have hgive : Quiet (do onScheduler Scheduler.cleanup; pure Reply.done) :=
        (quiet_onScheduler Scheduler.quiet_cleanup).seq fun _ => .done _
      refine (Action.Keeps.gets _).seq fun b => ?_
      cases b with
      | false => exact quiet_nothing hgive
      | true =>
          exact quiet_drain ((quiet_syncDevice.seq fun _ => quiet_observe).seq fun _ => hgive)
  | allocate type length =>
      exact quiet_nothing ((quiet_allocateArray type length).seq fun _ => .done _)
  | declare name signature =>
      exact quiet_nothing ((quiet_declareKernel name signature).seq fun _ => .done _)
  | registerArray | registerKernel =>
      exact quiet_nothing (.modify_seq (fun _ => rfl) <| .done _)
  | state v =>
      exact quiet_nothing ((quiet_observe.seq fun _ => (keeps_element v).seq fun _ =>
        .done _).seq fun _ => .done _)
  | isActive =>
      exact quiet_nothing ((quiet_observe.seq fun _ => Action.Keeps.gets _).seq fun _ => .done _)
  | hasPending | summary => exact quiet_nothing ((Action.Keeps.gets _).seq fun _ => .done _)
  | device command =>
      exact quiet_nothing ((quiet_onDevice (Device.quiet_perform h)).seq fun _ => .done _)

/-! ### Turns -/

/-- The turns of a command that is carried out in context `c`. -/
def turnsOf (c : Context) (command : Command) : List (VertexId × Context) :=
  ((prepare command).run c).2.turnsFrom (readyVertices ((prepare command).run c).1)

/-- The turns of some commands that are carried out one after the other, from context `c` on. -/
def turns (c : Context) : List Command → List (VertexId × Context)
  | [] => []
  | command :: rest => c.turnsOf command ++ turns ((perform command).run c).2 rest

/-- When its turn comes, vertex `v` has a stream, unless it is over, and every parent that is
running has an event to wait for. -/
structure AtTurn (c : Context) (v : VertexId) : Prop where
  bound : ∃ el, c.dag.element? v = some el ∧ (el.isTerminal = false → el.stream.isSome = true)
  parents : ∀ p ∈ c.dag.parentVertices v, ∀ x, c.dag.element? p = some x → x.state = .running →
    x.event.isSome = true

/-- A block holds nothing but calls that hand over work. -/
theorem filter_handover (c : Context) (v : VertexId) :
    (c.handover v).filter Call.isHandover = c.handover v := by
  refine List.filter_eq_self.mpr fun call hcall => ?_
  unfold handover at hcall
  split at hcall
  · cases hcall
  · split at hcall
    · cases hcall
    · split at hcall
      · cases hcall
      · rcases List.mem_append.mp hcall with hwait | hcall
        · obtain ⟨e, -, rfl⟩ := List.mem_map.mp hwait
          rfl
        · rcases List.mem_cons.mp hcall with rfl | hcall
          · rfl
          · split at hcall
            · cases hcall
            · rcases List.mem_pair.mp hcall with rfl | rfl <;> rfl

theorem filter_handovers (turns : List (VertexId × Context)) :
    (handovers turns).filter Call.isHandover = handovers turns := by
  induction turns with
  | nil => rfl
  | cons turn rest ih => rw [handovers_cons, List.filter_append, filter_handover, ih]

end Context

namespace Stage

variable {P : Rules} {s t : Stage}

/-- The turn of vertex `v` is past. -/
def Past (s : Stage) (v : VertexId) : Prop := v < s.dag.vertices.length ∧ ∀ w ∈ s.held, v < w

/-- What is past stays past: what is held back later is held back now, or new. -/
theorem Coherent.past_move (h : s.Coherent) {v : VertexId} (hv : s.Past v) (hm : Move P s t) :
    t.Past v := by
  refine ⟨Nat.lt_of_lt_of_le hv.1 (h.grows hm).dag.length, fun w hw => ?_⟩
  rcases h.held_cases hm hw with hw | rfl
  · exact hv.2 w hw
  · exact hv.1

theorem Coherent.past_steps (h : s.Coherent) {v : VertexId} (hv : s.Past v) (hm : Steps P s t) :
    t.Past v := by
  refine h.invariant (I := fun s => s.Past v) (fun _ _ hs hv hm => hs.past_move hv hm)
    (fun s t hv hdisturbance => ?_) hv hm
  unfold Past held at hv ⊢
  rw [hdisturbance.dag, hdisturbance.due, hdisturbance.queue]
  exact hv

/-- The vertex whose turn it is comes after all whose turn is past. -/
theorem Past.lt {u v : VertexId} (hu : s.Past u) (hv : v ∈ s.due) : u < v :=
  hu.2 v (List.mem_append_left _ hv)

theorem Coherent.atTurn (h : s.Coherent) {v : VertexId} {rest : List VertexId}
    (hd : s.due = v :: rest) : s.toContext.AtTurn v := by
  obtain ⟨el, hel⟩ := h.element_of_due hd
  refine ⟨⟨el, hel, fun ht => ?_⟩, fun p _ x hx hr => ?_⟩
  · obtain ⟨t, hstream, -⟩ := h.owned.bound v el hel ht
    simp [hstream]
  · obtain ⟨e, he, -⟩ := h.timeline.event_of_running p x hx hr
    simp [he]

/-- Every turn finds the context as it should be. -/
theorem Coherent.atTurn_turnsFrom (h : s.Coherent) {ready rest : List VertexId}
    (ho : ready ≠ [] → s.Observed) (hd : s.due = ready ++ rest) :
    ∀ turn ∈ s.toContext.turnsFrom ready, turn.2.AtTurn turn.1 := by
  induction ready generalizing s with
  | nil => exact fun _ hmem => nomatch hmem
  | cons v more ih =>
      obtain ⟨r, t, hrun, hmoves, -, hdue⟩ :=
        h.issueVertex (P := { admits := fun _ _ => True }) (ho (by simp)) hd trivial
      rw [Context.turnsFrom, hrun]
      refine List.forall_mem_cons.mpr ⟨h.atTurn hd, ?_⟩
      exact ih (h.moves hmoves) (fun _ => hdue.observed) hdue.due

/-- What the turns of a command do: from stage `s` on they are those of `ready`, in order and after
all that is past, each is found as it should be, and in stage `t` they are past. -/
structure TakesTurns (s : Stage) (turns : List (VertexId × Context)) (t : Stage) : Prop where
  log : t.device.issueLog = s.device.issueLog ++ Context.handovers turns
  sorted : (turns.map Prod.fst).Pairwise (· < ·)
  later : ∀ v ∈ turns.map Prod.fst, ∀ u, s.Past u → u < v
  past : ∀ v ∈ turns.map Prod.fst, t.Past v
  atTurn : ∀ turn ∈ turns, turn.2.AtTurn turn.1

theorem TakesTurns.nothing (hlog : t.device.issueLog = s.device.issueLog) : TakesTurns s [] t :=
  ⟨by rw [hlog]; exact (List.append_nil _).symm, .nil, nofun, nofun, nofun⟩

/-- What is prepared is carried out by taking turns. -/
theorem Prepared.takesTurns {t u w : Stage} {ready : List VertexId}
    {rest : Action Context Context.Reply} (hp : Prepared P t ready rest) (h : t.Coherent)
    (hmoves : Moves P t u) (hdue : u.due = []) (hqueue : u.queue = t.queue)
    (hcalls : u.device.calls = t.device.calls ++ Context.handovers (t.toContext.turnsFrom ready))
    (hlog : w.device.issueLog = u.device.issueLog) (hmoves' : Moves P u w) :
    TakesTurns t (t.toContext.turnsFrom ready) w := by
  have hheld : t.held = ready ++ t.queue.pending := by rw [held, hp.due]
  have hsorted := h.agenda.held_sorted
  rw [hheld, List.pairwise_append] at hsorted
  refine ⟨?_, ?_, ?_, ?_, h.atTurn_turnsFrom hp.observed (by rw [hp.due, List.append_nil])⟩
  · rw [hlog, Device.issueLog, hcalls, List.filter_append, Context.filter_handovers]
    rfl
  all_goals rw [Context.map_fst_turnsFrom]
  · exact hsorted.1
  · exact fun v hv u hu => hu.lt (hp.due ▸ hv)
  · intro v hv
    obtain ⟨el, hel⟩ := h.element_of_held (hheld ▸ List.mem_append_left _ hv)
    have hlt := Dag.lt_of_element? hel
    -- behind the last turn only what is still in the queue is held back
    have hpast : u.Past v := by
      refine ⟨Nat.lt_of_lt_of_le hlt (h.grows_steps hmoves.steps).dag.length, fun w hw => ?_⟩
      rw [held, hdue, hqueue] at hw
      exact hsorted.2.2 v hv w hw
    exact (h.moves hmoves).past_steps hpast hmoves'.steps

/-- **The turns of a command** leave one block each in the log, and nothing else does. -/
theorem Coherent.takesTurns (h : s.Coherent) (hd : s.due = []) {command : Context.Command}
    (hc : command.Contained) :
    ∃ t, ((Context.perform command).run s.toContext).2 = Stage.toContext t ∧
      Steps { admits := fun _ _ => True } s t ∧ t.due = [] ∧
      TakesTurns s (s.toContext.turnsOf command) t := by
  by_cases hcalm : command.isCalm = true
  · obtain ⟨r, t, hrun, hmoves, hprepares⟩ :=
      h.prepare (P := { admits := fun _ _ => True }) hd hc hcalm fun _ _ _ _ => trivial
    obtain ⟨hlog, hrest⟩ := Context.quiet_prepare hc s.toContext
    rw [hrun] at hlog hrest
    rcases hprepares with ⟨ready, rest, rfl, hp⟩ | ⟨e, rfl, hdue, -⟩
    · have ht := h.moves hmoves
      obtain ⟨u, r, w, hissue, hmoves₁, hdue, hqueue, hcalls, hrun', hmoves₂, hrests⟩ :=
        hp.carryOut ht fun _ _ _ _ _ _ => trivial
      have hquiet := (hrest _ rfl u.toContext).1
      rw [hrun'] at hquiet
      have hturns : s.toContext.turnsOf command = t.toContext.turnsFrom ready := by
        rw [Context.turnsOf, hrun]
        rfl
      have htakes := hp.takesTurns ht hmoves₁ hdue hqueue hcalls hquiet hmoves₂
      refine ⟨w, ?_, hmoves.steps.trans (hmoves₁.steps.trans hmoves₂.steps), hrests.1,
        hturns ▸ ?_⟩
      · rw [Context.perform_eq_prepare, Action.run_bind_ok hrun]
        dsimp only
        rw [Action.run_bind_ok hissue, hrun']
      · exact ⟨htakes.log.trans (congrArg (· ++ _) hlog), htakes.sorted,
          fun v hv u hu => htakes.later v hv u (h.past_steps hu hmoves.steps), htakes.past,
          htakes.atTurn⟩
    · have hturns : s.toContext.turnsOf command = [] := by
        rw [Context.turnsOf, hrun]
        rfl
      refine ⟨t, ?_, hmoves.steps, hdue, hturns ▸ .nothing hlog⟩
      rw [Context.perform_eq_prepare, Action.run_bind_error hrun]
  · cases command with
    | device command =>
        obtain ⟨r, t, hrun, hsteps, hdue, -⟩ :=
          h.perform_steps (P := fun _ _ => True) hd hc fun _ _ _ _ => trivial
        have hquiet : Context.Quiet (Context.perform (.device command)) :=
          (Context.quiet_onDevice (Device.quiet_perform hc)).seq fun _ => .done _
        obtain ⟨hlog, -⟩ := hquiet s.toContext
        rw [hrun] at hlog
        exact ⟨t, by rw [hrun], hsteps, hdue, .nothing hlog⟩
    | _ => exact absurd rfl hcalm

/-- **The turns of a run** come in order, and each leaves one block in the log. -/
theorem Coherent.takesTurns_after (h : s.Coherent) (hd : s.due = [])
    {commands : List Context.Command} (hc : ∀ command ∈ commands, command.Contained) :
    ∃ t, s.toContext.after commands = Stage.toContext t ∧
      Steps { admits := fun _ _ => True } s t ∧ t.due = [] ∧
      TakesTurns s (s.toContext.turns commands) t := by
  induction commands generalizing s with
  | nil => exact ⟨s, rfl, .refl, hd, .nothing rfl⟩
  | cons command rest ih =>
      obtain ⟨t, hrun, hsteps, hdue, hfirst⟩ := h.takesTurns hd (hc command List.mem_cons_self)
      have ht := h.steps hsteps
      obtain ⟨u, hrun', hsteps', hdue', hmore⟩ :=
        ih ht hdue fun x hx => hc x (List.mem_cons_of_mem _ hx)
      have hturns : s.toContext.turns (command :: rest) =
          s.toContext.turnsOf command ++ t.toContext.turns rest := by rw [Context.turns, hrun]
      refine ⟨u, ?_, hsteps.trans hsteps', hdue', hturns ▸ ?_⟩
      · rw [← hrun', ← hrun]
        rfl
      · refine ⟨?_, ?_, fun v hv w hw => ?_, fun v hv => ?_, fun turn hturn => ?_⟩
        · rw [hmore.log, hfirst.log, Context.handovers_append, List.append_assoc]
        · rw [List.map_append, List.pairwise_append]
          exact ⟨hfirst.sorted, hmore.sorted, fun v hv w hw => hmore.later w hw v (hfirst.past v hv)⟩
        · rw [List.map_append, List.mem_append] at hv
          rcases hv with hv | hv
          · exact hfirst.later v hv w hw
          · exact hmore.later v hv w (h.past_steps hw hsteps)
        · rw [List.map_append, List.mem_append] at hv
          rcases hv with hv | hv
          · exact ht.past_steps (hfirst.past v hv) hsteps'
          · exact hmore.past v hv
        · rcases List.mem_append.mp hturn with hturn | hturn
          · exact hfirst.atTurn turn hturn
          · exact hmore.atTurn turn hturn

end Stage

namespace Context

/-- **The log of a run is made of its turns.**  The calls by which work was handed to the device are
those of the turns, block by block; the turns come in the order of the vertices, so no vertex has
two and none overtakes another; and each finds the vertex with a stream, or over, and its running
parents with their events. -/
theorem issue_log (options : ContextOptions) (commands : List Command)
    (hc : ∀ command ∈ commands, command.Contained) :
    (ran options commands).device.issueLog = handovers ((new options {}).turns commands) ∧
      (((new options {}).turns commands).map Prod.fst).Pairwise (· < ·) ∧
      ∀ turn ∈ (new options {}).turns commands, turn.2.AtTurn turn.1 := by
  obtain ⟨t, hran, -, -, htakes⟩ := (Stage.Coherent.initial options).takesTurns_after rfl hc
  refine ⟨?_, htakes.sorted, htakes.atTurn⟩
  exact (congrArg (fun c => c.device.issueLog) hran).trans htakes.log

/-- The launch on the arrays of both is refused, and another one depends on it. -/
def refusedJoin : List Command :=
  fork ++ [.device (.rejectLaunches "join"), join,
    .register (.new (.launch 4 "next" {}) [.array .float 0 false])]

/-- The two that are accepted leave blocks with an event each, the one that is refused leaves its
waits and its launch, and the one that depends on it leaves nothing when its turn comes. -/
theorem issue_log_refusedJoin :
    ((new {} {}).turns refusedJoin).map (fun turn => (turn.1, turn.2.handover turn.1)) =
      [(0, [.issue "left" 0, .createEvent, .recordEvent 0 0]),
       (1, [.issue "right" 1, .createEvent, .recordEvent 1 1]),
       (2, [.waitEvent 2 0, .waitEvent 2 1, .issue "join" 2]), (3, [])] ∧
      (ran {} refusedJoin).device.issueLog =
        [.issue "left" 0, .createEvent, .recordEvent 0 0, .issue "right" 1, .createEvent,
         .recordEvent 1 1, .waitEvent 2 0, .waitEvent 2 1, .issue "join" 2] := by
  have hc : ∀ command ∈ refusedJoin, command.Contained := by
    simp only [refusedJoin, fork, join, List.cons_append, List.nil_append, List.forall_mem_cons]
    exact ⟨rfl, rfl, (contained_new _ _).1, (contained_new _ _).1, rfl, (contained_new _ _).1,
      (contained_new _ _).1, by simp⟩
  refine ⟨by decide +kernel, ?_⟩
  rw [(issue_log {} refusedJoin hc).1]
  decide +kernel

end Context

end LaunchGraph
