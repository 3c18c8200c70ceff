import LaunchGraph.Proofs.Growth
import LaunchGraph.Proofs.Handover
import LaunchGraph.Proofs.Observe

/-!
# Operations as moves

Every operation of a context, started where nothing is due, is a sequence of moves, and ends where
nothing is due.  The operations call the device only in ways it accepts: issuing, flushing,
synchronizing and cleaning up never fail, and registering fails only where the device makes no
more streams.
-/

namespace LaunchGraph

/-- A sign of a device that is stuck. -/
def Halt.IsStall : Halt → Prop
  | .error (.device (.stalled _)) => True
  | .error (.device (.streamStalled _ _)) => True
  | _ => False

namespace Context

/-- The part of registering that makes an element a vertex with a stream, and takes what is to be
issued. -/
def enroll (e : Element) : Action Context (VertexId × StreamId × List VertexId) := do
  let v ← onScheduler (Scheduler.append e)
  match ← Action.attempt (onScheduler (Scheduler.assign v)) with
  | .error error =>
      Action.modify fun c => c.failVertex v (.launch error.message)
      Action.fail error
  | .ok stream =>
      let ready ← enqueue v e.work.blocksHost
      pure (v, stream, ready)

end Context

namespace Stage

variable {P : Rules}

/-- The step `x` leads from stage `s`, by moves, to a stage and a result of which `Q` holds. -/
def Leads {α : Type} (P : Rules) (s : Stage) (x : Action Context α)
    (Q : Except Halt α → Stage → Prop) : Prop :=
  ∃ r t, x.run s.toContext = (r, Stage.toContext t) ∧ Moves P s t ∧ Q r t

namespace Leads

variable {α β : Type} {s : Stage}

theorem bind {x : Action Context α} {f : α → Action Context β}
    {Q : Except Halt α → Stage → Prop} {R : Except Halt β → Stage → Prop} (hx : Leads P s x Q)
    (hok : ∀ a t, Moves P s t → Q (.ok a) t → Leads P t (f a) R)
    (herror : ∀ e t, Moves P s t → Q (.error e) t → R (.error e) t) : Leads P s (x >>= f) R := by
  obtain ⟨r, t, hrun, hmoves, hq⟩ := hx
  cases r with
  | ok a =>
      obtain ⟨r', t', hrun', hmoves', hr⟩ := hok a t hmoves hq
      exact ⟨r', t', by rw [Action.run_bind_ok hrun, hrun'], hmoves.trans hmoves', hr⟩
  | error e => exact ⟨.error e, t, Action.run_bind_error hrun, hmoves, herror e t hmoves hq⟩

/-- What is done where no element is admitted can be done under any rules. -/
theorem of_closed {P : Stage → Element → Prop} {x : Action Context α}
    {Q : Except Halt α → Stage → Prop} (hx : Leads .closed s x Q) :
    Leads P s x fun r t => Moves .closed s t ∧ Q r t := by
  obtain ⟨r, t, hrun, hmoves, hq⟩ := hx
  exact ⟨r, t, hrun, hmoves.of_closed, hmoves, hq⟩

theorem imp {x : Action Context α} {Q R : Except Halt α → Stage → Prop} (hx : Leads P s x Q)
    (h : ∀ r t, Moves P s t → Q r t → R r t) : Leads P s x R := by
  obtain ⟨r, t, hrun, hmoves, hq⟩ := hx
  exact ⟨r, t, hrun, hmoves, h r t hmoves hq⟩

end Leads

/-- A result that is no sign of a device that is stuck. -/
def Unstalled {α : Type} (r : Except Halt α) : Prop := ∀ h, r = .error h → ¬ h.IsStall

theorem Unstalled.ok {α : Type} (a : α) : Unstalled (.ok a : Except Halt α) := by
  rintro h ⟨⟩

theorem Unstalled.error {α : Type} {h : Halt} (hs : ¬ h.IsStall) :
    Unstalled (.error h : Except Halt α) := by
  rintro _ ⟨⟩
  exact hs

/-- Nothing is due, and the device was not found stuck. -/
def Rests {α : Type} (r : Except Halt α) (t : Stage) : Prop := t.due = [] ∧ Unstalled r

theorem Leads.rests {α : Type} {s : Stage} {x : Action Context α}
    {Q : Except Halt α → Stage → Prop} (hx : Leads P s x Q)
    (h : ∀ r t, Q r t → (∃ a, r = .ok a) ∧ t.due = []) : Leads P s x Rests := by
  refine hx.imp fun r t _ hq => ?_
  obtain ⟨⟨a, rfl⟩, hdue⟩ := h r t hq
  exact ⟨hdue, .ok a⟩

/-! ### Issuing what is due -/

/-- What is left to be issued is `rest`, the device has not moved, and `calls` have been logged. -/
structure Due (s : Stage) (rest : List VertexId) (calls : List Call) (t : Stage) : Prop where
  due : t.due = rest
  queue : t.queue = s.queue
  observed : t.Observed
  calls : t.device.calls = s.device.calls ++ calls

theorem observed_of_eventIs {s t : Stage} (ho : s.Observed) (h : s.Coherent)
    (hrunning : ∀ v ∈ t.running, v ∈ s.running)
    (hevents : ∀ v ∈ t.running, ∀ st, s.EventIs v st → t.EventIs v st) : t.Observed := by
  intro v hv
  obtain ⟨el, e, hel, he, hp⟩ := ho v (hrunning v hv)
  have hr := (h.mem_running hel).mp (hrunning v hv)
  obtain ⟨x, a, hx, -, ha, hpa⟩ := hevents v hv .pending ⟨el, e, hel, hr, he, hp⟩
  exact ⟨x, a, hx, ha, hpa⟩

/-- A parent that cannot be waited for has failed. -/
theorem Coherent.parent_of_error {s : Stage} (h : s.Coherent) {v : VertexId}
    {rest : List VertexId} {t : StreamId} {error : Error} (hd : s.due = v :: rest)
    (hw : Scheduler.waitsFor s.dag v t (s.dag.parentVertices v) = .error error) :
    ∃ u, error = .parentFailed v u ∧ s.dag.isFailed u = true ∧ s.dag.HasEdge u v := by
  obtain ⟨u, hu, x, hx, hcase⟩ := Scheduler.waitsFor_error hw
  have huv := h.linked.mem_parentVertices.mp hu
  rcases hcase with ⟨rfl, hf⟩ | ⟨ht, hnone⟩
  · exact ⟨u, rfl, by simp [Dag.isFailed, hx, hf], huv⟩
  · -- a parent has been issued before `v` is due, so it has an event
    have hstarted := h.started_of_lt hd (h.linked.lt_of_hasEdge huv).1 hx
    obtain ⟨e, he, -⟩ :=
      h.timeline.event_of_running u x hx (Element.running_of_started hstarted ht)
    simp [hnone] at he

/-- After the work of a vertex is queued, its event is pending, and so are the others. -/
theorem Coherent.observed_issued {s : Stage} (h : s.Coherent) (ho : s.Observed) {v : VertexId}
    {el : Element} (hv : s.dag.element? v = some el) (hs : el.state = .scheduled) (t : StreamId)
    (waits : List EventId) : (s.issued v el t waits).Observed := by
  intro w hw
  rcases List.mem_append.mp hw with hw | hw
  · obtain ⟨x, e, hx, he, hp⟩ := ho w hw
    have hne : v ≠ w := by
      rintro rfl
      have := (h.mem_running hv).mp hw
      simp [hs] at this
    obtain ⟨t', -, hk⟩ := h.timeline.ticket w x e hx he
    have hevent : s.machine.nextEvent ≠ e := Nat.ne_of_gt (h.timeline.ledger.event_lt _ hk)
    refine ⟨x, e, by simp [issued, hne, hx], he, ?_⟩
    have hp' : s.device.machine.events.get? e = some .pending := hp
    simp [issued, Stage.machine, Machine.withWork, hevent, hp']
  · rw [List.mem_singleton.mp hw]
    exact ⟨el.start s.machine.nextEvent, s.machine.nextEvent, by simp [issued, hv], rfl,
      by simp [issued, Stage.machine, Machine.withWork]⟩

/-- Failing the first vertex that is due, in a stage `c` where it is not due any more: its
descendants fail with it. -/
theorem Coherent.failDue {s c : Stage} (h : s.Coherent) (ho : s.Observed) {v : VertexId}
    {el : Element} (hv : s.dag.element? v = some el) (ht : el.isTerminal = false)
    {cause : FailureCause} {calls : List Call} (hdag : c.dag = s.dag)
    (hevents : c.machine.events = s.machine.events) (hqueue : c.queue = s.queue)
    (hrunning : c.running = s.running) (hcalls : c.device.calls = s.device.calls ++ calls)
    (hmove : Move P s { c.failed v el cause with running := c.running.filter (· ≠ v) }) :
    ∃ t : Stage, c.toContext.failVertex v cause = t.toContext ∧ Moves P s t ∧
      Due s c.due calls t := by
  obtain ⟨t, heq, hmoves, hfades⟩ := Coherent.failVertex (P := P) (hdag ▸ hv) ht (h.move hmove)
  refine ⟨t, heq, .head hmove hmoves, hfades.due, hfades.queue.trans hqueue, fun w hw => ?_,
    (congrArg Device.calls hfades.device).trans hcalls⟩
  rw [hfades.running] at hw
  obtain ⟨hwr, hne⟩ := List.mem_filter.mp hw
  have hne : v ≠ w := by simpa using Ne.symm (of_decide_eq_true hne)
  obtain ⟨x, e, hx, he, hp⟩ := ho w (hrunning ▸ hwr)
  have hr := (h.mem_running hx).mp (hrunning ▸ hwr)
  obtain ⟨y, a, hy, -, ha, hpa⟩ := @Fades.eventIs _ _ hfades w .pending
    ⟨x, e, by simp [failed, hdag, hne, hx], hr, he, by rw [← hevents] at hp; exact hp⟩
  exact ⟨y, a, hy, ha, hpa⟩

section IssueVertex

variable {s : Stage} {v : VertexId} {el : Element} {t : StreamId} {waits : List EventId}

/-- A vertex with a failed parent fails. -/
theorem run_issueVertex_shunned (hv : s.dag.element? v = some el) (ht : el.isTerminal = false)
    (hstream : el.stream = some t) {u : VertexId}
    (hw : Scheduler.waitsFor s.dag v t (s.dag.parentVertices v) = .error (.parentFailed v u)) :
    (Context.issueVertex v).run s.toContext =
      (.ok (), s.toContext.failVertex v (.parent u)) := by
  rw [Context.issueVertex, Action.run_bind_ok (run_element hv), ht, if_neg (by simp),
    Action.run_bind_ok (Context.run_onScheduler (Scheduler.run_boundStream hv hstream)),
    Action.run_bind_ok (Action.run_attempt_error (Context.run_onScheduler
      (Scheduler.run_synchronizeParents_error hv hstream hw)))]
  rfl

/-- A vertex that the device refuses fails once its waits are queued. -/
theorem run_issueVertex_rejected (hf : s.device.faults = []) (hv : s.dag.element? v = some el)
    (ht : el.isTerminal = false) (hstream : el.stream = some t)
    (hlive : s.machine.streams.contains t = true)
    (hw : Scheduler.waitsFor s.dag v t (s.dag.parentVertices v) = .ok waits)
    (hr : s.machine.Refuses el) :
    ∃ error : Error, (Context.issueVertex v).run s.toContext = (.ok (), { s.toContext with
      device := s.device.after (launchCalls t waits el)
        (s.machine.extend t (waits.map .wait)) }.failVertex v (.launch error.message)) := by
  obtain ⟨error, herror⟩ := Machine.run_issue_error
    (m := s.machine.extend t (waits.map .wait)) hr t
  have hcall := Device.run_issue (d := s.device.after (waits.map (Call.waitEvent t))
    (s.machine.extend t (waits.map .wait))) hf herror
  rw [Device.after_after] at hcall
  refine ⟨error, ?_⟩
  rw [Context.issueVertex, Action.run_bind_ok (run_element hv), ht, if_neg (by simp),
    Action.run_bind_ok (Context.run_onScheduler (Scheduler.run_boundStream hv hstream)),
    Action.run_bind_ok (Action.run_attempt_ok (Context.run_onScheduler
      (Scheduler.run_synchronizeParents hf hv hstream hlive hw))),
    Action.run_bind_ok (Action.run_attempt_error (Context.run_onDevice hcall))]
  rfl

/-- A vertex that the device accepts is handed to it. -/
theorem run_issueVertex (hf : s.device.faults = []) (hv : s.dag.element? v = some el)
    (ht : el.isTerminal = false) (hstream : el.stream = some t)
    (hlive : s.machine.streams.contains t = true)
    (hw : Scheduler.waitsFor s.dag v t (s.dag.parentVertices v) = .ok waits)
    (hr : ¬ s.machine.Refuses el) :
    (Context.issueVertex v).run s.toContext = (.ok (), (s.issued v el t waits).toContext) := by
  have hissue := Machine.run_issue (m := s.machine.extend t (waits.map .wait)) hr
    (by simpa using hlive)
  have hcall := Device.run_issue (d := s.device.after (waits.map (Call.waitEvent t))
    (s.machine.extend t (waits.map .wait))) hf hissue
  rw [Device.after_after, Machine.extend_extend] at hcall
  have hrecord := Scheduler.run_recordCompletion (v := v) (e := el) (t := t)
    (s := { s.toScheduler with
      device := s.device.after (launchCalls t waits el) (s.machine.extend t
        (waits.map .wait ++ [.launch ⟨el.id, el.label,
          s.machine.failing.contains el.label⟩])) })
    hf hv hstream (by simpa using hlive)
  rw [Device.after_after, Device.machine_after, Machine.withRecord_extend] at hrecord
  rw [Context.issueVertex, Action.run_bind_ok (run_element hv), ht, if_neg (by simp),
    Action.run_bind_ok (Context.run_onScheduler (Scheduler.run_boundStream hv hstream)),
    Action.run_bind_ok (Action.run_attempt_ok (Context.run_onScheduler
      (Scheduler.run_synchronizeParents hf hv hstream hlive hw))),
    Action.run_bind_ok (Action.run_attempt_ok (Context.run_onDevice hcall))]
  exact Action.run_bind_ok (Action.run_attempt_ok (Context.run_onScheduler
    (c := { s.toContext with
      device := s.device.after (launchCalls t waits el) (s.machine.extend t
        (waits.map .wait ++ [.launch ⟨el.id, el.label,
          s.machine.failing.contains el.label⟩])) }) hrecord))

end IssueVertex

/-- **Issuing the first vertex that is due** never halts: the vertex has failed before, has a
failed parent, is refused by the device, or is handed to it. -/
theorem Coherent.issueVertex {s : Stage} (h : s.Coherent) (ho : s.Observed) {v : VertexId}
    {rest : List VertexId} (hd : s.due = v :: rest) (hP : P.hands s v) :
    Leads P s (Context.issueVertex v) fun r t =>
      r = .ok () ∧ Due s rest (s.toContext.handover v) t := by
  obtain ⟨el, hv⟩ := h.element_of_due hd
  cases ht : el.isTerminal with
  | true =>
      refine ⟨.ok (), { s with due := rest }, ?_, .single (.skip hd hv ht), rfl, rfl, rfl, ho,
        by simp [Context.handover_of_terminal hv ht]⟩
      rw [Context.issueVertex, Action.run_bind_ok (run_element hv), ht]
      rfl
  | false =>
      have hs := h.state_of_due hd hv ht
      obtain ⟨t, hstream, hlive⟩ := h.owned.bound v el hv ht
      cases hw : Scheduler.waitsFor s.dag v t (s.dag.parentVertices v) with
      | error error =>
          obtain ⟨u, rfl, hu, huv⟩ := h.parent_of_error hd hw
          have hcalls : s.device.calls = s.device.calls ++ s.toContext.handover v := by
            rw [Context.handover_of_failed hu (h.linked.mem_parentVertices.mpr huv),
              List.append_nil]
          obtain ⟨t', heq, hmoves, hdue⟩ := h.failDue (P := P) (c := { s with due := rest }) ho hv
            ht rfl rfl rfl rfl hcalls (.shun hd hv ht hu huv)
          exact ⟨.ok (), t', (run_issueVertex_shunned hv ht hstream hw).trans
            (congrArg (Prod.mk _) heq), hmoves, rfl, hdue⟩
      | ok waits =>
          by_cases hr : s.machine.Refuses el
          · obtain ⟨error, hrun⟩ :=
              run_issueVertex_rejected h.faults hv ht hstream hlive hw hr
            obtain ⟨t', heq, hmoves, hdue⟩ := h.failDue (P := P) (c := { s with
              device := s.device.after (launchCalls t waits el)
                (s.machine.extend t (waits.map .wait))
              due := rest }) ho hv ht rfl rfl rfl rfl
              (congrArg _ (h.handover_rejected hd hv ht hstream hw hr))
              (@Move.reject P s v rest el t waits error.message ho hd hv ht hstream hw hr hP)
            exact ⟨.ok (), t', hrun.trans (congrArg (Prod.mk _) heq), hmoves, rfl, hdue⟩
          · exact ⟨.ok (), { s.issued v el t waits with due := rest },
              run_issueVertex h.faults hv ht hstream hlive hw hr,
              .single (.issue ho hd hv ht hstream hw hr hP), rfl, rfl, rfl,
              h.observed_issued ho hv hs t waits,
              congrArg _ (h.handover_issued hd hv ht hstream hw hr)⟩

/-- The vertices of a list may be handed to the device one after the other. -/
def Rules.HandsAll (P : Rules) (c : Context) (ready : List VertexId) : Prop :=
  ∀ before v after t, ready = before ++ v :: after →
    (Action.each Context.issueVertex before).run c = (.ok (), Stage.toContext t) → P.hands t v

/-- The first vertices that are due are issued, each with its own calls, and the others stay
due. -/
theorem Coherent.issueAll {s : Stage} (h : s.Coherent) {ready rest : List VertexId}
    (ho : ready ≠ [] → s.Observed) (hd : s.due = ready ++ rest)
    (hP : P.HandsAll s.toContext ready) :
    Leads P s (Action.each Context.issueVertex ready) fun r t =>
      r = .ok () ∧ t.due = rest ∧ t.queue = s.queue ∧ (s.Observed → t.Observed) ∧
        t.device.calls = s.device.calls ++ Context.handovers (s.toContext.turnsFrom ready) := by
  induction ready generalizing s with
  | nil => exact ⟨.ok (), s, rfl, .refl, rfl, hd, rfl, id, (List.append_nil _).symm⟩
  | cons v more ih =>
      obtain ⟨r, t, hrun, hmoves, rfl, hdue⟩ :=
        h.issueVertex (ho (by simp)) hd (hP [] v more s rfl rfl)
      obtain ⟨r, u, hrun', hmoves', hr, hrest, hqueue, hobserved, hcalls⟩ :=
        ih (h.moves hmoves) (fun _ => hdue.observed) hdue.due fun before w after u heq hbefore =>
          hP (v :: before) w after u (by rw [heq, List.cons_append])
            (by rw [Action.run_each_cons, Action.run_bind_ok hrun, hbefore])
      refine ⟨r, u, ?_, hmoves.trans hmoves', hr, hrest, hqueue.trans hdue.queue,
        fun _ => hobserved hdue.observed, ?_⟩
      · rw [Action.run_each_cons, Action.run_bind_ok hrun, hrun']
      · rw [hcalls, hdue.calls, Context.turnsFrom, hrun, Context.handovers_cons, List.append_assoc]

/-! ### Looking at the device -/

theorem leads_observe {s : Stage} (h : s.Coherent) :
    Leads P s Context.observe fun r t => r = .ok () ∧ ∃ gone, Notices s gone t ∧ t.Observed := by
  obtain ⟨t, gone, hrun, hmoves, hnotices, ho⟩ := h.observe (P := P)
  exact ⟨.ok (), t, hrun, hmoves, rfl, gone, hnotices, ho⟩

/-- What is held back becomes due, after a look at the device. -/
theorem Coherent.drainQueue {s : Stage} (h : s.Coherent) (hd : s.due = []) :
    Leads P s (do Context.observe; Context.drainQueue) fun r t =>
      r = .ok t.due ∧ t.queue.pending = [] ∧ t.Observed := by
  refine (leads_observe h).bind ?_ (by rintro e t - ⟨hr, -⟩; cases hr)
  rintro _ t hmoves ⟨-, gone, hnotices, ho⟩
  have hdue : t.due = [] := hnotices.due.trans hd
  refine ⟨.ok t.queue.pending, { t with
    queue := t.queue.drain.2, due := t.due ++ t.queue.drain.1 }, rfl, .single .drain, ?_, rfl, ho⟩
  simp [hdue, IssueQueue.drain]

/-! ### Running the device -/

theorem moves_advances {s : Stage} {m m' : Machine} (h : Machine.Advances m m') :
    Moves P (s.onMachine m) (s.onMachine m') := by
  induction h with
  | refl => exact .refl
  | more ha _ ih => exact .head (.advance ha) ih

/-- The device advances, and calls are logged. -/
theorem moves_after {s : Stage} {m : Machine} (h : Machine.Advances s.machine m)
    (calls : List Call) : Moves P s { s with device := s.device.after calls m } := by
  have hmoves : Moves P s (s.onMachine m) := moves_advances (s := s) h
  refine hmoves.tail (.adjust ?_)
  exact ⟨rfl, rfl, rfl, rfl, rfl, rfl, rfl, ⟨rfl, rfl, rfl, rfl, rfl⟩, rfl, rfl, rfl,
    fun _ hb => hb⟩

/-- **The device runs until nothing is left.** -/
theorem Coherent.syncDevice {s : Stage} (h : s.Coherent) :
    Leads P s (Context.onDevice Device.syncDevice) fun r t =>
      r = .ok () ∧ t.due = s.due ∧ t.queue = s.queue ∧ t.machine.pendingOperations = 0 := by
  have horderly := h.timeline.ledger.orderly
  refine ⟨.ok (), { s with device := s.device.after [.syncDevice] s.machine.settle }, ?_,
    moves_after (Machine.advances_settle _) _, rfl, rfl, rfl, horderly.settle_pendingOperations⟩
  exact Context.run_onDevice (Device.run_call h.faults horderly.run_syncDevice)

/-- A stream that the device does not have cannot be drained. -/
theorem run_syncStream_unknown {m : Machine} {t : StreamId} (ht : m.streams.contains t = false) :
    (Machine.syncStream t).run m = (.error (.error (.unknownStream t)), m) := by
  have hnone := Table.get?_eq_none_iff.mpr ht
  simp only [Machine.syncStream, Action.run]
  cases m.pendingOperations <;> simp [Machine.drainWithin, hnone]

theorem adjusts_calls (s : Stage) (calls : List Call) :
    Adjusts s { s with device := s.device.after calls s.machine } :=
  ⟨rfl, rfl, rfl, rfl, rfl, rfl, rfl, ⟨rfl, rfl, rfl, rfl, rfl⟩, rfl, rfl, rfl, fun _ hb => hb⟩

/-- **A stream of the device can be drained**, if the device has it. -/
theorem Coherent.syncStream {s : Stage} (h : s.Coherent) (t : StreamId) :
    Leads P s (Context.onDevice (Device.syncStream t)) fun r u => u.due = s.due ∧ Unstalled r := by
  cases ht : s.machine.streams.contains t with
  | true =>
      obtain ⟨m, hrun, hadvances, -⟩ := h.timeline.ledger.orderly.run_syncStream ht
      exact ⟨.ok (), { s with device := s.device.after [.syncStream t] m },
        Context.run_onDevice (Device.run_call h.faults hrun), moves_after hadvances _, rfl, .ok _⟩
  | false =>
      exact ⟨_, { s with device := s.device.after [.syncStream t] s.machine },
        Context.run_onDevice (Device.run_call h.faults (run_syncStream_unknown ht)),
        .single (.adjust (adjusts_calls s _)), rfl, .error id⟩

/-- Where nothing is queued and the context has looked, nothing is running. -/
theorem Coherent.running_eq_nil {s : Stage} (h : s.Coherent) (ho : s.Observed)
    (hp : s.machine.pendingOperations = 0) : s.running = [] := by
  refine List.eq_nil_iff_forall_not_mem.mpr fun v hv => ?_
  obtain ⟨el, e, -, -, hpending⟩ := ho v hv
  obtain ⟨t, lane, hlane, hmem⟩ := h.timeline.ledger.orderly.queued_of_pending e hpending
  simp [Machine.pendingOperations_eq_zero.mp hp t lane hlane] at hmem

/-- Running the device until it is idle and looking at it: nothing is running then. -/
theorem Coherent.runAll {s : Stage} (h : s.Coherent) (hd : s.due = []) :
    Leads P s (do Context.onDevice Device.syncDevice; Context.observe) fun r t =>
      r = .ok () ∧ t.due = [] ∧ t.queue = s.queue ∧ t.running = [] := by
  refine h.syncDevice.bind ?_ (by rintro e t - ⟨hr, -⟩; cases hr)
  rintro _ t hmoves ⟨-, hdue, hqueue, hempty⟩
  have ht := h.moves hmoves
  refine (leads_observe ht).imp ?_
  rintro r u hmoves' ⟨hr, gone, hnotices, ho⟩
  refine ⟨hr, hnotices.due.trans (hdue.trans hd), hnotices.queue.trans hqueue, ?_⟩
  refine (ht.moves hmoves').running_eq_nil ho ?_
  rw [Machine.pendingOperations, hnotices.streams]
  exact hempty

/-- **Flushing succeeds**, and nothing is held back then. -/
theorem Coherent.flush {P : Stage → Element → Prop} {s : Stage} (h : s.Coherent)
    (hd : s.due = []) :
    Leads P s Context.flush fun r t => r = .ok () ∧ t.due = [] ∧ t.queue.pending = [] := by
  rw [show Context.flush = (do
    let ready ← (do Context.observe; Context.drainQueue)
    Action.each Context.issueVertex ready) from by simp only [Context.flush, bind_assoc]]
  refine (h.drainQueue hd).bind ?_ (by rintro e t - ⟨hr, -⟩; cases hr)
  rintro ready t hmoves ⟨hr, hpending, ho⟩
  obtain rfl : ready = t.due := Except.ok.inj hr
  refine ((h.moves hmoves).issueAll (fun _ => ho) (List.append_nil _).symm
    fun _ _ _ _ _ _ => trivial).imp ?_
  rintro r u - ⟨hr, hdue, hqueue, -⟩
  exact ⟨hr, hdue, by rw [hqueue, hpending]⟩

/-- **Synchronizing succeeds**, and everything that was registered is over then. -/
theorem Coherent.synchronize {P : Stage → Element → Prop} {s : Stage} (h : s.Coherent)
    (hd : s.due = []) :
    Leads P s Context.synchronize fun r t =>
      r = .ok () ∧ t.due = [] ∧ t.queue.pending = [] ∧ t.running = [] := by
  refine (h.flush hd).bind ?_ (by rintro e t - ⟨hr, -⟩; cases hr)
  rintro _ t hmoves ⟨-, hdue, hpending⟩
  refine ((h.moves hmoves).runAll hdue).imp ?_
  rintro r u - ⟨hr, hdue', hqueue, hrunning⟩
  exact ⟨hr, hdue', by rw [hqueue, hpending], hrunning⟩

/-- Streams and events are given back where nothing is left to do. -/
theorem Coherent.giveBack {s : Stage} (h : s.Coherent) (hd : s.due = [])
    (hpending : s.queue.pending = []) (hrunning : s.running = []) :
    Leads P s (Context.onScheduler Scheduler.cleanup) fun r t => r = .ok () ∧ t.due = [] := by
  have hrun := Scheduler.run_cleanup h.faults h.owned.slots h.owned.events
  exact ⟨.ok (), s.onScheduler _, Context.run_onScheduler hrun,
    .single (.cleanup hrunning hd hpending hrun), rfl, hd⟩

/-! ### Registering -/

/-- An element that is part of a graph already is not taken in again. -/
theorem run_append_error {c : Context} {e : Element} (he : e.id.isSome = true) :
    (Context.onScheduler (Scheduler.append e)).run c = (.error (.breach .registeredTwice), c) := by
  refine Context.run_onScheduler ?_
  simp [Scheduler.append, Action.run, Dag.append, he]

/-- An element that is not in use becomes a vertex. -/
theorem run_append {c : Context} {e : Element} {d : Dag} (hd : c.dag.append e = .ok d) :
    (Context.onScheduler (Scheduler.append e)).run c =
      (.ok c.dag.vertices.length, { c with dag := d }) := by
  refine Context.run_onScheduler ?_
  simp [Scheduler.append, Action.run, hd]

/-- Binding a vertex that waits for its turn leaves the running ones as they are. -/
theorem eventIs_assigned {s : Stage} {e : Element} {d : Dag} {t : StreamId}
    {sch : Scheduler} (ha : s.dag.Appended e d)
    (hs : Scheduler.Assigned { s.toScheduler with dag := d } s.dag.vertices.length t sch)
    {v : VertexId} {st : EventStatus} (hv : s.EventIs v st) : (s.onScheduler sch).EventIs v st := by
  obtain ⟨el, a, hel, hr, he, hst⟩ := hv
  obtain ⟨active, hel'⟩ := ha.element?_of_old hel
  have hne : s.dag.vertices.length ≠ v := Nat.ne_of_gt (Dag.lt_of_element? hel)
  refine ⟨{ el with active }, a, ?_, hr, he, ?_⟩
  · rw [onScheduler, hs.dag, Dag.element?_modifyElement, if_neg hne]
    exact hel'
  · rcases hs.machine with ⟨hm, -⟩ | ⟨hm, -⟩ <;>
      simpa [onScheduler, Stage.machine, hm, Machine.addStream] using hst

theorem run_enroll {c : Context} {e : Element} {d : Dag} {t : StreamId} {sch : Scheduler}
    (hd : c.dag.append e = .ok d)
    (ha : (Scheduler.assign c.dag.vertices.length).run { c.toScheduler with dag := d } =
      (.ok t, sch)) :
    (Context.enroll e).run c =
      (.ok (c.dag.vertices.length, t,
        (c.queue.register c.dag.vertices.length e.work.blocksHost).1), { c with
          toScheduler := sch
          queue := (c.queue.register c.dag.vertices.length e.work.blocksHost).2 }) := by
  rw [Context.enroll, Action.run_bind_ok (run_append hd), Action.run_bind_ok
    (Action.run_attempt_ok (Context.run_onScheduler (c := { c with dag := d }) ha))]
  rfl

/-- No stream can be had for element `e`: it becomes a vertex that has failed, and nothing else is
taken in. -/
structure TurnsAway (s : Stage) (e : Element) (n : Nat) (t : Stage) : Prop where
  limited : s.machine.streamLimit.isSome
  due : t.due = s.due
  queue : t.queue = s.queue
  length : t.dag.vertices.length = s.dag.vertices.length + 1
  element : t.dag.element? s.dag.vertices.length =
    some (Element.fail { e with id := some s.dag.vertices.length }
      (.launch (Error.device (.outOfStreams n)).message))

/-- **Taking in an element**: it becomes a vertex that is held back or due, or no stream can be
had for it. -/
theorem Coherent.enroll {s : Stage} (h : s.Coherent) (ho : s.Observed) {e : Element}
    (hu : e.Unused) (hP : P.admits s e) :
    Leads P s (Context.enroll e) fun r t =>
      (∃ stream ready, r = .ok (s.dag.vertices.length, stream, ready) ∧ t.due = s.due ++ ready ∧
        t.machine.streams.contains stream = true ∧ t.Observed ∧
        t.queue = (s.queue.register s.dag.vertices.length e.work.blocksHost).2 ∧
        t.dag.vertices.length = s.dag.vertices.length + 1 ∧
        t.dag.element? s.dag.vertices.length =
          some (Element.bind { e with id := some s.dag.vertices.length } stream)) ∨
      ∃ n, r = .error (.error (.device (.outOfStreams n))) ∧ TurnsAway s e n t := by
  obtain ⟨d, hd, happ⟩ := Dag.append_eq h.linked hu.id
  rcases Scheduler.run_assign (s := { s.toScheduler with dag := d }) h.faults happ.element?_new with
    ⟨t, sch, hrun, hassigned⟩ | ⟨n, sch, hrun, hlimited⟩
  · have hmove : Move P s _ := .enlist hu hP hd hrun
    have ht := h.move hmove
    refine ⟨_, _, run_enroll hd hrun, .single hmove, .inl ⟨t, _, rfl, rfl, ?_, ?_, rfl, ?_, ?_⟩⟩
    · rw [← ht.owned.slots]
      simp [hassigned.slots]
    · refine observed_of_eventIs ho h (fun _ hv => hv) fun v _ st hv => ?_
      exact eventIs_assigned happ hassigned hv
    · simp [hassigned.dag, happ.length]
    · simp [hassigned.dag, happ.element?_new]
  · have hmove : Move P s _ := .refuse hu hP hd hrun
    have hv : (s.onScheduler sch).dag.element? s.dag.vertices.length =
        some { e with id := some s.dag.vertices.length } := by
      rw [onScheduler, hlimited.dag]
      exact happ.element?_new
    -- the new vertex has no stream to release and is not among the running ones
    have heq : ({ (s.onScheduler sch).failed s.dag.vertices.length
        { e with id := some s.dag.vertices.length }
        (.launch (Error.device (.outOfStreams n)).message) with
          running := s.running.filter (· ≠ s.dag.vertices.length) } : Stage) =
        { s with toScheduler := { sch with
            dag := sch.dag.modifyElement s.dag.vertices.length fun e =>
              e.fail (.launch (Error.device (.outOfStreams n)).message) } } := by
      have hrunning : s.running.filter (· ≠ s.dag.vertices.length) = s.running := by
        refine List.filter_eq_self.mpr fun w hw => ?_
        simpa using Nat.ne_of_lt (Dag.lt_of_state? ((h.agenda.mem_running w).mp hw))
      rw [hrunning]
      simp [failed, onScheduler, StreamPool.releaseElement, hu.stream]
    have ht : ({ e with id := some s.dag.vertices.length } : Element).isTerminal = false := by
      simp [Element.isTerminal, hu.state, Lifecycle.isTerminal]
    obtain ⟨t, hfail, hmoves, hfades⟩ := Coherent.failVertex (P := P) hv ht
      (by simpa only [onScheduler] using heq ▸ h.move hmove)
    have hnew : (s.onScheduler sch).dag.vertices.length = s.dag.vertices.length + 1 := by
      rw [onScheduler, hlimited.dag]
      exact happ.length
    refine ⟨_, t, ?_, .head hmove (heq ▸ hmoves), .inr ⟨n, rfl, hlimited.limit, hfades.due,
      hfades.queue, hfades.length.trans (by simp [failed, hnew]),
      hfades.started _ _ (by simp [failed, hv]) rfl⟩⟩
    rw [Context.enroll, Action.run_bind_ok (run_append hd),
      Action.run_bind_ok (Action.run_attempt_error (Context.run_onScheduler
        (c := { s.toContext with dag := d }) hrun))]
    exact congrArg (Prod.mk _) hfail

/-! ### What a context does when nothing is due -/

/-- The step can be taken wherever nothing is due, and nothing is due afterwards. -/
def Steady {α : Type} (P : Rules) (x : Action Context α) : Prop :=
  ∀ s : Stage, s.Coherent → s.due = [] → Leads P s x Rests

namespace Steady

variable {α β : Type}

theorem pure (a : α) : Steady P (Pure.pure a : Action Context α) :=
  fun s _ hd => ⟨.ok a, s, rfl, .refl, hd, .ok a⟩

theorem bind {x : Action Context α} {f : α → Action Context β} (hx : Steady P x)
    (hf : ∀ a, Steady P (f a)) : Steady P (x >>= f) := by
  intro s h hd
  refine (hx s h hd).bind (fun a t hmoves ht => hf a t (h.moves hmoves) ht.1) ?_
  rintro e t - ⟨hdue, hr⟩
  exact ⟨hdue, .error (hr e rfl)⟩

theorem observe : Steady P Context.observe := by
  intro s h hd
  refine (leads_observe h).rests ?_
  rintro r t ⟨rfl, gone, hnotices, -⟩
  exact ⟨⟨(), rfl⟩, hnotices.due.trans hd⟩

theorem syncStream (t : StreamId) : Steady P (Context.onDevice (Device.syncStream t)) :=
  fun _ h hd => (h.syncStream t).imp fun _ _ _ hq => ⟨hq.1.trans hd, hq.2⟩

/-- A vertex that does not exist breaks the rules; nothing changes. -/
theorem element (v : VertexId) : Steady P (Context.element v) := by
  intro s _ hd
  cases hel : s.dag.element? v with
  | some el => exact ⟨_, s, run_element hel, .refl, hd, .ok _⟩
  | none =>
      refine ⟨.error (.breach (.noVertex v)), s, Context.run_onScheduler ?_, .refl, hd, .error id⟩
      simp only [Scheduler.element, Action.run_gets_bind, hel, Action.run_require_none]

theorem gets (f : Context → α) : Steady P (Action.gets f) :=
  fun s _ hd => ⟨_, s, rfl, .refl, hd, .ok _⟩

theorem ofExcept {x : Except Error α} (hx : ∀ e, x = .error e → ¬ (Halt.error e).IsStall) :
    Steady P (Action.ofExcept x : Action Context α) := by
  intro s _ hd
  cases x with
  | ok a => exact ⟨_, s, rfl, .refl, hd, .ok _⟩
  | error e => exact ⟨_, s, rfl, .refl, hd, .error (hx e rfl)⟩

end Steady

end Stage

end LaunchGraph
