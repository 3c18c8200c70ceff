import LaunchGraph.Proofs.Actions
import LaunchGraph.Proofs.Graph
import LaunchGraph.Proofs.Machine
import LaunchGraph.Context

/-!
# The scheduler — what its steps do on a device without planned faults

Where no fault is planned, a call does what the machine does, and is logged
(`Device.run_call`).  From that follow the effects of the steps of the scheduler: a vertex is bound
to a stream of the pool, which may be a new one, or the limit of the device is reached
(`Scheduler.run_assign`); waiting for the parents of a vertex queues waits
(`Scheduler.run_synchronizeParents`); recording the completion of a vertex makes a new event
(`Scheduler.run_recordCompletion`); and cleaning up gives back every stream and event
(`Scheduler.run_cleanup`).
-/

namespace LaunchGraph

namespace Machine

theorem run_push {m : Machine} {t : StreamId} (ht : m.streams.contains t = true) (op : Op) :
    (push t op).run m = (.ok (), m.extend t [op]) := by
  simp [push, Action.run, ht, enqueue, extend]

/-- Recording a known event on a known stream queues the recording, and the event is pending. -/
theorem run_recordEvent {m : Machine} {e : EventId} {t : StreamId}
    (he : m.events.contains e = true) (ht : m.streams.contains t = true) :
    (recordEvent e t).run m =
      (.ok (), { m.extend t [.record e] with events := m.events.insert e .pending }) := by
  simp only [recordEvent, Action.run_gets_bind, he, Bool.not_true, Bool.false_eq_true, if_false]
  rw [Action.run_bind_ok (run_push ht _)]
  rfl

/-- Work that the device does not refuse is queued. -/
theorem run_issue {m : Machine} {el : Element} {t : StreamId} (hr : ¬ m.Refuses el)
    (ht : m.streams.contains t = true) :
    (issue el t).run m =
      (.ok (), m.extend t [.launch ⟨el.id, el.label, m.failing.contains el.label⟩]) := by
  have hl : m.rejected.contains el.label = false := Bool.eq_false_iff.mpr fun h => hr (.inl h)
  have hb : m.missingBuffer? el.arguments = none :=
    Option.not_isSome_iff_eq_none.mp fun h => hr (.inr h)
  simp only [issue, Action.run_gets_bind, id, hl, hb, Bool.false_eq_true, if_false]
  exact run_push ht _

/-- Work that the device refuses is not queued. -/
theorem run_issue_error {m : Machine} {el : Element} (hr : m.Refuses el) (t : StreamId) :
    ∃ error, (issue el t).run m = (.error (.error error), m) := by
  by_cases hl : m.rejected.contains el.label = true
  · refine ⟨.device (.rejected el.label), ?_⟩
    simp only [issue, Action.run_gets_bind, id, hl, if_true]
    exact Action.run_bind_error (Action.run_fail _ _)
  · obtain ⟨b, hb⟩ := Option.isSome_iff_exists.mp (hr.resolve_left hl)
    refine ⟨.invalidBuffer b, ?_⟩
    simp only [issue, Action.run_gets_bind, id, hl, hb]
    exact Action.run_fail _ _

end Machine

namespace Device

/-- The device after some calls, which left the machine as `m`. -/
def after (d : Device) (calls : List Call) (m : Machine) : Device :=
  { d with calls := d.calls ++ calls, machine := m }

@[simp] theorem machine_after (d : Device) (calls : List Call) (m : Machine) :
    (d.after calls m).machine = m := rfl

@[simp] theorem faults_after (d : Device) (calls : List Call) (m : Machine) :
    (d.after calls m).faults = d.faults := rfl

@[simp] theorem after_after (d : Device) (calls calls' : List Call) (m m' : Machine) :
    (d.after calls m).after calls' m' = d.after (calls ++ calls') m' := by
  simp [after]

@[simp] theorem after_nil (d : Device) : d.after [] d.machine = d := by
  simp [after]

theorem run_checkFault {d : Device} (hf : d.faults = []) (method : Method) :
    (checkFault method).run d = (.ok (), d) := by
  simp [checkFault, Action.run, fault?, hf]

/-- Where no fault is planned, a call is logged and does what the machine does. -/
theorem run_call {α : Type} {d : Device} (hf : d.faults = []) {method : Method} {entry : Call}
    {x : Action Machine α} {r : Except Halt α} {m : Machine} (hx : x.run d.machine = (r, m)) :
    (call method entry x).run d = (r, d.after [entry] m) := by
  rw [call, Action.run_bind_ok (run_checkFault hf method), Action.run_modify_bind, onMachine]
  exact Action.run_zoom hx

theorem run_issue {d : Device} (hf : d.faults = []) {el : Element} {t : StreamId}
    {r : Except Halt Unit} {m : Machine} (hx : (Machine.issue el t).run d.machine = (r, m)) :
    (issue el t).run d = (r, d.after [.issue el.label t] m) :=
  run_call hf hx

/-- Where no fault is planned, the status of an event is what the machine says. -/
theorem run_eventStatus_eq {d : Device} (hf : d.faults = []) (e : EventId) :
    (eventStatus e).run d = (((Machine.eventStatus e).run d.machine).1, d) := by
  rw [eventStatus, Action.run_bind_ok (run_checkFault hf _), onMachine]
  refine Action.run_zoom (s := d.machine) ?_
  simp only [Machine.eventStatus, Action.run]
  split <;> rfl

theorem run_eventStatus {d : Device} (hf : d.faults = []) {e : EventId} {st : EventStatus}
    (he : d.machine.events.get? e = some st) : (eventStatus e).run d = (.ok st, d) := by
  rw [run_eventStatus_eq hf]
  simp [Machine.eventStatus, Action.run, he]

theorem run_eventStatus_unknown {d : Device} (hf : d.faults = []) {e : EventId}
    (he : d.machine.events.get? e = none) :
    (eventStatus e).run d = (.error (.error (.device (.statusOfUnknown e))), d) := by
  rw [run_eventStatus_eq hf]
  simp [Machine.eventStatus, Action.run, he]

end Device

namespace StreamPool

@[simp] theorem slots_takeIdle (pool : StreamPool) : pool.takeIdle.2.slots = pool.slots := by
  unfold takeIdle
  split <;> rfl

@[simp] theorem events_takeIdle (pool : StreamPool) : pool.takeIdle.2.events = pool.events := by
  unfold takeIdle
  split <;> rfl

@[simp] theorem maxStreams_takeIdle (pool : StreamPool) :
    pool.takeIdle.2.maxStreams = pool.maxStreams := by
  unfold takeIdle
  split <;> rfl

@[simp] theorem isFull_takeIdle (pool : StreamPool) : pool.takeIdle.2.isFull = pool.isFull := by
  simp [isFull]

theorem mem_free_of_takeIdle {pool : StreamPool} {s : StreamId} (h : s ∈ pool.takeIdle.2.free) :
    s ∈ pool.free := by
  unfold takeIdle at h
  split at h
  · cases h
  · next t rest heq =>
    exact (List.dropWhile_sublist _).subset (heq ▸ List.mem_cons_of_mem t h)

/-- The stream that is taken is idle. -/
theorem isIdle_of_takeIdle {pool : StreamPool} {s : StreamId}
    (h : pool.takeIdle.1 = some s) : pool.isIdle s = true := by
  unfold takeIdle at h
  split at h
  · cases h
  · next t rest heq =>
    obtain rfl : t = s := Option.some.inj h
    have hne : pool.free.dropWhile (fun s => !pool.isIdle s) ≠ [] := by simp [heq]
    simpa [heq] using List.head_dropWhile_not (fun s => !pool.isIdle s) hne

/-- An idle stream belongs to the pool. -/
theorem contains_of_takeIdle {pool : StreamPool} {s : StreamId}
    (h : pool.takeIdle.1 = some s) : pool.slots.contains s = true := by
  have hidle := isIdle_of_takeIdle h
  cases hs : pool.slots.get? s with
  | none => simp [isIdle, hs] at hidle
  | some slot => exact Table.contains_of_get? hs

/-- A busy stream whose turn it is belongs to the pool. -/
theorem contains_of_nextShared? {pool : StreamPool} {s : StreamId}
    (h : pool.nextShared? = some s) : pool.slots.contains s = true :=
  Table.mem_keys_iff.mp (List.mem_of_getElem? h)

/-- Where the limit is reached, there is a stream to share. -/
theorem nextShared?_ne_none {pool : StreamPool} (h : pool.isFull = true) :
    pool.nextShared? ≠ none := by
  intro hnone
  have hsize : 0 < pool.slots.size := by
    cases hm : pool.maxStreams with
    | none => simp [isFull, hm] at h
    | some max =>
        simp only [isFull, hm, Option.any_some, Bool.and_eq_true, decide_eq_true_eq] at h
        omega
  have := List.getElem?_eq_none_iff.mp hnone
  rw [Table.length_keys] at this
  exact absurd (Nat.mod_lt pool.shared hsize) (by omega)

/-- A stream that is continued belongs to the pool. -/
theorem contains_of_continuation? {pool : StreamPool} {d : Dag} {p : VertexId} {s : StreamId}
    (h : pool.continuation? d p = some s) : pool.slots.contains s = true := by
  simp only [continuation?, Option.bind_eq_bind, Option.bind_eq_some_iff] at h
  obtain ⟨el, -, t, -, slot, hslot, h⟩ := h
  split at h
  · obtain rfl : t = s := Option.some.inj h
    exact Table.contains_of_get? hslot
  · cases h

@[simp] theorem events_bind (pool : StreamPool) (s : StreamId) (v : VertexId) :
    (pool.bind s v).events = pool.events := rfl

@[simp] theorem contains_bind (pool : StreamPool) (s t : StreamId) (v : VertexId) :
    (pool.bind s v).slots.contains t = (decide (s = t) || pool.slots.contains t) := by
  simp [bind]

@[simp] theorem events_release (pool : StreamPool) (s : StreamId) (v : VertexId) :
    (pool.release s v).events = pool.events := by
  unfold release
  split <;> rfl

@[simp] theorem contains_release (pool : StreamPool) (s t : StreamId) (v : VertexId) :
    (pool.release s v).slots.contains t = pool.slots.contains t := by
  unfold release
  split <;> simp

@[simp] theorem events_releaseElement (pool : StreamPool) (e : Element) (v : VertexId) :
    (pool.releaseElement e v).events = pool.events := by
  unfold releaseElement
  split <;> simp

@[simp] theorem contains_releaseElement (pool : StreamPool) (e : Element) (v : VertexId)
    (t : StreamId) : (pool.releaseElement e v).slots.contains t = pool.slots.contains t := by
  unfold releaseElement
  split <;> simp

end StreamPool

namespace Scheduler

theorem run_onDevice {α : Type} {x : Action Device α} {s : Scheduler} {r : Except Halt α}
    {d : Device} (h : x.run s.device = (r, d)) : (onDevice x).run s = (r, { s with device := d }) :=
  Action.run_zoom h

theorem run_element {s : Scheduler} {v : VertexId} {e : Element} (h : s.dag.element? v = some e) :
    (element v).run s = (.ok e, s) := by
  simp only [element, Action.run_gets_bind, h, Action.run_require_some]

theorem run_boundStream {s : Scheduler} {v : VertexId} {e : Element} {t : StreamId}
    (h : s.dag.element? v = some e) (ht : e.stream = some t) :
    (boundStream v).run s = (.ok t, s) := by
  rw [boundStream, Action.run_bind_ok (run_element h)]
  simp only [ht, Action.run_pure]

/-! ### Binding a vertex to a stream -/

/-- What becomes of the pool of `s` when stream `t` is found: no stream is freed, and there is no
new slot unless the limit allows for one. -/
structure Found (s : Scheduler) (t : StreamId) (pool : StreamPool) : Prop where
  mem : pool.slots.contains t = true
  free : ∀ u ∈ pool.free, u ∈ s.pool.free
  maxStreams : pool.maxStreams = s.pool.maxStreams
  slots : pool.slots = s.pool.slots ∨ (s.pool.isFull = false ∧ t = s.device.machine.nextStream ∧
    pool.slots = s.pool.slots.insert t {})

/-- A stream has been found for a vertex: one of the pool, or a new one. -/
structure Acquired (s : Scheduler) (t : StreamId) (s' : Scheduler) : Prop where
  dag : s'.dag = s.dag
  events : s'.pool.events = s.pool.events
  slots : ∀ u, s'.pool.slots.contains u = (decide (t = u) || s.pool.slots.contains u)
  pool : s.Found t s'.pool
  faults : s'.device.faults = s.device.faults
  machine : (s'.device.machine = s.device.machine ∧ s.pool.slots.contains t = true) ∨
    (s'.device.machine = s.device.machine.addStream ∧ t = s.device.machine.nextStream)

/-- No stream could be had: the device refused to make one. -/
structure Limited (s s' : Scheduler) : Prop where
  dag : s'.dag = s.dag
  events : s'.pool.events = s.pool.events
  slots : s'.pool.slots = s.pool.slots
  free : ∀ u ∈ s'.pool.free, u ∈ s.pool.free
  maxStreams : s'.pool.maxStreams = s.pool.maxStreams
  faults : s'.device.faults = s.device.faults
  machine : s'.device.machine = s.device.machine
  limit : s.device.machine.streamLimit.isSome

/-- Making a stream succeeds unless the limit of the device is reached. -/
theorem run_createStream_eq {s : Scheduler} (hf : s.device.faults = []) :
    createStream.run s =
      if s.device.machine.streamLimit.any (· ≤ s.device.machine.streams.size) then
        (.error (.error (.device (.outOfStreams s.device.machine.streams.size))),
          { s with device := s.device.after [.createStream] s.device.machine })
      else
        (.ok s.device.machine.nextStream, { s with
          pool := s.pool.addStream s.device.machine.nextStream
          device := s.device.after [.createStream] s.device.machine.addStream }) := by
  split
  · next hlimit =>
    refine Action.run_bind_error (run_onDevice (Device.run_call hf ?_))
    simp [Machine.createStream, Action.run, hlimit]
  · next hlimit =>
    have hcall : (onDevice Device.createStream).run s = (.ok s.device.machine.nextStream,
        { s with device := s.device.after [.createStream] s.device.machine.addStream }) := by
      refine run_onDevice (Device.run_call hf ?_)
      simp [Machine.createStream, Action.run, hlimit, Machine.addStream]
    rw [createStream, Action.run_bind_ok hcall]
    simp only [modifyPool, Action.run_modify_bind, Action.run_pure]

theorem run_createStream {s : Scheduler} (hf : s.device.faults = [])
    (hfull : s.pool.isFull = false) :
    (∃ s', createStream.run s = (.ok s.device.machine.nextStream, s') ∧
      s.Acquired s.device.machine.nextStream s') ∨
    ∃ n s', createStream.run s = (.error (.error (.device (.outOfStreams n))), s') ∧
      s.Limited s' := by
  have hrun := run_createStream_eq hf
  split at hrun
  · next hlimit =>
    refine .inr ⟨_, _, hrun, rfl, rfl, rfl, fun _ hu => hu, rfl, rfl, rfl, ?_⟩
    cases h : s.device.machine.streamLimit with
    | none => simp [h] at hlimit
    | some _ => rfl
  · refine .inl ⟨_, hrun, rfl, rfl, ?_, ⟨?_, fun _ hu => hu, rfl, .inr ⟨hfull, rfl, rfl⟩⟩, rfl,
      .inr ⟨rfl, rfl⟩⟩
    · intro u
      simp [StreamPool.addStream]
    · simp [StreamPool.addStream]

theorem run_acquire {s : Scheduler} (hf : s.device.faults = []) :
    (∃ t s', acquire.run s = (.ok t, s') ∧ s.Acquired t s') ∨
    ∃ n s', acquire.run s = (.error (.error (.device (.outOfStreams n))), s') ∧
      s.Limited s' := by
  have hslots : ∀ t, s.pool.slots.contains t = true →
      ∀ u, s.pool.slots.contains u = (decide (t = u) || s.pool.slots.contains u) := by
    intro t ht u
    by_cases htu : t = u
    · simp [← htu, ht]
    · simp [htu]
  simp only [acquire, Action.run_gets_bind, modifyPool, Action.run_modify_bind]
  cases hidle : s.pool.takeIdle.1 with
  | some t =>
      have ht := StreamPool.contains_of_takeIdle hidle
      exact .inl ⟨t, _, rfl, rfl, by simp, by simpa using hslots t ht,
        ⟨by simpa using ht, fun _ => StreamPool.mem_free_of_takeIdle, by simp, .inl (by simp)⟩,
        rfl, .inl ⟨rfl, ht⟩⟩
  | none =>
      cases hfull : s.pool.takeIdle.2.isFull with
      | true =>
          cases hnext : s.pool.takeIdle.2.nextShared? with
          | some t =>
              have ht : s.pool.slots.contains t = true := by
                simpa using StreamPool.contains_of_nextShared? hnext
              exact .inl ⟨t, _, rfl, rfl, by simp, by simpa using hslots t ht,
                ⟨by simpa using ht, fun _ => StreamPool.mem_free_of_takeIdle, by simp,
                  .inl (by simp)⟩, rfl, .inl ⟨rfl, ht⟩⟩
          | none => exact absurd hnext (StreamPool.nextShared?_ne_none hfull)
      | false =>
          rcases run_createStream (s := { s with pool := s.pool.takeIdle.2 }) hf hfull with
            ⟨s', hrun, h⟩ | ⟨n, s', hrun, h⟩
          · refine .inl ⟨_, s', hrun, h.dag, ?_, ?_, ⟨h.pool.mem, ?_, ?_, ?_⟩, h.faults, ?_⟩
            · simpa using h.events
            · simpa using h.slots
            · exact fun u hu => StreamPool.mem_free_of_takeIdle (h.pool.free u hu)
            · simpa using h.pool.maxStreams
            · simpa using h.pool.slots
            · simpa using h.machine
          · refine .inr ⟨n, s', hrun, h.dag, ?_, ?_, ?_, ?_, h.faults, h.machine, h.limit⟩
            · simpa using h.events
            · simpa using h.slots
            · exact fun u hu => StreamPool.mem_free_of_takeIdle (h.free u hu)
            · simpa using h.maxStreams

/-- A vertex has been bound to a stream of the pool, which may be a new one. -/
structure Assigned (s : Scheduler) (v : VertexId) (t : StreamId) (s' : Scheduler) : Prop where
  dag : s'.dag = s.dag.modifyElement v fun e => e.bind t
  events : s'.pool.events = s.pool.events
  slots : ∀ u, s'.pool.slots.contains u = (decide (t = u) || s.pool.slots.contains u)
  pool : ∃ pool, s.Found t pool ∧ s'.pool = pool.bind t v
  faults : s'.device.faults = s.device.faults
  machine : (s'.device.machine = s.device.machine ∧ s.pool.slots.contains t = true) ∨
    (s'.device.machine = s.device.machine.addStream ∧ t = s.device.machine.nextStream)

/-- The stream that `v` continues on, if any. -/
def continued? (s : Scheduler) (v : VertexId) : Option StreamId :=
  match (s.dag.parentVertices v).filter fun p => !s.dag.isTerminal p with
  | [parent] => s.pool.continuation? s.dag parent
  | _ => none

theorem contains_of_continued? {s : Scheduler} {v : VertexId} {t : StreamId}
    (h : s.continued? v = some t) : s.pool.slots.contains t = true := by
  unfold continued? at h
  split at h
  · exact StreamPool.contains_of_continuation? h
  · cases h

/-- The stream that `v` continues on, or another one. -/
def findStream (s : Scheduler) (v : VertexId) : Action Scheduler StreamId :=
  match s.continued? v with
  | some t => pure t
  | none => acquire

theorem run_findStream {s : Scheduler} (hf : s.device.faults = []) (v : VertexId) :
    (∃ t s', (s.findStream v).run s = (.ok t, s') ∧ s.Acquired t s') ∨
    ∃ n s', (s.findStream v).run s = (.error (.error (.device (.outOfStreams n))), s') ∧
      s.Limited s' := by
  unfold findStream
  cases hc : s.continued? v with
  | some t =>
      have ht := contains_of_continued? hc
      refine .inl ⟨t, s, rfl, rfl, rfl, fun u => ?_, ⟨ht, fun _ hu => hu, rfl, .inl rfl⟩,
        rfl, .inl ⟨rfl, ht⟩⟩
      by_cases htu : t = u
      · simp [← htu, ht]
      · simp [htu]
  | none => exact run_acquire hf

/-- Assigning a stream is finding one and binding the vertex to it. -/
theorem run_assign_eq {s : Scheduler} {v : VertexId} {e : Element}
    (hv : s.dag.element? v = some e) :
    (assign v).run s = (s.findStream v >>= fun stream => do
      modifyPool fun pool => pool.bind stream v
      modifyDag fun d => d.modifyElement v fun e => e.bind stream
      pure stream).run s := by
  rw [assign, Action.run_bind_ok (run_element hv), Action.run_gets_bind, findStream]
  change (match s.continued? v with
    | some t => _
    | none => _ : Action Scheduler StreamId).run s = _
  cases s.continued? v <;> rfl

/-- **A vertex is bound to a stream, or the device makes no more streams.** -/
theorem run_assign {s : Scheduler} {v : VertexId} {e : Element} (hf : s.device.faults = [])
    (hv : s.dag.element? v = some e) :
    (∃ t s', (assign v).run s = (.ok t, s') ∧ s.Assigned v t s') ∨
    ∃ n s', (assign v).run s = (.error (.error (.device (.outOfStreams n))), s') ∧
      s.Limited s' := by
  rw [run_assign_eq hv]
  rcases run_findStream hf v with ⟨t, s', hrun, h⟩ | ⟨n, s', hrun, h⟩
  · refine .inl ⟨t, { s' with
      pool := s'.pool.bind t v
      dag := s'.dag.modifyElement v fun e => e.bind t }, ?_, ?_, ?_, ?_, ⟨_, h.pool, rfl⟩, h.faults,
      h.machine⟩
    · rw [Action.run_bind_ok hrun]
      rfl
    · simp only [h.dag]
    · simp only [StreamPool.events_bind, h.events]
    · intro u
      simp only [StreamPool.contains_bind, h.slots, ← Bool.or_assoc, Bool.or_self]
  · exact .inr ⟨n, s', Action.run_bind_error hrun, h⟩

/-! ### Handing work to the device -/

/-- The events waited for are those of parents that are not over. -/
theorem mem_waitsFor {d : Dag} {v : VertexId} {t : StreamId} {ps : List VertexId}
    {waits : List EventId} (h : waitsFor d v t ps = .ok waits) {e : EventId} (he : e ∈ waits) :
    ∃ p ∈ ps, ∃ x, d.element? p = some x ∧ x.isTerminal = false ∧ x.event = some e := by
  fun_induction waitsFor d v t ps generalizing waits with
  | case1 => simp_all
  | case2 p rest _ ih =>
      obtain ⟨q, hq, hx⟩ := ih h he
      exact ⟨q, List.mem_cons_of_mem _ hq, hx⟩
  | case3 => cases h
  | case4 p rest _ _ _ _ ih =>
      obtain ⟨q, hq, hx⟩ := ih h he
      exact ⟨q, List.mem_cons_of_mem _ hq, hx⟩
  | case5 => cases h
  | case6 p rest x hx _ hne event hev events hrest ih =>
      obtain rfl : event :: events = waits := Except.ok.inj h
      rcases List.mem_cons.mp he with rfl | he
      · exact ⟨p, List.mem_cons_self, x, hx, by simp_all, hev⟩
      · obtain ⟨q, hq, hx⟩ := ih hrest he
        exact ⟨q, List.mem_cons_of_mem _ hq, hx⟩
  | case7 => cases h

/-- A parent that can be waited for has not failed, and if it is not over, it has the same stream
or its event is waited for. -/
theorem waitsFor_parent {d : Dag} {v : VertexId} {t : StreamId} {ps : List VertexId}
    {waits : List EventId} (h : waitsFor d v t ps = .ok waits) {p : VertexId} (hp : p ∈ ps)
    {x : Element} (hx : d.element? p = some x) :
    x.isFailed = false ∧
      (x.isTerminal = true ∨ x.stream = some t ∨ ∃ e, x.event = some e ∧ e ∈ waits) := by
  fun_induction waitsFor d v t ps generalizing waits with
  | case1 => cases hp
  | case2 q rest hq ih =>
      rcases List.mem_cons.mp hp with rfl | hp
      · simp [hx] at hq
      · exact ih h hp
  | case3 => cases h
  | case4 q rest y hy hfailed hskip ih =>
      rcases List.mem_cons.mp hp with rfl | hp
      · obtain rfl : x = y := Option.some.inj (hx.symm.trans hy)
        refine ⟨by simpa using hfailed, ?_⟩
        rcases Bool.or_eq_true_iff.mp hskip with ht | hs
        · exact .inl ht
        · exact .inr (.inl (by simpa using hs))
      · exact ih h hp
  | case5 => cases h
  | case6 q rest y hy hfailed _ event hev events hrest ih =>
      obtain rfl : event :: events = waits := Except.ok.inj h
      rcases List.mem_cons.mp hp with rfl | hp
      · obtain rfl : x = y := Option.some.inj (hx.symm.trans hy)
        exact ⟨by simpa using hfailed, .inr (.inr ⟨event, hev, List.mem_cons_self⟩)⟩
      · obtain ⟨hf, hcase⟩ := ih hrest hp
        refine ⟨hf, hcase.imp_right (Or.imp_right ?_)⟩
        rintro ⟨e, he, hmem⟩
        exact ⟨e, he, List.mem_cons_of_mem _ hmem⟩
  | case7 => cases h

/-- A parent that cannot be waited for has failed, or it is not over and has no event. -/
theorem waitsFor_error {d : Dag} {v : VertexId} {t : StreamId} {ps : List VertexId}
    {error : Error} (h : waitsFor d v t ps = .error error) :
    ∃ p ∈ ps, ∃ x, d.element? p = some x ∧
      ((error = .parentFailed v p ∧ x.isFailed = true) ∨
        (x.isTerminal = false ∧ x.event = none)) := by
  fun_induction waitsFor d v t ps with
  | case1 => cases h
  | case2 q rest _ ih =>
      obtain ⟨p, hp, hx⟩ := ih h
      exact ⟨p, List.mem_cons_of_mem _ hp, hx⟩
  | case3 q rest y hy hfailed =>
      exact ⟨q, List.mem_cons_self, y, hy, .inl ⟨(Except.error.inj h).symm, hfailed⟩⟩
  | case4 q rest _ _ _ _ ih =>
      obtain ⟨p, hp, hx⟩ := ih h
      exact ⟨p, List.mem_cons_of_mem _ hp, hx⟩
  | case5 q rest y hy _ hne hev =>
      exact ⟨q, List.mem_cons_self, y, hy, .inr ⟨by simp_all, hev⟩⟩
  | case6 => cases h
  | case7 q rest _ _ _ _ _ _ _ hrest ih =>
      obtain ⟨p, hp, hx⟩ := ih (hrest.trans h)
      exact ⟨p, List.mem_cons_of_mem _ hp, hx⟩

/-- Queueing waits on a stream of the device. -/
theorem run_waits {s : Scheduler} {t : StreamId} (hf : s.device.faults = [])
    (ht : s.device.machine.streams.contains t = true) (waits : List EventId) :
    (Action.each (fun e => onDevice (Device.waitEvent t e)) waits).run s =
      (.ok (), { s with
        device := s.device.after (waits.map (Call.waitEvent t))
          (s.device.machine.extend t (waits.map .wait)) }) := by
  induction waits generalizing s with
  | nil => simp
  | cons e rest ih =>
      have hcall : (onDevice (Device.waitEvent t e)).run s = (.ok (), { s with
          device := s.device.after [.waitEvent t e]
            (s.device.machine.extend t [.wait e]) }) :=
        run_onDevice (Device.run_call hf (Machine.run_push ht _))
      rw [Action.run_each_cons, Action.run_bind_ok hcall, ih]
      · simp [Machine.extend_extend]
      · exact hf
      · simpa using ht

/-- The stream of a vertex is made to wait for the parents of the vertex. -/
theorem run_synchronizeParents {s : Scheduler} {v : VertexId} {e : Element} {t : StreamId}
    {waits : List EventId} (hf : s.device.faults = []) (hv : s.dag.element? v = some e)
    (ht : e.stream = some t) (hs : s.device.machine.streams.contains t = true)
    (hw : waitsFor s.dag v t (s.dag.parentVertices v) = .ok waits) :
    (synchronizeParents v).run s = (.ok waits.length, { s with
      device := s.device.after (waits.map (Call.waitEvent t))
        (s.device.machine.extend t (waits.map .wait)) }) := by
  rw [synchronizeParents, Action.run_bind_ok (run_boundStream hv ht), Action.run_gets_bind, hw,
    Action.run_bind_ok (Action.run_ofExcept_ok waits s),
    Action.run_bind_ok (run_waits hf hs waits), Action.run_pure]

/-- Nothing is queued where a parent cannot be waited for. -/
theorem run_synchronizeParents_error {s : Scheduler} {v : VertexId} {e : Element} {t : StreamId}
    {error : Error} (hv : s.dag.element? v = some e) (ht : e.stream = some t)
    (hw : waitsFor s.dag v t (s.dag.parentVertices v) = .error error) :
    (synchronizeParents v).run s = (.error (.error error), s) := by
  rw [synchronizeParents, Action.run_bind_ok (run_boundStream hv ht), Action.run_gets_bind, hw,
    Action.run_bind_error (Action.run_ofExcept_error error s)]

/-- The completion of a vertex is recorded with a new event. -/
theorem run_recordCompletion {s : Scheduler} {v : VertexId} {e : Element} {t : StreamId}
    (hf : s.device.faults = []) (hv : s.dag.element? v = some e) (ht : e.stream = some t)
    (hs : s.device.machine.streams.contains t = true) :
    (recordCompletion v).run s = (.ok s.device.machine.nextEvent, { s with
      pool := { s.pool with events := s.pool.events.insert s.device.machine.nextEvent () }
      device := s.device.after [.createEvent, .recordEvent s.device.machine.nextEvent t]
        (s.device.machine.withRecord t) }) := by
  let m : Machine := { s.device.machine with
    nextEvent := s.device.machine.nextEvent + 1
    events := s.device.machine.events.insert s.device.machine.nextEvent .complete }
  have hcreate : (onDevice Device.createEvent).run s = (.ok s.device.machine.nextEvent,
      { s with device := s.device.after [.createEvent] m }) :=
    run_onDevice (Device.run_call hf rfl)
  have hknown : m.events.contains s.device.machine.nextEvent = true := by simp [m]
  rw [recordCompletion, Action.run_bind_ok (run_boundStream hv ht), Action.run_bind_ok hcreate,
    modifyPool, Action.run_modify_bind]
  have hf' : (s.device.after [.createEvent] m).faults = [] := hf
  refine (Action.run_bind_ok (run_onDevice (Device.run_call hf'
    (Machine.run_recordEvent hknown hs)))).trans ?_
  simp [m, Machine.extend, Machine.withRecord, Table.insert_insert]

/-! ### Giving streams and events back -/

/-- Forgetting an event of the pool. -/
theorem run_releaseEvent {s : Scheduler} {e : EventId} (hf : s.device.faults = [])
    (he : s.pool.events.contains e = true) :
    (releaseEvent e).run s = (.ok (), { s with
      pool := { s.pool with events := s.pool.events.erase e }
      device := s.device.after [.destroyEvent e]
        { s.device.machine with events := s.device.machine.events.erase e } }) := by
  rw [releaseEvent, Action.run_gets_bind, he, if_pos rfl, modifyPool, Action.run_modify_bind]
  exact run_onDevice (Device.run_call hf rfl)

theorem run_tryAll_cons {s s' : Scheduler} {call : Action Device Unit}
    {calls : List (Action Device Unit)} (h : (onDevice call).run s = (.ok (), s')) :
    (tryAll (call :: calls)).run s = (tryAll calls).run s' := by
  rw [tryAll, Action.run_bind_ok (Action.run_attempt_ok h)]
  exact congrFun (bind_pure (tryAll calls)) s'

theorem run_tryAll_destroyEvents {s : Scheduler} (hf : s.device.faults = [])
    (es : List EventId) (calls : List (Action Device Unit)) :
    (tryAll (es.map Device.destroyEvent ++ calls)).run s =
      (tryAll calls).run { s with
        device := s.device.after (es.map Call.destroyEvent) { s.device.machine with
          events := s.device.machine.events.eraseAll es } } := by
  induction es generalizing s with
  | nil => simp [Table.eraseAll, Device.after]
  | cons e rest ih =>
      have hcall : (onDevice (Device.destroyEvent e)).run s = (.ok (), { s with
          device := s.device.after [.destroyEvent e]
            { s.device.machine with events := s.device.machine.events.erase e } }) :=
        run_onDevice (Device.run_call hf rfl)
      rw [List.map_cons, List.cons_append, run_tryAll_cons hcall, ih]
      · simp [Table.eraseAll]
      · exact hf

theorem run_tryAll_destroyStreams {s : Scheduler} (hf : s.device.faults = [])
    {ts : List StreamId} (hts : ts.Pairwise (· < ·))
    (hs : ∀ t ∈ ts, s.device.machine.streams.contains t = true) :
    (tryAll (ts.map Device.destroyStream)).run s = (.ok none, { s with
        device := s.device.after (ts.map Call.destroyStream) { s.device.machine with
          streams := s.device.machine.streams.eraseAll ts } }) := by
  induction ts generalizing s with
  | nil => simp [tryAll, Table.eraseAll, Device.after]
  | cons t rest ih =>
      obtain ⟨hlt, hrest⟩ := List.pairwise_cons.mp hts
      have hcall : (onDevice (Device.destroyStream t)).run s = (.ok (), { s with
          device := s.device.after [.destroyStream t]
            { s.device.machine with streams := s.device.machine.streams.erase t } }) := by
        refine run_onDevice (Device.run_call hf ?_)
        simp [Machine.destroyStream, Action.run, hs t List.mem_cons_self]
      rw [List.map_cons, run_tryAll_cons hcall, ih]
      · simp [Table.eraseAll]
      · exact hf
      · exact hrest
      · intro u hu
        simp [hs u (List.mem_cons_of_mem _ hu), Nat.ne_of_lt (hlt u hu)]

/-- **Cleaning up succeeds and leaves nothing behind**, where the pool owns all the streams and
events of the device. -/
theorem run_cleanup {s : Scheduler} (hf : s.device.faults = [])
    (hs : ∀ t, s.pool.slots.contains t = s.device.machine.streams.contains t)
    (he : ∀ e, s.pool.events.contains e = s.device.machine.events.contains e) :
    cleanup.run s = (.ok (), { s with
      pool := { s.pool with slots := .empty, free := [], events := .empty, shared := 0 }
      device := s.device.after
        (s.pool.events.keys.map Call.destroyEvent ++ s.pool.slots.keys.map Call.destroyStream)
        { s.device.machine with streams := .empty, events := .empty } }) := by
  have hevents : s.device.machine.events.eraseAll s.pool.events.keys = .empty :=
    Table.eraseAll_eq_empty fun e h => Table.mem_keys_iff.mpr ((he e).trans h)
  have hstreams : s.device.machine.streams.eraseAll s.pool.slots.keys = .empty :=
    Table.eraseAll_eq_empty fun t h => Table.mem_keys_iff.mpr ((hs t).trans h)
  have hkeys : ∀ t ∈ s.pool.slots.keys, s.device.machine.streams.contains t = true :=
    fun t ht => (hs t).symm.trans (Table.mem_keys_iff.mp ht)
  rw [cleanup, Action.run_gets_bind, modifyPool, Action.run_modify_bind, Action.run_bind,
    run_tryAll_destroyEvents, run_tryAll_destroyStreams]
  · simp [hevents, hstreams]
  · exact hf
  · exact s.pool.slots.keys_pairwise
  · exact hkeys
  · exact hf

end Scheduler

namespace Context

theorem run_onScheduler {α : Type} {x : Action Scheduler α} {c : Context} {r : Except Halt α}
    {s : Scheduler} (h : x.run c.toScheduler = (r, s)) :
    (onScheduler x).run c = (r, { c with toScheduler := s }) :=
  Action.run_zoom h

theorem run_onDevice {α : Type} {x : Action Device α} {c : Context} {r : Except Halt α}
    {d : Device} (h : x.run c.device = (r, d)) : (onDevice x).run c = (r, { c with device := d }) :=
  run_onScheduler (Scheduler.run_onDevice h)

end Context

end LaunchGraph
