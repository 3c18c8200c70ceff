import Mathlib.Data.List.Basic
import LaunchGraph.Proofs.Handover

/-!
# Schedules — registering and issuing commute

A schedule is what registering and issuing decide: the graph, the pool of streams, the queues of
the device and the order of issue.  Where nothing stands in the way, that is, no launch is refused
and the device makes as many streams as are asked for, both are functions of the schedule alone:
`Schedule.enlist` makes an element a vertex with a stream, and `Schedule.issue` hands a vertex to
the device.

The two commute (`Schedule.enlist_issue`).  What a new element depends on and which stream it gets
are read off accesses, streams and vertices that are not over, and none of that changes when an
earlier vertex is handed to the device.  What the earlier vertex waits for is read off its parents,
and a later element gives it no more of them.
-/

namespace LaunchGraph

/-! ### The graph does not see that a vertex was handed over -/

namespace Dag

theorem modifyVertex_comm (d : Dag) {v w : VertexId} {f g : Vertex → Vertex}
    (h : v = w → ∀ x, g (f x) = f (g x)) :
    (d.modifyVertex v f).modifyVertex w g = (d.modifyVertex w g).modifyVertex v f := by
  have hlist : (d.vertices.modify v f).modify w g = (d.vertices.modify w g).modify v f := by
    by_cases hvw : v = w
    · have hcomp : g ∘ f = f ∘ g := funext (h hvw)
      rw [hvw, List.modify_modify_eq, List.modify_modify_eq, hcomp]
    · exact List.modify_modify_ne f g _ hvw
  simp only [modifyVertex, hlist]

theorem modifyElement_comm (d : Dag) {v w : VertexId} {f g : Element → Element}
    (h : v = w → ∀ x, g (f x) = f (g x)) :
    (d.modifyElement v f).modifyElement w g = (d.modifyElement w g).modifyElement v f :=
  d.modifyVertex_comm fun hvw x => by simp only [h hvw]

theorem push_modifyElement {d : Dag} {v : VertexId} (hv : v < d.vertices.length)
    (f : Element → Element) (e : Element) :
    (d.modifyElement v f).push e = (d.push e).modifyElement v f := by
  simp only [push, modifyElement, modifyVertex, List.length_modify, Dag.mk.injEq, true_and,
    and_true]
  refine List.ext_getElem? fun w => ?_
  rw [List.getElem?_modify, List.getElem?_append, List.getElem?_append, List.length_modify,
    List.getElem?_modify]
  by_cases hvw : v = w
  · simp [← hvw, hv]
  · simp [hvw]

theorem insertEdge_modifyElement (d : Dag) (v s t : VertexId) (f : Element → Element)
    (deps : List Argument) :
    (d.modifyElement v f).insertEdge s t deps = (d.insertEdge s t deps).modifyElement v f := by
  have hsource := d.modifyVertex_comm (v := v) (w := s)
    (f := fun x => { x with element := f x.element })
    (g := fun x => { x with children := x.children ++ [d.edges.length] }) fun _ _ => rfl
  have htarget := (d.modifyVertex s fun x =>
    { x with children := x.children ++ [d.edges.length] }).modifyVertex_comm (v := v) (w := t)
    (f := fun x => { x with element := f x.element })
    (g := fun x => { x with parents := x.parents ++ [d.edges.length], isStart := false })
    fun _ _ => rfl
  rw [← hsource] at htarget
  have hvertices := congrArg Dag.vertices htarget
  simp only [modifyVertex] at hvertices
  simp only [insertEdge, modifyElement, modifyVertex, hvertices]

variable {d : Dag} {v : VertexId} {event : EventId}

/-- Handing over a vertex changes no active access, so a later element depends on the same. -/
theorem connect_start {frontier : List VertexId} {target : VertexId} (hv : v ≠ target)
    (s : VertexId) :
    (d.modifyElement v (·.start event)).connect frontier target s =
      (d.connect frontier target s).map fun d => d.modifyElement v (·.start event) := by
  cases ht : d.element? target with
  | none =>
      cases hs : d.element? s <;> by_cases hvs : v = s <;>
        simp [connect, ht, hs, hv, hvs, Except.map]
  | some later =>
      cases hs : d.element? s with
      | none => simp [connect, ht, hs, hv, Except.map]
      | some earlier =>
          obtain ⟨x, hx, hdeps⟩ : ∃ x, (d.modifyElement v (·.start event)).element? s = some x ∧
              x.dependencies d.policy later = earlier.dependencies d.policy later := by
            rw [element?_modifyElement, hs]
            by_cases hvs : v = s
            · exact ⟨_, if_pos hvs, rfl⟩
            · exact ⟨_, if_neg hvs, rfl⟩
          have hlater : (d.modifyElement v (·.start event)).element? target = some later := by
            simp [hv, ht]
          have hcomm := d.modifyElement_comm (v := v) (w := s) (f := (·.start event))
            (g := fun e => e.supersededBy d.policy later) fun _ _ => rfl
          simp only [connect, hx, hlater, ht, hs, policy_modifyElement, hdeps, hcomm]
          split
          · rfl
          · simp only [addEdge, parentVertices_modifyElement, insertEdge_modifyElement]
            split
            · rfl
            · split
              · rfl
              · split <;> rfl

theorem connectAll_start {frontier : List VertexId} {target : VertexId} (hv : v ≠ target)
    (l : List VertexId) :
    connectAll frontier target l (d.modifyElement v (·.start event)) =
      (connectAll frontier target l d).map fun d => d.modifyElement v (·.start event) := by
  induction l generalizing d with
  | nil => rfl
  | cons s rest ih =>
      simp only [connectAll, connect_start hv]
      cases d.connect frontier target s with
      | error b => rfl
      | ok d' => exact ih

/-- A vertex that is handed over was not over and is not over. -/
theorem isTerminal_start (hopen : d.isTerminal v = false) :
    (d.modifyElement v (·.start event)).isTerminal = d.isTerminal := by
  funext w
  by_cases hw : v = w
  · subst hw
    rw [hopen]
    cases hv : d.element? v <;> simp [isTerminal, hv, Element.isTerminal, Element.start,
      Lifecycle.isTerminal]
  · simp [isTerminal, hw]

theorem isFrontier_start (hopen : d.isTerminal v = false) :
    (d.modifyElement v (·.start event)).isFrontier = d.isFrontier := by
  funext w
  rw [isFrontier_eq, isFrontier_eq, isTerminal_start hopen, element?_modifyElement]
  split
  · cases d.element? w <;> rfl
  · rfl

/-- **An append does not see that an earlier vertex was handed over.** -/
theorem append_start {e : Element} {d' : Dag} (ha : d.Appended e d') (hd : d.append e = .ok d')
    (hv : v < d.vertices.length) (hopen : d.isTerminal v = false) (event : EventId) :
    (d.modifyElement v (·.start event)).append e = .ok (d'.modifyElement v (·.start event)) := by
  have hid : ¬ e.id.isSome = true := by
    intro hid
    simp [append, hid] at hd
  simp only [append, if_neg hid] at hd ⊢
  rw [frontier_modifyElement, length_modifyElement, push_modifyElement hv,
    connectAll_start (Nat.ne_of_lt hv)]
  cases hc : connectAll d.frontier d.vertices.length d.frontier (d.push e) with
  | error b => simp [hc] at hd
  | ok joined =>
      simp only [hc, Except.ok.injEq] at hd
      subst hd
      have hopen' : joined.isTerminal v = false := by
        obtain ⟨el, hel⟩ := exists_element? hv
        obtain ⟨active, hel'⟩ := ha.element?_of_old hel
        rw [isTerminal_eq hel] at hopen
        exact (isTerminal_eq hel').trans hopen
      simp only [Except.map, isFrontier_start hopen']
      rfl

/-! ### What a vertex waits for is settled when it is appended -/

theorem Appended.parentVertices_old {e : Element} {d' : Dag} (ha : d.Appended e d')
    (h : d.Linked) (hv : v < d.vertices.length) : d'.parentVertices v = d.parentVertices v := by
  have hnew : (d.edgesTo e d.vertices.length d.edges.length d.frontier).filter
      (fun edge => edge.target = v) = [] := by
    refine List.filter_eq_nil_iff.mpr fun edge hedge => ?_
    simpa [(mem_edgesTo hedge).2.1] using Nat.ne_of_gt hv
  rw [ha.linked.parents_eq, h.parents_eq, ha.edges, List.filter_append, hnew, List.append_nil]

/-- Neither a new vertex nor what happens to it changes what an earlier vertex waits for. -/
theorem Appended.awaited_old {e : Element} {d' : Dag} (ha : d.Appended e d') (h : d.Linked)
    (hv : v < d.vertices.length) (f : Element → Element) (t : StreamId) :
    (d'.modifyElement d.vertices.length f).awaited v t = d.awaited v t := by
  unfold awaited
  rw [parentVertices_modifyElement, ha.parentVertices_old h hv]
  refine List.filterMap_congr fun p hp => ?_
  have hlt := (h.lt_of_hasEdge (h.mem_parentVertices.mp hp)).1
  have hne : p ≠ d.vertices.length := Nat.ne_of_lt (Nat.lt_trans hlt hv)
  rw [element?_modifyElement, if_neg hne.symm, ha.element?_old p hne]
  split
  · cases d.element? p <;> rfl
  · rfl

end Dag

/-! ### The choice of a stream -/

namespace StreamPool

/-- The stream that vertex `v` of the graph `d` gets, and the pool that has it: the stream of the
parent it continues, an idle stream, a busy one where the limit is reached, or else `next`, a new
one. -/
def choice (pool : StreamPool) (d : Dag) (next : StreamId) (v : VertexId) :
    StreamId × StreamPool :=
  match Scheduler.continued? { dag := d, pool } v with
  | some t => (t, pool)
  | none =>
      match pool.takeIdle with
      | (some t, pool) => (t, pool)
      | (none, pool) =>
          match if pool.isFull then pool.nextShared? else none with
          | some t => (t, { pool with shared := pool.shared + 1 })
          | none => (next, pool.addStream next)

/-- The choice does not see that an earlier vertex was handed over. -/
theorem choice_start (pool : StreamPool) {d : Dag} {v : VertexId} (hopen : d.isTerminal v = false)
    (event : EventId) (next : StreamId) (w : VertexId) :
    pool.choice (d.modifyElement v (·.start event)) next w = pool.choice d next w := by
  have hcontinuation : ∀ p, pool.continuation? (d.modifyElement v (·.start event)) p =
      pool.continuation? d p := by
    intro p
    simp only [continuation?, Dag.element?_modifyElement]
    split
    · cases d.element? p <;> rfl
    · rfl
  have hcontinued : Scheduler.continued? { dag := d.modifyElement v (·.start event), pool } w =
      Scheduler.continued? { dag := d, pool } w := by
    simp only [Scheduler.continued?, Dag.parentVertices_modifyElement, Dag.isTerminal_start hopen,
      hcontinuation]
  rw [choice, choice, hcontinued]

/-- The choice does not look at events. -/
theorem choice_events (pool : StreamPool) (events : Table EventId Unit) (d : Dag)
    (next : StreamId) (v : VertexId) :
    ({ pool with events } : StreamPool).choice d next v =
      ((pool.choice d next v).1, { (pool.choice d next v).2 with events }) := by
  have hcontinued : Scheduler.continued? { dag := d, pool := { pool with events } } v =
      Scheduler.continued? { dag := d, pool } v := rfl
  have hidle : ({ pool with events } : StreamPool).takeIdle =
      (pool.takeIdle.1, { pool.takeIdle.2 with events }) := by
    have hsame : ({ pool with events } : StreamPool).isIdle = pool.isIdle := rfl
    simp only [takeIdle, hsame]
    split <;> rfl
  unfold choice
  rw [hcontinued, hidle]
  cases Scheduler.continued? { dag := d, pool } v with
  | some t => rfl
  | none =>
      rcases pool.takeIdle with ⟨_ | t, pool'⟩
      · have hfull : ({ pool' with events } : StreamPool).isFull = pool'.isFull := rfl
        have hnext : ({ pool' with events } : StreamPool).nextShared? = pool'.nextShared? := rfl
        simp only [hfull, hnext]
        split <;> rfl
      · rfl

theorem events_choice (pool : StreamPool) (d : Dag) (next : StreamId) (v : VertexId) :
    (pool.choice d next v).2.events = pool.events :=
  congrArg (fun c => c.2.events) (pool.choice_events pool.events d next v)

end StreamPool

/-- Where the device makes streams without limit, the stream that is found is the choice. -/
theorem Scheduler.run_findStream_choice {s : Scheduler} (hf : s.device.faults = [])
    (hlimit : s.device.machine.streamLimit = none)
    (hnext : s.pool.slots.contains s.device.machine.nextStream = false) (v : VertexId) :
    ∃ s', (s.findStream v).run s =
        (.ok (s.pool.choice s.dag s.device.machine.nextStream v).1, s') ∧ s'.dag = s.dag ∧
      s'.pool = (s.pool.choice s.dag s.device.machine.nextStream v).2 ∧
      s'.device.machine =
        if s.pool.slots.contains (s.pool.choice s.dag s.device.machine.nextStream v).1
        then s.device.machine else s.device.machine.addStream := by
  have hsame : Scheduler.continued? { dag := s.dag, pool := s.pool } v = s.continued? v := rfl
  simp only [StreamPool.choice, hsame, findStream]
  cases hc : s.continued? v with
  | some t => exact ⟨s, rfl, rfl, rfl, by simp [contains_of_continued? hc]⟩
  | none =>
      simp only [acquire, Action.run_gets_bind, modifyPool, Action.run_modify_bind]
      have hslots := s.pool.slots_takeIdle
      have hidle := @StreamPool.contains_of_takeIdle s.pool
      rcases htake : s.pool.takeIdle with ⟨_ | t, pool⟩
      · rw [htake] at hslots
        cases hfull : pool.isFull with
        | true =>
            cases hshared : pool.nextShared? with
            | none => exact absurd hshared (StreamPool.nextShared?_ne_none hfull)
            | some t =>
                have ht := StreamPool.contains_of_nextShared? hshared
                rw [hslots] at ht
                simp only [hfull, if_true, hshared]
                exact ⟨_, rfl, rfl, rfl, by simp [ht]⟩
        | false =>
            have hrun := run_createStream_eq (s := { s with pool }) hf
            rw [if_neg (by simp [hlimit])] at hrun
            simp only [hfull, Bool.false_eq_true, if_false]
            exact ⟨_, hrun, rfl, rfl, by simp [hnext]⟩
      · have ht := hidle (congrArg Prod.fst htake)
        exact ⟨_, rfl, rfl, rfl, by simp [ht]⟩

/-- Where the device makes streams without limit, a vertex is bound to the choice. -/
theorem Scheduler.run_assign_choice {s : Scheduler} {v : VertexId} {e : Element}
    (hf : s.device.faults = []) (hlimit : s.device.machine.streamLimit = none)
    (hnext : s.pool.slots.contains s.device.machine.nextStream = false)
    (hv : s.dag.element? v = some e) :
    ∃ s', (assign v).run s = (.ok (s.pool.choice s.dag s.device.machine.nextStream v).1, s') ∧
      s'.dag = s.dag.modifyElement v
        (·.bind (s.pool.choice s.dag s.device.machine.nextStream v).1) ∧
      s'.pool = (s.pool.choice s.dag s.device.machine.nextStream v).2.bind
        (s.pool.choice s.dag s.device.machine.nextStream v).1 v ∧
      s'.device.machine =
        if s.pool.slots.contains (s.pool.choice s.dag s.device.machine.nextStream v).1
        then s.device.machine else s.device.machine.addStream := by
  obtain ⟨s', hrun, hdag, hpool, hmachine⟩ := run_findStream_choice hf hlimit hnext v
  generalize s.pool.choice s.dag s.device.machine.nextStream v = choice at *
  refine ⟨{ s' with
    pool := s'.pool.bind choice.1 v
    dag := s'.dag.modifyElement v (·.bind choice.1) }, ?_, ?_, ?_, hmachine⟩
  · rw [run_assign_eq hv, Action.run_bind_ok hrun]
    rfl
  · simp only [hdag]
  · simp only [hpool]

namespace Machine

@[simp] theorem nextStream_withWork (m : Machine) (t : StreamId) (waits : List EventId)
    (job : Job) : (m.withWork t waits job).nextStream = m.nextStream := rfl

/-- A new stream and work on another one do not get in each other's way. -/
theorem addStream_withWork (m : Machine) {t : StreamId} (ht : t ≠ m.nextStream)
    (waits : List EventId) (job : Job) :
    (m.withWork t waits job).addStream = m.addStream.withWork t waits job := by
  simp only [addStream, withWork, extend, Machine.mk.injEq, true_and, and_true]
  refine Table.ext_get? fun u => ?_
  by_cases hu : m.nextStream = u
  · subst hu
    simp [ht]
  · simp [hu]

end Machine

/-! ### Schedules -/

/-- What registering and issuing decide. -/
structure Schedule where
  dag : Dag
  pool : StreamPool
  machine : Machine
  /-- The vertices that have been handed to the device, in the order of issue. -/
  running : List VertexId

namespace Schedule

/-- The schedule with one more vertex, which has a stream and has not been handed over. -/
def enlist (p : Schedule) (e : Element) : Schedule :=
  match p.dag.append e with
  | .error _ => p
  | .ok d =>
      let v := p.dag.vertices.length
      let (t, pool) := p.pool.choice d p.machine.nextStream v
      { p with
        dag := d.modifyElement v (·.bind t)
        pool := pool.bind t v
        machine := if p.pool.slots.contains t then p.machine else p.machine.addStream }

/-- The schedule with vertex `v` handed to the device. -/
def issue (p : Schedule) (v : VertexId) : Schedule :=
  match p.dag.element? v with
  | none => p
  | some el =>
      match el.stream with
      | none => p
      | some t =>
          { dag := p.dag.modifyElement v (·.start p.machine.nextEvent)
            pool := { p.pool with events := p.pool.events.insert p.machine.nextEvent () }
            machine := p.machine.withWork t (p.dag.awaited v t)
              ⟨el.id, el.label, p.machine.failing.contains el.label⟩
            running := p.running ++ [v] }

/-- The schedule with some vertices handed to the device, in order. -/
def issueAll (p : Schedule) (vs : List VertexId) : Schedule := vs.foldl issue p

/-- The schedule with one more vertex, handed to the device at once. -/
def register (p : Schedule) (e : Element) : Schedule :=
  (p.enlist e).issue p.dag.vertices.length

theorem issueAll_append (p : Schedule) (vs ws : List VertexId) :
    p.issueAll (vs ++ ws) = (p.issueAll vs).issueAll ws :=
  List.foldl_append

/-- A vertex that can be handed over: it is not over, and it has a stream. -/
def Ready (p : Schedule) (v : VertexId) : Prop :=
  ∃ el t, p.dag.element? v = some el ∧ el.isTerminal = false ∧ el.stream = some t ∧
    t < p.machine.nextStream

variable {p : Schedule} {v : VertexId}

theorem length_issue (p : Schedule) (v : VertexId) :
    (p.issue v).dag.vertices.length = p.dag.vertices.length := by
  unfold issue
  split
  · rfl
  · split
    · rfl
    · exact Dag.length_modifyElement ..

theorem length_issueAll (p : Schedule) (vs : List VertexId) :
    (p.issueAll vs).dag.vertices.length = p.dag.vertices.length := by
  induction vs generalizing p with
  | nil => rfl
  | cons v rest ih => exact (ih _).trans (p.length_issue v)

theorem linked_issue (h : p.dag.Linked) (v : VertexId) : (p.issue v).dag.Linked := by
  unfold issue
  split
  · exact h
  · split
    · exact h
    · exact h.modifyElement v (·.start p.machine.nextEvent)

theorem Ready.issue {w : VertexId} (hw : p.Ready w) (v : VertexId) : (p.issue v).Ready w := by
  unfold Schedule.issue
  split
  · exact hw
  · split
    · exact hw
    · obtain ⟨el, t, hel, hopen, ht, hlt⟩ := hw
      by_cases hvw : v = w
      · exact ⟨el.start p.machine.nextEvent, t, by simp [hvw, hel], rfl, ht, hlt⟩
      · exact ⟨el, t, by simp [hvw, hel], hopen, ht, hlt⟩

theorem issue_eq {el : Element} {t : StreamId} (hv : p.dag.element? v = some el)
    (ht : el.stream = some t) :
    p.issue v = {
      dag := p.dag.modifyElement v (·.start p.machine.nextEvent)
      pool := { p.pool with events := p.pool.events.insert p.machine.nextEvent () }
      machine := p.machine.withWork t (p.dag.awaited v t)
        ⟨el.id, el.label, p.machine.failing.contains el.label⟩
      running := p.running ++ [v] } := by
  simp only [issue, hv, ht]

theorem enlist_eq {e : Element} {d : Dag} (hd : p.dag.append e = .ok d) :
    p.enlist e = { p with
      dag := d.modifyElement p.dag.vertices.length
        (·.bind (p.pool.choice d p.machine.nextStream p.dag.vertices.length).1)
      pool := (p.pool.choice d p.machine.nextStream p.dag.vertices.length).2.bind
        (p.pool.choice d p.machine.nextStream p.dag.vertices.length).1 p.dag.vertices.length
      machine :=
        if p.pool.slots.contains (p.pool.choice d p.machine.nextStream p.dag.vertices.length).1
        then p.machine else p.machine.addStream } := by
  simp only [enlist, hd]

theorem length_enlist (h : p.dag.Linked) {e : Element} (he : e.id = none) :
    (p.enlist e).dag.vertices.length = p.dag.vertices.length + 1 := by
  obtain ⟨d, hd, ha⟩ := Dag.append_eq h he
  rw [enlist_eq hd]
  exact (Dag.length_modifyElement ..).trans ha.length

/-- **Taking in an element and handing over an earlier vertex commute.** -/
theorem enlist_issue (h : p.dag.Linked) (hv : p.Ready v) {e : Element} (he : e.id = none) :
    (p.issue v).enlist e = (p.enlist e).issue v := by
  obtain ⟨el, t, hel, hopen, ht, hlt⟩ := hv
  obtain ⟨d, hd, ha⟩ := Dag.append_eq h he
  have hlen := Dag.lt_of_element? hel
  have hnew : p.dag.vertices.length ≠ v := Nat.ne_of_gt hlen
  obtain ⟨active, hel'⟩ := ha.element?_of_old hel
  have hbound : (p.enlist e).dag.element? v = some { el with active } := by
    simp [enlist_eq hd, hnew, hel']
  have hstart := Dag.append_start ha hd hlen ((Dag.isTerminal_eq hel).trans hopen)
    p.machine.nextEvent
  have hchoice := StreamPool.choice_start p.pool (d := d) (v := v)
    ((Dag.isTerminal_eq hel').trans hopen) p.machine.nextEvent
  rw [issue_eq hel ht, issue_eq hbound ht, enlist_eq hd, enlist_eq hstart]
  simp only [Dag.length_modifyElement, StreamPool.choice_events, hchoice, ha.awaited_old h hlen,
    Machine.nextStream_withWork]
  have hevents := p.pool.events_choice d p.machine.nextStream p.dag.vertices.length
  generalize p.pool.choice d p.machine.nextStream p.dag.vertices.length = choice at hevents ⊢
  obtain ⟨u, pool⟩ := choice
  have hcomm := d.modifyElement_comm (f := (·.start p.machine.nextEvent)) (g := (·.bind u))
    fun heq => absurd heq.symm hnew
  have hpool : ({ pool with events := p.pool.events.insert p.machine.nextEvent () } :
      StreamPool).bind u p.dag.vertices.length =
      { pool.bind u p.dag.vertices.length with
        events := pool.events.insert p.machine.nextEvent () } := by
    rw [← hevents]
    rfl
  cases p.pool.slots.contains u with
  | true =>
      simp only [if_true, hcomm, hpool]
      rfl
  | false =>
      simp only [Bool.false_eq_true, if_false, hcomm, hpool,
        p.machine.addStream_withWork (Nat.ne_of_lt hlt)]
      rfl

/-- Taking in an element commutes with handing over any number of earlier vertices. -/
theorem enlist_issueAll (h : p.dag.Linked) {vs : List VertexId} (hvs : ∀ v ∈ vs, p.Ready v)
    {e : Element} (he : e.id = none) : (p.issueAll vs).enlist e = (p.enlist e).issueAll vs := by
  induction vs generalizing p with
  | nil => rfl
  | cons v rest ih =>
      have hrest : ∀ w ∈ rest, (p.issue v).Ready w :=
        fun w hw => (hvs w (List.mem_cons_of_mem _ hw)).issue v
      calc (p.issueAll (v :: rest)).enlist e
          = ((p.issue v).enlist e).issueAll rest := ih (linked_issue h v) hrest
        _ = ((p.enlist e).issue v).issueAll rest := by
            rw [enlist_issue h (hvs v List.mem_cons_self) he]

end Schedule

end LaunchGraph
