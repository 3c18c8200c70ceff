import LaunchGraph.Proofs.Timeline

/-!
# Stages — the parts of a stage fit together

The lists of a context follow the lives of its vertices (`Agenda`): what is due or held back has
not been issued, in increasing order; what has been issued and not been seen to be over is
running.  The pool owns exactly the streams and events of the device, and a vertex that is not
over is bound to one of the streams (`Stage.Owned`).  With the timeline of the device this makes a
stage coherent (`Stage.Coherent`), and every move and every disturbance keeps it so
(`Coherent.move`, `Coherent.disturbance`).
-/

namespace LaunchGraph

/-! ### States of vertices -/

namespace Dag

/-- Where a vertex stands. -/
def state? (d : Dag) (v : VertexId) : Option Lifecycle := (d.element? v).map Element.state

theorem state?_of_element? {d : Dag} {v : VertexId} {el : Element} (h : d.element? v = some el) :
    d.state? v = some el.state := by
  simp [state?, h]

theorem state?_eq_some {d : Dag} {v : VertexId} {x : Lifecycle} :
    d.state? v = some x ↔ ∃ el, d.element? v = some el ∧ el.state = x :=
  Option.map_eq_some_iff

theorem lt_of_state? {d : Dag} {v : VertexId} {x : Lifecycle} (h : d.state? v = some x) :
    v < d.vertices.length := by
  obtain ⟨el, hel, -⟩ := state?_eq_some.mp h
  exact lt_of_element? hel

theorem state?_modifyElement {d : Dag} {v : VertexId} {el : Element} (h : d.element? v = some el)
    (g : Element → Element) :
    (d.modifyElement v g).state? = Function.update d.state? v (some (g el).state) := by
  funext w
  by_cases hw : w = v
  · subst hw
    simp [state?, h]
  · simp [state?, hw, Ne.symm hw]

theorem Appended.state? {d d' : Dag} {e : Element} (h : d.Appended e d') :
    d'.state? = Function.update d.state? d.vertices.length (some e.state) := by
  funext w
  by_cases hw : w = d.vertices.length
  · subst hw
    simp [Dag.state?, h.element?_new]
  · rw [Function.update_of_ne hw, Dag.state?, Dag.state?, h.element?_old w hw]
    split <;> cases d.element? w <;> rfl

/-- Every element knows its vertex. -/
def Numbered (d : Dag) : Prop := ∀ v el, d.element? v = some el → el.id = some v

theorem Numbered.modifyElement {d : Dag} (h : d.Numbered) (v : VertexId) {g : Element → Element}
    (hg : ∀ el, (g el).id = el.id) : (d.modifyElement v g).Numbered := by
  intro w x hx
  rcases element?_modifyElement_cases hx with ⟨rfl, old, ho, rfl⟩ | ⟨-, hx⟩
  · exact (hg old).trans (h w old ho)
  · exact h w x hx

theorem Numbered.append {d d' : Dag} (h : d.Numbered) {e : Element} (ha : d.Appended e d') :
    d'.Numbered := by
  intro v el hv
  rcases ha.element?_cases hv with ⟨rfl, rfl⟩ | ⟨-, old, active, ho, rfl⟩
  · rfl
  · exact h v old ho

theorem isFailed_iff {d : Dag} {v : VertexId} : d.isFailed v = true ↔ d.state? v = some .failed := by
  unfold isFailed state? Element.isFailed
  cases d.element? v <;> simp

end Dag

/-! ### What is held back, and what is running -/

/-- What is held back and what is running, given the states of the vertices. -/
structure Agenda (state? : VertexId → Option Lifecycle) (held running : List VertexId) :
    Prop where
  held_sorted : held.Pairwise (· < ·)
  held_of_unstarted : ∀ v x, state? v = some x → x.isStarted = false → v ∈ held
  held_state : ∀ v ∈ held, state? v = some .scheduled ∨ state? v = some .failed
  running_lt : ∀ u ∈ running, ∀ v ∈ held, u < v
  mem_running : ∀ v, v ∈ running ↔ state? v = some .running
  running_sorted : running.Pairwise (· < ·)

namespace Agenda

variable {st : VertexId → Option Lifecycle} {held running : List VertexId}

/-- The vertices before the first that is held back have been issued. -/
theorem started_of_lt (h : Agenda st held running) {v : VertexId} {rest : List VertexId}
    (hheld : held = v :: rest) {u : VertexId} (hu : u < v) {x : Lifecycle} (hx : st u = some x) :
    x.isStarted = true := by
  by_contra hs
  have hmem := h.held_of_unstarted u x hx (by simpa using hs)
  have hsorted := h.held_sorted
  rw [hheld] at hmem hsorted
  rcases List.mem_cons.mp hmem with rfl | hmem
  · exact Nat.lt_irrefl _ hu
  · exact Nat.lt_asymm hu ((List.pairwise_cons.mp hsorted).1 u hmem)

/-- A vertex may fail. -/
theorem fail (h : Agenda st held running) (v : VertexId) :
    Agenda (Function.update st v (some .failed)) held (running.filter (· ≠ v)) where
  held_sorted := h.held_sorted
  held_of_unstarted w x hx hs := by
    by_cases hw : w = v
    · subst hw
      obtain rfl : Lifecycle.failed = x := by simpa using hx
      simp [Lifecycle.isStarted] at hs
    · exact h.held_of_unstarted w x (by simpa [hw] using hx) hs
  held_state w hw := by
    by_cases heq : w = v
    · exact .inr (by simp [heq])
    · simpa [heq] using h.held_state w hw
  running_lt u hu w hw := h.running_lt u (List.mem_filter.mp hu).1 w hw
  mem_running w := by
    by_cases hw : w = v
    · simp [hw]
    · simp [hw, h.mem_running]
  running_sorted := h.running_sorted.filter _

/-- A vertex that is running may finish. -/
theorem finish (h : Agenda st held running) {v : VertexId} (hv : st v = some .running) :
    Agenda (Function.update st v (some .finished)) held (running.filter (· ≠ v)) where
  held_sorted := h.held_sorted
  held_of_unstarted w x hx hs := by
    by_cases hw : w = v
    · subst hw
      obtain rfl : Lifecycle.finished = x := by simpa using hx
      simp [Lifecycle.isStarted] at hs
    · exact h.held_of_unstarted w x (by simpa [hw] using hx) hs
  held_state w hw := by
    have hne : w ≠ v := by
      rintro rfl
      have := h.held_state w hw
      simp [hv] at this
    simpa [hne] using h.held_state w hw
  running_lt u hu w hw := h.running_lt u (List.mem_filter.mp hu).1 w hw
  mem_running w := by
    by_cases hw : w = v
    · simp [hw]
    · simp [hw, h.mem_running]
  running_sorted := h.running_sorted.filter _

/-- The first vertex that is held back may be passed over once it has failed. -/
theorem pop {v : VertexId} (h : Agenda st (v :: held) running) {x : Lifecycle}
    (hv : st v = some x) (hx : x.isStarted = true) : Agenda st held running where
  held_sorted := (List.pairwise_cons.mp h.held_sorted).2
  held_of_unstarted w y hy hs := by
    rcases List.mem_cons.mp (h.held_of_unstarted w y hy hs) with rfl | hw
    · obtain rfl : x = y := Option.some.inj (hv.symm.trans hy)
      simp [hx] at hs
    · exact hw
  held_state w hw := h.held_state w (List.mem_cons_of_mem _ hw)
  running_lt u hu w hw := h.running_lt u hu w (List.mem_cons_of_mem _ hw)
  mem_running := h.mem_running
  running_sorted := h.running_sorted

/-- The first vertex that is held back may be issued. -/
theorem start {v : VertexId} (h : Agenda st (v :: held) running) :
    Agenda (Function.update st v (some .running)) held (running ++ [v]) := by
  obtain ⟨hlt, hsorted⟩ := List.pairwise_cons.mp h.held_sorted
  have hne : ∀ w ∈ held, w ≠ v := fun w hw heq => Nat.lt_irrefl _ (heq ▸ hlt w hw)
  refine ⟨hsorted, fun w x hx hs => ?_, fun w hw => ?_, fun u hu w hw => ?_, fun w => ?_, ?_⟩
  · by_cases hw : w = v
    · subst hw
      obtain rfl : Lifecycle.running = x := by simpa using hx
      simp [Lifecycle.isStarted] at hs
    · exact (List.mem_cons.mp (h.held_of_unstarted w x (by simpa [hw] using hx) hs)).resolve_left hw
  · simpa [hne w hw] using h.held_state w (List.mem_cons_of_mem _ hw)
  · rcases List.mem_append.mp hu with hu | hu
    · exact h.running_lt u hu w (List.mem_cons_of_mem _ hw)
    · rw [List.mem_singleton.mp hu]
      exact hlt w hw
  · by_cases hw : w = v
    · simp [hw]
    · simp [hw, h.mem_running]
  · refine List.pairwise_append.mpr ⟨h.running_sorted, List.pairwise_singleton _ _, ?_⟩
    intro u hu w hw
    rw [List.mem_singleton.mp hw]
    exact h.running_lt u hu v List.mem_cons_self

/-- A new vertex may be held back. -/
theorem enlist (h : Agenda st held running) {n : VertexId} (hn : ∀ v x, st v = some x → v < n) :
    Agenda (Function.update st n (some .scheduled)) (held ++ [n]) running := by
  have hheld : ∀ v ∈ held, v < n := fun v hv => by
    rcases h.held_state v hv with hs | hs <;> exact hn v _ hs
  have hrunning : ∀ v ∈ running, v < n := fun v hv => hn v _ ((h.mem_running v).mp hv)
  refine ⟨?_, fun w x hx hs => ?_, fun w hw => ?_, fun u hu w hw => ?_, fun w => ?_,
    h.running_sorted⟩
  · refine List.pairwise_append.mpr ⟨h.held_sorted, List.pairwise_singleton _ _, ?_⟩
    intro u hu w hw
    rw [List.mem_singleton.mp hw]
    exact hheld u hu
  · by_cases hw : w = n
    · simp [hw]
    · exact List.mem_append_left _ (h.held_of_unstarted w x (by simpa [hw] using hx) hs)
  · rcases List.mem_append.mp hw with hw | hw
    · simpa [Nat.ne_of_lt (hheld w hw)] using h.held_state w hw
    · exact .inl (by simp [List.mem_singleton.mp hw])
  · rcases List.mem_append.mp hw with hw | hw
    · exact h.running_lt u hu w hw
    · rw [List.mem_singleton.mp hw]
      exact hrunning u hu
  · by_cases hw : w = n
    · subst hw
      simpa using fun hmem => Nat.lt_irrefl _ (hrunning w hmem)
    · simp [hw, h.mem_running]

end Agenda

/-! ### Queues -/

namespace IssueQueue

/-- Nothing is held back under eager issue. -/
def Settled (q : IssueQueue) : Prop := q.policy = .eager → q.pending = []

theorem Settled.register {q : IssueQueue} (h : q.Settled) (v : VertexId) (b : Bool) :
    (q.register v b).2.Settled := by
  unfold IssueQueue.register Settled
  split
  · next hp => exact fun _ => h hp
  · next hp =>
    dsimp only
    split <;> simp [drain, hp]

@[simp] theorem policy_register (q : IssueQueue) (v : VertexId) (mustFlush : Bool) :
    (q.register v mustFlush).2.policy = q.policy := by
  unfold IssueQueue.register
  split
  · rfl
  · dsimp only
    split <;> rfl

/-- What is to be issued now and what is held back, together, are what was held back and the new
vertex. -/
theorem Settled.held_register {q : IssueQueue} (h : q.Settled) (v : VertexId) (b : Bool) :
    (q.register v b).1 ++ (q.register v b).2.pending = q.pending ++ [v] := by
  unfold IssueQueue.register
  split
  · next hp => simp [h hp]
  · dsimp only
    split <;> simp [drain]

/-- Nothing is held back once a vertex has come that must be flushed. -/
theorem Settled.pending_register {q : IssueQueue} (h : q.Settled) (v : VertexId) :
    (q.register v true).2.pending = [] := by
  unfold IssueQueue.register
  split
  · next hp => exact h hp
  · simp [drain]

end IssueQueue

/-! ### Coherent stages -/

namespace Stage

/-- The pool owns the streams and events of the device, and a vertex that is not over is bound to
a stream. -/
structure Owned (s : Stage) : Prop where
  bound : ∀ v el, s.dag.element? v = some el → el.isTerminal = false →
    ∃ t, el.stream = some t ∧ s.machine.streams.contains t = true
  slots : ∀ t, s.pool.slots.contains t = s.machine.streams.contains t
  events : ∀ e, s.pool.events.contains e = s.machine.events.contains e
  stream_lt : ∀ t, s.machine.streams.contains t = true → t < s.machine.nextStream

/-- What is due and what is held back. -/
def held (s : Stage) : List VertexId := s.due ++ s.queue.pending

/-- The parts of the stage fit together. -/
structure Coherent (s : Stage) : Prop where
  linked : s.dag.Linked
  numbered : s.dag.Numbered
  faults : s.device.faults = []
  settled : s.queue.Settled
  agenda : Agenda s.dag.state? s.held s.running
  owned : s.Owned
  timeline : Timeline s.dag s.machine s.tickets

/-- The stage of a new context on a new device. -/
def initial (options : ContextOptions) : Stage := { Context.new options {} with }

theorem Coherent.initial (options : ContextOptions) : (Stage.initial options).Coherent where
  linked := .empty _
  numbered := by simp [Stage.initial, Context.new, Dag.Numbered, Dag.element?]
  faults := rfl
  settled := fun _ => rfl
  agenda := by
    constructor <;>
      simp [Stage.initial, Context.new, held, IssueQueue.new, Dag.state?, Dag.element?]
  owned := by
    constructor <;> simp [Stage.initial, Context.new, Dag.element?]
  timeline := .empty _

namespace Coherent

variable {s : Stage}

/-- A vertex that is running has an event the device knows. -/
theorem event_of_running (h : s.Coherent) {v : VertexId} (hv : v ∈ s.running) :
    ∃ el e, s.dag.element? v = some el ∧ el.state = .running ∧ el.event = some e ∧
      s.machine.events.contains e = true := by
  obtain ⟨el, hel, hr⟩ := Dag.state?_eq_some.mp ((h.agenda.mem_running v).mp hv)
  obtain ⟨e, he, hc⟩ := h.timeline.event_of_running v el hel hr
  exact ⟨el, e, hel, hr, he, hc⟩

theorem mem_running (h : s.Coherent) {v : VertexId} {el : Element}
    (hv : s.dag.element? v = some el) : v ∈ s.running ↔ el.state = .running := by
  rw [h.agenda.mem_running, Dag.state?_of_element? hv]
  exact ⟨Option.some.inj, congrArg some⟩

/-- The element of a vertex changes, and with it the agenda and the timeline; the queues, the
streams and the events do not. -/
theorem modifyElement (h : s.Coherent) {v : VertexId} {el : Element}
    (hv : s.dag.element? v = some el) {g : Element → Element} {t : Stage}
    (hdag : t.dag = s.dag.modifyElement v g) (hid : ∀ x, (g x).id = x.id)
    (hstream : (g el).isTerminal = false → el.isTerminal = false ∧ (g el).stream = el.stream)
    (hfaults : t.device.faults = s.device.faults) (hqueue : t.queue = s.queue)
    (hagenda : Agenda (Function.update s.dag.state? v (some (g el).state)) t.held t.running)
    (hslots : ∀ u, t.pool.slots.contains u = s.pool.slots.contains u)
    (hstreams : ∀ u, t.machine.streams.contains u = s.machine.streams.contains u)
    (hnext : t.machine.nextStream = s.machine.nextStream)
    (hevents : ∀ e, t.pool.events.contains e = t.machine.events.contains e)
    (htimeline : Timeline (s.dag.modifyElement v g) t.machine t.tickets) : t.Coherent where
  linked := hdag ▸ h.linked.modifyElement v g
  numbered := hdag ▸ h.numbered.modifyElement v hid
  faults := hfaults.trans h.faults
  settled := hqueue ▸ h.settled
  agenda := by
    rw [hdag, Dag.state?_modifyElement hv]
    exact hagenda
  owned := {
    bound := fun w x hx ht => by
      rw [hdag] at hx
      simp only [hstreams]
      rcases Dag.element?_modifyElement_inv hv hx with ⟨rfl, rfl⟩ | ⟨-, hx⟩
      · obtain ⟨hold, hs⟩ := hstream ht
        rw [hs]
        exact h.owned.bound w el hv hold
      · exact h.owned.bound w x hx ht
    slots := fun u => by rw [hslots, hstreams, h.owned.slots]
    events := hevents
    stream_lt := fun u hu => by
      rw [hnext]
      exact h.owned.stream_lt u (by rw [← hstreams]; exact hu) }
  timeline := hdag ▸ htimeline

/-- Nothing that matters changes but the device, and the device keeps its streams and events. -/
theorem congr (h : s.Coherent) {t : Stage} (hdag : t.dag = s.dag) (hpool : t.pool = s.pool)
    (hsettled : t.queue.Settled) (hheld : t.held = s.held) (hrunning : t.running = s.running)
    (hfaults : t.device.faults = s.device.faults)
    (hstreams : ∀ u, t.machine.streams.contains u = s.machine.streams.contains u)
    (hnext : t.machine.nextStream = s.machine.nextStream)
    (hevents : ∀ e, t.machine.events.contains e = s.machine.events.contains e)
    (htimeline : Timeline s.dag t.machine t.tickets) : t.Coherent where
  linked := hdag ▸ h.linked
  numbered := hdag ▸ h.numbered
  faults := hfaults.trans h.faults
  settled := hsettled
  agenda := by
    rw [hdag, hheld, hrunning]
    exact h.agenda
  owned := {
    bound := by simpa only [hdag, hstreams] using h.owned.bound
    slots := by simpa only [hpool, hstreams] using h.owned.slots
    events := by simpa only [hpool, hevents] using h.owned.events
    stream_lt := by simpa only [hstreams, hnext] using h.owned.stream_lt }
  timeline := hdag ▸ htimeline

theorem sameWork (h : s.Coherent) {t : Stage} (hdag : t.dag = s.dag) (hpool : t.pool = s.pool)
    (hqueue : t.queue = s.queue) (hdue : t.due = s.due) (hrunning : t.running = s.running)
    (htickets : t.tickets = s.tickets) (hfaults : t.device.faults = s.device.faults)
    (hw : s.machine.SameWork t.machine) : t.Coherent :=
  h.congr hdag hpool (hqueue ▸ h.settled) (by simp only [held, hdue, hqueue]) hrunning hfaults
    (fun u => by rw [hw.streams]) hw.nextStream (fun e => by rw [hw.events])
    (htickets ▸ h.timeline.congr hw)

theorem disturbance (h : s.Coherent) {t : Stage} (hd : Disturbance s t) : t.Coherent :=
  h.sameWork hd.dag hd.pool hd.queue hd.due hd.running hd.tickets hd.faults hd.work

theorem adjust (h : s.Coherent) {t : Stage} (ha : Adjusts s t) : t.Coherent :=
  h.sameWork ha.dag ha.pool ha.queue ha.due ha.running ha.tickets ha.faults ha.work

theorem advance (h : s.Coherent) {t : StreamId} {m : Machine}
    (ha : s.machine.advance t = some m) : (s.onMachine m).Coherent := by
  refine h.congr rfl rfl h.settled rfl rfl rfl ?_ ?_ ?_ (h.timeline.advance ha)
  · exact (Machine.Advances.more ha (.refl m)).contains
  · obtain ⟨op, rest, p, f, -, -, rfl⟩ := Machine.advance_cases ha
    rfl
  · exact h.timeline.ledger.contains_advance ha

/-! ### Vertices come to their end -/

/-- A vertex may fail that is not over; if it is running, its event has failed. -/
theorem fail (h : s.Coherent) {v : VertexId} {el : Element} (hv : s.dag.element? v = some el)
    (ht : el.isTerminal = false)
    (hp : el.state = .running → ∃ e, el.event = some e ∧ s.machine.events.get? e = some .failed)
    (cause : FailureCause) :
    Coherent { s.failed v el cause with running := s.running.filter (· ≠ v) } :=
  h.modifyElement (g := fun e => e.fail cause) hv rfl (fun _ => rfl)
    (by simp [Element.fail, Element.isTerminal, Lifecycle.isTerminal]) rfl rfl (h.agenda.fail v)
    (by simp [failed]) (fun _ => rfl) rfl
    (by simpa [failed] using h.owned.events) (h.timeline.fail hv ht hp cause)

theorem filter_running (h : s.Coherent) {v : VertexId} {el : Element}
    (hv : s.dag.element? v = some el) (hs : el.state ≠ .running) :
    s.running.filter (· ≠ v) = s.running := by
  refine List.filter_eq_self.mpr fun w hw => ?_
  simp only [ne_eq, decide_not, Bool.not_eq_eq_eq_not, Bool.not_true, decide_eq_false_iff_not]
  rintro rfl
  exact hs ((h.mem_running hv).mp hw)

theorem cascade (h : s.Coherent) {v : VertexId} {el : Element} (hv : s.dag.element? v = some el)
    (hs : el.isStarted = false) (cause : FailureCause) : (s.failed v el cause).Coherent := by
  have hstate : el.state ≠ .running := fun hr => by
    simp [Element.isStarted, hr, Lifecycle.isStarted] at hs
  have := h.fail hv (Element.isTerminal_of_unstarted hs) (fun hr => absurd hr hstate) cause
  rwa [h.filter_running hv hstate] at this

theorem crash (h : s.Coherent) {v : VertexId} {el : Element} {e : EventId}
    (hv : s.dag.element? v = some el) (hr : el.state = .running) (he : el.event = some e)
    (hc : s.machine.events.get? e = some .failed) (cause : FailureCause) :
    Coherent { s.failed v el cause with running := s.running.filter (· ≠ v) } :=
  h.fail hv (Element.isTerminal_of_running hr) (fun _ => ⟨e, he, hc⟩) cause

theorem finish (h : s.Coherent) {v : VertexId} {el : Element} {e : EventId}
    (hv : s.dag.element? v = some el) (hr : el.state = .running) (he : el.event = some e)
    (hc : s.machine.events.get? e = some .complete)
    (hp : ∀ u, s.dag.HasEdge u v → s.dag.IsFinished u) : (s.finished v el e).Coherent := by
  refine h.modifyElement (g := Element.finish) hv rfl (fun _ => rfl) ?_ rfl rfl ?_
    (by simp [finished]) (fun _ => rfl) rfl ?_ ?_
  · simp [Element.finish, Element.isTerminal, Lifecycle.isTerminal]
  · exact h.agenda.finish ((Dag.state?_of_element? hv).trans (congrArg some hr))
  · intro d
    simp [finished, Stage.machine, h.owned.events]
  · refine (h.timeline.finish hv he hc hp).eraseEvent hc fun w x hx hrun hev => ?_
    -- no other running vertex has the event: their tickets would agree
    rcases Dag.element?_modifyElement_cases hx with ⟨rfl, old, -, rfl⟩ | ⟨hne, hx⟩
    · simp [Element.finish] at hrun
    · obtain ⟨t, -, hk⟩ := h.timeline.ticket v el e hv he
      obtain ⟨t', -, hk'⟩ := h.timeline.ticket w x e hx hev
      exact hne (congrArg Ticket.vertex (h.timeline.ledger.event_inj _ hk' _ hk rfl))

/-! ### Vertices that are due -/

/-- The first vertex that is due may be passed over once it is over. -/
theorem pop (h : s.Coherent) {v : VertexId} {rest : List VertexId} {el : Element}
    (hd : s.due = v :: rest) (hv : s.dag.element? v = some el) (ht : el.isStarted = true) :
    Coherent { s with due := rest } := by
  have hagenda := h.agenda
  rw [held, hd, List.cons_append] at hagenda
  exact ⟨h.linked, h.numbered, h.faults, h.settled, hagenda.pop (Dag.state?_of_element? hv) ht,
    ⟨h.owned.bound, h.owned.slots, h.owned.events, h.owned.stream_lt⟩, h.timeline⟩

/-- What is held back is part of the graph. -/
theorem element_of_held (h : s.Coherent) {v : VertexId} (hv : v ∈ s.held) :
    ∃ el, s.dag.element? v = some el := by
  rcases h.agenda.held_state v hv with hst | hst <;>
    exact (Dag.state?_eq_some.mp hst).imp fun _ => And.left

theorem element_of_due (h : s.Coherent) {v : VertexId} {rest : List VertexId}
    (hd : s.due = v :: rest) : ∃ el, s.dag.element? v = some el :=
  h.element_of_held (by simp [held, hd])

/-- The vertices before the first that is due have been issued. -/
theorem started_of_lt (h : s.Coherent) {u v : VertexId} {rest : List VertexId} {x : Element}
    (hd : s.due = v :: rest) (hlt : u < v) (hx : s.dag.element? u = some x) :
    x.isStarted = true := by
  have hheld : s.held = v :: (rest ++ s.queue.pending) := by simp [held, hd]
  exact h.agenda.started_of_lt hheld hlt (Dag.state?_of_element? hx)

/-- A vertex that is due and not over is scheduled. -/
theorem state_of_due (h : s.Coherent) {v : VertexId} {rest : List VertexId} {el : Element}
    (hd : s.due = v :: rest) (hv : s.dag.element? v = some el) (ht : el.isTerminal = false) :
    el.state = .scheduled := by
  have hstate := h.agenda.held_state v (by simp [held, hd])
  rw [Dag.state?_of_element? hv] at hstate
  rcases hstate with hs | hf
  · exact Option.some.inj hs
  · simp [Element.isTerminal, Option.some.inj hf, Lifecycle.isTerminal] at ht

/-- The first vertex that is due may fail. -/
theorem shun (h : s.Coherent) {v : VertexId} {rest : List VertexId} {el : Element}
    (hd : s.due = v :: rest) (hv : s.dag.element? v = some el) (ht : el.isTerminal = false)
    (cause : FailureCause) :
    Coherent { s.failed v el cause with running := s.running.filter (· ≠ v), due := rest } := by
  have hs := h.state_of_due hd hv ht
  have hfailed := h.fail hv ht (fun hr => by simp [hs] at hr) cause
  have hv' : (s.failed v el cause).dag.element? v = some (el.fail cause) := by simp [failed, hv]
  exact hfailed.pop hd hv' rfl

/-- A vertex that is still to be issued has not been launched. -/
theorem not_launched_of_due (h : s.Coherent) {v : VertexId} {rest : List VertexId}
    (hd : s.due = v :: rest) (hv : s.dag.isTerminal v = false) :
    v ∉ Machine.launchedVertices s.machine.history := by
  intro hmem
  obtain ⟨k, hk, rfl⟩ := h.timeline.ledger.ticket_of_launched hmem
  obtain ⟨x, hx, hstarted⟩ := h.timeline.started k hk
  rw [Dag.isTerminal_eq hx] at hv
  simp [Element.isStarted, h.state_of_due hd hx hv, Lifecycle.isStarted] at hstarted

/-- The waits of a vertex are for events that are known. -/
theorem waits_lt (h : s.Coherent) {v : VertexId} {t : StreamId} {ps : List VertexId}
    {waits : List EventId} (hw : Scheduler.waitsFor s.dag v t ps = .ok waits) :
    ∀ e ∈ waits, e < s.machine.nextEvent := by
  intro e he
  obtain ⟨p, -, x, hx, -, hev⟩ := Scheduler.mem_waitsFor hw he
  obtain ⟨t', -, hk⟩ := h.timeline.ticket p x e hx hev
  exact h.timeline.ledger.event_lt _ hk

theorem reject (h : s.Coherent) {v : VertexId} {rest : List VertexId} {el : Element}
    {t : StreamId} {waits : List EventId} (hd : s.due = v :: rest)
    (hv : s.dag.element? v = some el) (ht : el.isTerminal = false)
    (hw : Scheduler.waitsFor s.dag v t (s.dag.parentVertices v) = .ok waits) (reason : String) :
    Coherent { s.rejected v el t waits reason with due := rest } := by
  have hshun := h.shun hd hv ht (.launch reason)
  refine hshun.congr rfl rfl hshun.settled rfl rfl rfl ?_ rfl (fun _ => rfl)
    (hshun.timeline.extend_waits t (h.waits_lt hw))
  intro u
  exact Machine.contains_extend _ _ _ _

/-- A parent of a vertex that may be issued is finished, or it is running with a pending event that
is recorded on the same stream or waited for. -/
theorem parent_of_due (h : s.Coherent) (ho : s.Observed) {v : VertexId} {rest : List VertexId}
    {t : StreamId} {waits : List EventId} (hd : s.due = v :: rest)
    (hw : Scheduler.waitsFor s.dag v t (s.dag.parentVertices v) = .ok waits) {u : VertexId}
    (huv : s.dag.HasEdge u v) :
    s.dag.IsFinished u ∨ ∃ x e, s.dag.element? u = some x ∧ x.event = some e ∧
      s.machine.events.get? e = some .pending ∧ (x.stream = some t ∨ e ∈ waits) := by
  have hlt := h.linked.lt_of_hasEdge huv
  obtain ⟨x, hx⟩ := Dag.exists_element? (Nat.lt_trans hlt.1 hlt.2)
  obtain ⟨hfailed, hcase⟩ :=
    Scheduler.waitsFor_parent hw (h.linked.mem_parentVertices.mpr huv) hx
  have hstarted := h.started_of_lt hd hlt.1 hx
  cases hstate : x.state with
  | created | scheduled =>
      simp [Element.isStarted, hstate, Lifecycle.isStarted] at hstarted
  | failed => simp [Element.isFailed, hstate] at hfailed
  | finished => exact .inl ⟨x, hx, hstate⟩
  | running =>
      obtain ⟨x', e, hx', he, hp⟩ := ho u ((h.mem_running hx).mpr hstate)
      obtain rfl : x = x' := Option.some.inj (hx.symm.trans hx')
      refine .inr ⟨x, e, hx, he, hp, ?_⟩
      rcases hcase with hterminal | hstream | ⟨e', he', hmem⟩
      · simp [Element.isTerminal, hstate, Lifecycle.isTerminal] at hterminal
      · exact .inl hstream
      · obtain rfl : e = e' := Option.some.inj (he.symm.trans he')
        exact .inr hmem

theorem issue (h : s.Coherent) (ho : s.Observed) {v : VertexId} {rest : List VertexId}
    {el : Element} {t : StreamId} {waits : List EventId} (hd : s.due = v :: rest)
    (hv : s.dag.element? v = some el) (ht : el.isTerminal = false) (hs : el.stream = some t)
    (hw : Scheduler.waitsFor s.dag v t (s.dag.parentVertices v) = .ok waits) :
    Coherent { s.issued v el t waits with due := rest } := by
  have hstate := h.state_of_due hd hv ht
  have hunstarted : el.isStarted = false := by
    simp [Element.isStarted, hstate, Lifecycle.isStarted]
  have hagenda := h.agenda
  rw [held, hd, List.cons_append] at hagenda
  obtain ⟨t', ht', hc⟩ := h.owned.bound v el hv ht
  obtain rfl : t = t' := Option.some.inj (hs.symm.trans ht')
  refine h.modifyElement (g := fun e => e.start s.machine.nextEvent) hv rfl (fun _ => rfl)
    (fun _ => ⟨ht, rfl⟩) rfl rfl hagenda.start (fun _ => rfl) ?_ rfl ?_ ?_
  · intro u
    exact Machine.contains_extend _ _ _ _
  · intro e
    simp [issued, Stage.machine, Machine.withWork, h.owned.events]
  · exact h.timeline.issue hv hunstarted hs hc (h.numbered v el hv) (h.waits_lt hw)
      fun u huv => h.parent_of_due ho hd hw huv

/-! ### Vertices come in -/

/-- A stream was found for a new vertex. -/
theorem assigned (h : s.Coherent) {e : Element} {d : Dag} {t : StreamId} {sch : Scheduler}
    (hu : e.Unused) (hd : s.dag.append e = .ok d)
    (ha : (Scheduler.assign s.dag.vertices.length).run { s.toScheduler with dag := d } =
      (.ok t, sch)) :
    s.dag.Appended e d ∧
      Scheduler.Assigned { s.toScheduler with dag := d } s.dag.vertices.length t sch := by
  obtain ⟨d', hd', happ⟩ := Dag.append_eq h.linked hu.id
  obtain rfl : d' = d := Except.ok.inj (hd'.symm.trans hd)
  refine ⟨happ, ?_⟩
  rcases Scheduler.run_assign (s := { s.toScheduler with dag := d' }) h.faults
    happ.element?_new with ⟨t', s', hrun, hs'⟩ | ⟨n, s', hrun, -⟩
  · obtain ⟨ht, rfl⟩ := Prod.mk.inj (hrun.symm.trans ha)
    obtain rfl : t' = t := Except.ok.inj ht
    exact hs'
  · simp [hrun] at ha

/-- No stream was found for a new vertex. -/
theorem limited (h : s.Coherent) {e : Element} {d : Dag} {error : Error} {sch : Scheduler}
    (hu : e.Unused) (hd : s.dag.append e = .ok d)
    (ha : (Scheduler.assign s.dag.vertices.length).run { s.toScheduler with dag := d } =
      (.error (.error error), sch)) :
    s.dag.Appended e d ∧ Scheduler.Limited { s.toScheduler with dag := d } sch := by
  obtain ⟨d', hd', happ⟩ := Dag.append_eq h.linked hu.id
  obtain rfl : d' = d := Except.ok.inj (hd'.symm.trans hd)
  refine ⟨happ, ?_⟩
  rcases Scheduler.run_assign (s := { s.toScheduler with dag := d' }) h.faults
    happ.element?_new with ⟨t', s', hrun, -⟩ | ⟨n, s', hrun, hs'⟩
  · simp [hrun] at ha
  · obtain ⟨-, rfl⟩ := Prod.mk.inj (hrun.symm.trans ha)
    exact hs'

/-- If no stream was found for a new vertex, the device was out of streams. -/
theorem outOfStreams (h : s.Coherent) {e : Element} {d : Dag} {error : Error} {sch : Scheduler}
    (hu : e.Unused) (hd : s.dag.append e = .ok d)
    (ha : (Scheduler.assign s.dag.vertices.length).run { s.toScheduler with dag := d } =
      (.error (.error error), sch)) : ∃ n, error = .device (.outOfStreams n) := by
  obtain ⟨d', hd', happ⟩ := Dag.append_eq h.linked hu.id
  obtain rfl : d' = d := Except.ok.inj (hd'.symm.trans hd)
  rcases Scheduler.run_assign (s := { s.toScheduler with dag := d' }) h.faults
    happ.element?_new with ⟨t', s', hrun, -⟩ | ⟨n, s', hrun, -⟩
  · simp [hrun] at ha
  · exact ⟨n, by simpa [hrun, eq_comm] using congrArg Prod.fst ha⟩

/-- The pool has no slot yet for the next stream of the device. -/
theorem slots_nextStream (h : s.Coherent) :
    s.pool.slots.contains s.machine.nextStream = false := by
  rw [h.owned.slots]
  exact Bool.eq_false_iff.mpr fun hc => Nat.lt_irrefl _ (h.owned.stream_lt _ hc)

/-- The streams of the device once a vertex has been bound to stream `t`. -/
theorem contains_assigned (h : s.Coherent) {d : Dag} {v : VertexId} {t : StreamId}
    {sch : Scheduler} (ha : Scheduler.Assigned { s.toScheduler with dag := d } v t sch)
    (u : StreamId) : sch.device.machine.streams.contains u =
      (decide (t = u) || s.machine.streams.contains u) := by
  rcases ha.machine with ⟨hm, ht⟩ | ⟨hm, rfl⟩
  · have ht' : s.machine.streams.contains t = true := (h.owned.slots t).symm.trans ht
    rw [hm]
    by_cases htu : t = u
    · simp [← htu, ht']
    · simp [htu]
  · simp [hm, Machine.addStream]

/-- A new vertex is bound to a stream that the pool owns. -/
theorem owned_assigned (h : s.Coherent) {e : Element} {d : Dag} {t : StreamId} {sch : Scheduler}
    (happ : s.dag.Appended e d)
    (ha : Scheduler.Assigned { s.toScheduler with dag := d } s.dag.vertices.length t sch)
    (queue : IssueQueue) (due : List VertexId) :
    Owned { s with toScheduler := sch, queue := queue, due := due } where
  bound v el hv hterminal := by
    rw [ha.dag] at hv
    simp only [Stage.machine, h.contains_assigned ha]
    rcases Dag.element?_modifyElement_cases hv with ⟨rfl, old, -, rfl⟩ | ⟨hne, hv⟩
    · exact ⟨t, rfl, by simp⟩
    · rcases happ.element?_cases hv with ⟨heq, -⟩ | ⟨-, old, active, ho, rfl⟩
      · exact absurd heq hne
      · obtain ⟨t', ht', hc⟩ := h.owned.bound v old ho hterminal
        exact ⟨t', ht', by simp [hc]⟩
  slots u := by
    simp only [Stage.machine, h.contains_assigned ha, ha.slots, h.owned.slots]
  events a := by
    have hevents : sch.device.machine.events = s.machine.events := by
      rcases ha.machine with ⟨hm, -⟩ | ⟨hm, -⟩ <;> simp [hm, Machine.addStream]
    simp only [Stage.machine, hevents, ha.events, h.owned.events]
  stream_lt u hu := by
    simp only [Stage.machine, h.contains_assigned ha, Bool.or_eq_true, decide_eq_true_eq] at hu ⊢
    rcases ha.machine with ⟨hm, ht⟩ | ⟨hm, rfl⟩
    · rw [hm]
      rcases hu with rfl | hu
      · exact h.owned.stream_lt t ((h.owned.slots t).symm.trans ht)
      · exact h.owned.stream_lt u hu
    · rw [hm]
      rcases hu with rfl | hu
      · exact Nat.lt_succ_self _
      · exact Nat.lt_succ_of_lt (h.owned.stream_lt u hu)

theorem enlist (h : s.Coherent) {e : Element} {d : Dag} {t : StreamId} {sch : Scheduler}
    (hu : e.Unused) (hd : s.dag.append e = .ok d)
    (ha : (Scheduler.assign s.dag.vertices.length).run { s.toScheduler with dag := d } =
      (.ok t, sch)) :
    Coherent { s with
      toScheduler := sch
      queue := (s.queue.register s.dag.vertices.length e.work.blocksHost).2
      due := s.due ++ (s.queue.register s.dag.vertices.length e.work.blocksHost).1 } := by
  obtain ⟨happ, hassigned⟩ := h.assigned hu hd ha
  have hdag : sch.dag = d.modifyElement s.dag.vertices.length fun e => e.bind t := hassigned.dag
  have hcreated : ({ e with id := some s.dag.vertices.length } : Element).state = .created :=
    hu.state
  exact {
    linked := by
      simp only [hdag]
      exact happ.linked.modifyElement _ _
    numbered := by
      simp only [hdag]
      exact (h.numbered.append happ).modifyElement _ fun _ => rfl
    faults := hassigned.faults.trans h.faults
    settled := h.settled.register _ _
    agenda := by
      have hheld : s.due ++ (s.queue.register s.dag.vertices.length e.work.blocksHost).1 ++
          (s.queue.register s.dag.vertices.length e.work.blocksHost).2.pending =
            s.held ++ [s.dag.vertices.length] := by
        rw [List.append_assoc, h.settled.held_register, held, List.append_assoc]
      simp only [held, hdag, hheld, Dag.state?_modifyElement happ.element?_new, happ.state?,
        Function.update_idem, Element.bind, hu.state]
      exact h.agenda.enlist fun _ _ => Dag.lt_of_state?
    owned := h.owned_assigned happ hassigned _ _
    timeline := by
      have htimeline := (h.timeline.append hu happ).bind happ.element?_new hcreated t
      simp only [Stage.machine, hdag]
      rcases hassigned.machine with ⟨hm, -⟩ | ⟨hm, -⟩
      · rw [hm]
        exact htimeline
      · rw [hm]
        refine htimeline.addStream (Bool.eq_false_iff.mpr fun hc => ?_)
        exact Nat.lt_irrefl _ (h.owned.stream_lt _ hc) }

theorem refuse (h : s.Coherent) {e : Element} {d : Dag} {error : Error} {sch : Scheduler}
    (hu : e.Unused) (hd : s.dag.append e = .ok d)
    (ha : (Scheduler.assign s.dag.vertices.length).run { s.toScheduler with dag := d } =
      (.error (.error error), sch)) (cause : FailureCause) :
    Coherent { s with
      toScheduler := { sch with
        dag := sch.dag.modifyElement s.dag.vertices.length fun e => e.fail cause } } := by
  obtain ⟨happ, hlimited⟩ := h.limited hu hd ha
  have hdag : sch.dag = d := hlimited.dag
  have hm : sch.device.machine = s.machine := hlimited.machine
  exact {
    linked := by
      simp only [hdag]
      exact happ.linked.modifyElement _ _
    numbered := by
      simp only [hdag]
      exact (h.numbered.append happ).modifyElement _ fun _ => rfl
    faults := hlimited.faults.trans h.faults
    settled := h.settled
    agenda := by
      have hrunning : s.running.filter (· ≠ s.dag.vertices.length) = s.running := by
        refine List.filter_eq_self.mpr fun w hw => ?_
        have := Dag.lt_of_state? ((h.agenda.mem_running w).mp hw)
        simpa using Nat.ne_of_lt this
      have hagenda := h.agenda.fail s.dag.vertices.length
      rw [hrunning] at hagenda
      simp only [hdag, Dag.state?_modifyElement happ.element?_new, happ.state?,
        Function.update_idem]
      exact hagenda
    owned := {
      bound := fun v el hv hterminal => by
        rw [hdag] at hv
        simp only [Stage.machine, hm]
        rcases Dag.element?_modifyElement_cases hv with ⟨rfl, old, -, rfl⟩ | ⟨hne, hv⟩
        · simp [Element.fail, Element.isTerminal, Lifecycle.isTerminal] at hterminal
        · rcases happ.element?_cases hv with ⟨heq, -⟩ | ⟨-, old, active, ho, rfl⟩
          · exact absurd heq hne
          · exact h.owned.bound v old ho hterminal
      slots := fun u => by simp only [Stage.machine, hm, hlimited.slots, h.owned.slots]
      events := fun a => by simp only [Stage.machine, hm, hlimited.events, h.owned.events]
      stream_lt := fun u hu' => by
        simp only [Stage.machine, hm] at hu' ⊢
        exact h.owned.stream_lt u hu' }
    timeline := by
      simp only [Stage.machine, hdag, hm]
      refine (h.timeline.append hu happ).fail happ.element?_new ?_ ?_ cause
      · simp [Element.isTerminal, hu.state, Lifecycle.isTerminal]
      · simp [hu.state] }

theorem drain (h : s.Coherent) :
    Coherent { s with queue := s.queue.drain.2, due := s.due ++ s.queue.drain.1 } :=
  h.congr rfl rfl (fun _ => rfl) (by simp [held, IssueQueue.drain]) rfl rfl (fun _ => rfl) rfl
    (fun _ => rfl) h.timeline

/-! ### All streams and events are given back -/

/-- Where nothing is due or held back, every vertex has been issued. -/
theorem started_of_rest (h : s.Coherent) (hd : s.due = []) (hq : s.queue.pending = [])
    {v : VertexId} {el : Element} (hv : s.dag.element? v = some el) : el.isStarted = true := by
  by_contra hs
  have hheld := h.agenda.held_of_unstarted v _ (Dag.state?_of_element? hv)
    (Bool.eq_false_iff.mpr hs)
  simp [held, hd, hq] at hheld

/-- Where nothing is due, held back or running, every vertex is over. -/
theorem terminal_of_rest (h : s.Coherent) (hd : s.due = []) (hq : s.queue.pending = [])
    (hr : s.running = []) {v : VertexId} {el : Element} (hv : s.dag.element? v = some el) :
    el.isTerminal = true := by
  by_contra ht
  have hrunning := (h.mem_running hv).mpr
    (Element.running_of_started (h.started_of_rest hd hq hv) (Bool.eq_false_iff.mpr ht))
  simp [hr] at hrunning

theorem cleanup (h : s.Coherent) (hr : s.running = []) (hd : s.due = [])
    (hq : s.queue.pending = []) {sch : Scheduler} {r : Except Halt Unit}
    (hc : Scheduler.cleanup.run s.toScheduler = (r, sch)) :
    Coherent { s with toScheduler := sch } := by
  rw [Scheduler.run_cleanup h.faults h.owned.slots h.owned.events] at hc
  obtain ⟨-, rfl⟩ := Prod.mk.inj hc
  have hnotrunning : ∀ v el, s.dag.element? v = some el → el.state ≠ .running := by
    intro v el hv hrun
    have := (h.mem_running hv).mpr hrun
    simp [hr] at this
  exact {
    linked := h.linked
    numbered := h.numbered
    faults := h.faults
    settled := h.settled
    agenda := h.agenda
    owned := {
      bound := fun v el hv ht => by simp [h.terminal_of_rest hd hq hr hv] at ht
      slots := fun _ => rfl
      events := fun _ => rfl
      stream_lt := fun u hu => by simp [Stage.machine] at hu }
    timeline := h.timeline.clear hnotrunning }

/-! ### Every move -/

/-- **A coherent stage stays coherent.** -/
theorem move (h : s.Coherent) {P : Rules} {t : Stage} (hm : Move P s t) :
    t.Coherent := by
  cases hm with
  | advance ha => exact h.advance ha
  | adjust ha => exact h.adjust ha
  | finish hv hr he hc hp => exact h.finish hv hr he hc hp
  | crash hv hr he hc _ => exact h.crash hv hr he hc _
  | cascade _ _ hv hs => exact h.cascade hv hs _
  | skip hd hv ht => exact h.pop hd hv (Element.isStarted_of_isTerminal ht)
  | shun hd hv hs _ _ => exact h.shun hd hv hs _
  | reject _ hd hv hs _ hw _ => exact h.reject hd hv hs hw _
  | issue ho hd hv hs ht hw _ => exact h.issue ho hd hv hs ht hw
  | enlist hu _ hd ha => exact h.enlist hu hd ha
  | refuse hu _ hd ha => exact h.refuse hu hd ha _
  | drain => exact h.drain
  | cleanup hr hd hq hc => exact h.cleanup hr hd hq hc

theorem moves (h : s.Coherent) {P : Rules} {t : Stage} (hm : Moves P s t) :
    t.Coherent := by
  induction hm with
  | refl => exact h
  | tail _ hm ih => exact ih.move hm

theorem steps (h : s.Coherent) {P : Rules} {t : Stage} (hm : Steps P s t) :
    t.Coherent := by
  induction hm with
  | refl => exact h
  | tail _ hm ih => exact hm.elim ih.move ih.disturbance

/-- **What every move and every disturbance keeps, all of them keep.** -/
theorem invariant (h : s.Coherent) {P : Rules} {t : Stage} {I : Stage → Prop}
    (hmove : ∀ s t, s.Coherent → I s → Move P s t → I t)
    (hdisturbance : ∀ s t, I s → Disturbance s t → I t) (hs : I s) (hm : Steps P s t) : I t := by
  induction hm with
  | refl => exact hs
  | tail hm hstep ih => exact hstep.elim (hmove _ _ (h.steps hm) ih) (hdisturbance _ _ ih)

end Coherent

end Stage

end LaunchGraph
