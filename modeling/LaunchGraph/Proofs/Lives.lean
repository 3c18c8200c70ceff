import LaunchGraph.Proofs.Growth

/-!
# The lives of vertices

A vertex enters the graph bound to a stream, or failed if no stream can be had (`Element.Enters`).
From then on a move leaves it as it is, up to the accesses that others take over from it, or takes
it one step further: it is handed to the device, finishes or fails (`Element.Turns`).  No other
change is ever made to an element (`Stage.Coherent.element_cases`).

So a vertex keeps its stream, nothing but `active` changes once it is over, and it has a cause of
failure exactly if it has failed.  A vertex fails in one of four ways: it gets no stream, its launch
is refused (`Dag.Refused`), a parent of it has failed before it is issued, or its event has failed
on the device (`Stage.Fails`).

A stream loses its first operation when that has run, and gets operations when a vertex is handed to
the device: waits alone if the device refuses the vertex (`Stage.Requeued`).
-/

namespace LaunchGraph

namespace Element

/-- What one move can make of an element. -/
inductive Turns (el : Element) : Element → Prop where
  /-- Later elements may take accesses over from it. -/
  | stay (active : List Argument) : Turns el { el with active }
  | start (hs : el.state = .scheduled) (event : EventId) : Turns el (el.start event)
  | finish (hr : el.state = .running) : Turns el el.finish
  | fail (ht : el.isTerminal = false) (cause : FailureCause) : Turns el (el.fail cause)

/-- What an element is like when it has just become part of the graph. -/
inductive Enters (el : Element) : Prop where
  | placed (hs : el.state = .scheduled) (ht : el.stream.isSome) (hf : el.failure = none)
  | unplaced (hs : el.state = .failed) (ht : el.stream = none) (hf : el.failure.isSome)

/-- The cause of its failure is known exactly if the element has failed. -/
def CauseKnown (el : Element) : Prop := el.failure.isSome ↔ el.state = .failed

namespace Turns

variable {el el' : Element}

theorem refl (el : Element) : el.Turns el := .stay el.active

theorem work (h : el.Turns el') : el'.work = el.work := by
  cases h <;> rfl

theorem stream (h : el.Turns el') : el'.stream = el.stream := by
  cases h <;> rfl

/-- What is not over now was not over before. -/
theorem isTerminal (h : el.Turns el') (ht : el'.isTerminal = false) : el.isTerminal = false := by
  cases h with
  | stay => exact ht
  | start hs => simp [Element.isTerminal, hs, Lifecycle.isTerminal]
  | finish hr => exact isTerminal_of_running hr
  | fail ht' => exact ht'

/-- What is over stays as it is, but for the accesses that are taken over. -/
theorem of_isTerminal (h : el.Turns el') (ht : el.isTerminal = true) :
    ∃ active, el' = { el with active } := by
  cases h with
  | stay active => exact ⟨active, rfl⟩
  | start hs => simp [Element.isTerminal, hs, Lifecycle.isTerminal] at ht
  | finish hr => simp [isTerminal_of_running hr] at ht
  | fail ht' => simp [ht'] at ht

theorem causeKnown (h : el.Turns el') (hc : el.CauseKnown) : el'.CauseKnown := by
  unfold CauseKnown at *
  cases h with
  | stay => exact hc
  | start hs => simpa [Element.start, hs] using hc
  | finish hr => simpa [Element.finish, hr] using hc
  | fail => simp [Element.fail]

end Turns

theorem Enters.causeKnown {el : Element} (h : el.Enters) : el.CauseKnown := by
  cases h with
  | placed hs _ hf => simp [CauseKnown, hs, hf]
  | unplaced hs _ hf => simp [CauseKnown, hs, hf]

/-- An element that gets a stream enters the graph. -/
theorem Unused.enters_bind {e : Element} (h : e.Unused) (id : Option VertexId) (t : StreamId) :
    (bind { e with id } t).Enters :=
  .placed (by simp [bind, h.state]) rfl h.failure

/-- An element that gets no stream enters the graph and fails. -/
theorem Unused.enters_fail {e : Element} (h : e.Unused) (id : Option VertexId)
    (cause : FailureCause) : (fail { e with id } cause).Enters :=
  .unplaced rfl h.stream rfl

end Element

namespace Dag

/-- The elements of the later graph are those of the earlier one, each at most one turn further. -/
def Turns (d d' : Dag) : Prop :=
  ∀ v el', d'.element? v = some el' → ∃ el, d.element? v = some el ∧ el.Turns el'

theorem Turns.of_eq {d d' : Dag} (h : d' = d) : d.Turns d' :=
  fun _ el hv => ⟨el, h ▸ hv, .refl el⟩

theorem Turns.modifyElement {d : Dag} {v : VertexId} {el : Element} (hv : d.element? v = some el)
    {g : Element → Element} (hg : el.Turns (g el)) : d.Turns (d.modifyElement v g) := by
  intro w x hx
  rcases element?_modifyElement_inv hv hx with ⟨rfl, rfl⟩ | ⟨-, hx⟩
  · exact ⟨el, hv, hg⟩
  · exact ⟨x, hx, .refl x⟩

/-- A new vertex enters the graph and is changed; the others stay. -/
theorem Appended.element_cases {d d' : Dag} {e : Element} (h : d.Appended e d')
    {g : Element → Element} {v : VertexId} {el' : Element}
    (hv : (d'.modifyElement d.vertices.length g).element? v = some el') :
    (∃ el active, d.element? v = some el ∧ el' = { el with active }) ∨
      (v = d.vertices.length ∧ el' = g { e with id := some d.vertices.length }) := by
  rcases element?_modifyElement_inv h.element?_new hv with ⟨rfl, rfl⟩ | ⟨hne, hv⟩
  · exact .inr ⟨rfl, rfl⟩
  · rcases h.element?_cases hv with ⟨heq, -⟩ | ⟨-, el, active, hel, rfl⟩
    · exact absurd heq hne
    · exact .inl ⟨el, active, hel, rfl⟩

theorem Appended.turns {d d' : Dag} {e : Element} (h : d.Appended e d')
    {g : Element → Element} (hg : (g { e with id := some d.vertices.length }).Enters)
    {v : VertexId} {el' : Element}
    (hv : (d'.modifyElement d.vertices.length g).element? v = some el')
    (hw : ∀ x, (g x).work = x.work) :
    (∃ el, d.element? v = some el ∧ el.Turns el') ∨
      (v = d.vertices.length ∧ el'.Enters ∧ el'.work = e.work) := by
  rcases h.element_cases hv with ⟨el, active, hel, rfl⟩ | ⟨rfl, rfl⟩
  · exact .inl ⟨el, hel, .stay active⟩
  · exact .inr ⟨rfl, hg, hw _⟩

end Dag

namespace Stage

variable {P : Rules} {s t : Stage}

/-- **What can become of a vertex in one move**: it is there and takes at most one turn, or it
enters the graph with the work of an element that was admitted. -/
theorem Coherent.element_cases (h : s.Coherent) (hm : Move P s t) {v : VertexId} {el' : Element}
    (hv : t.dag.element? v = some el') :
    (∃ el, s.dag.element? v = some el ∧ el.Turns el') ∨
      (v = s.dag.vertices.length ∧ el'.Enters ∧ ∃ e, P.admits s e ∧ el'.work = e.work) := by
  have hfail : ∀ {w el} cause, s.dag.element? w = some el → el.isTerminal = false →
      s.dag.Turns (s.dag.modifyElement w fun e => e.fail cause) :=
    fun cause hw ht => .modifyElement hw (.fail ht cause)
  cases hm with
  | advance ha => exact .inl (Dag.Turns.of_eq rfl v el' hv)
  | adjust ha => exact .inl (Dag.Turns.of_eq ha.dag v el' hv)
  | finish hw hr => exact .inl (Dag.Turns.modifyElement hw (.finish hr) v el' hv)
  | crash hw hr => exact .inl (hfail _ hw (Element.isTerminal_of_running hr) v el' hv)
  | cascade _ _ hw hs => exact .inl (hfail _ hw (Element.isTerminal_of_unstarted hs) v el' hv)
  | skip => exact .inl (Dag.Turns.of_eq rfl v el' hv)
  | shun _ hw ht => exact .inl (hfail _ hw ht v el' hv)
  | reject _ _ hw ht => exact .inl (hfail _ hw ht v el' hv)
  | issue _ hd hw ht =>
      exact .inl (Dag.Turns.modifyElement hw (.start (h.state_of_due hd hw ht) _) v el' hv)
  | @enlist e d u sch hu hP hd ha =>
      obtain ⟨happ, hs'⟩ := h.assigned hu hd ha
      rw [hs'.dag] at hv
      exact (happ.turns (hu.enters_bind _ u) hv fun _ => rfl).imp_right
        fun ⟨hnew, henters, hwork⟩ => ⟨hnew, henters, e, hP, hwork⟩
  | @refuse e d error sch hu hP hd ha =>
      obtain ⟨happ, hs'⟩ := h.limited hu hd ha
      simp only [hs'.dag] at hv
      exact (happ.turns (hu.enters_fail _ (.launch error.message)) hv fun _ => rfl).imp_right
        fun ⟨hnew, henters, hwork⟩ => ⟨hnew, henters, e, hP, hwork⟩
  | drain => exact .inl (Dag.Turns.of_eq rfl v el' hv)
  | cleanup _ _ _ hc =>
      rw [Scheduler.run_cleanup h.faults h.owned.slots h.owned.events] at hc
      obtain ⟨-, rfl⟩ := Prod.mk.inj hc
      exact .inl (Dag.Turns.of_eq rfl v el' hv)

/-- A vertex that is there stays there and takes at most one turn. -/
theorem Coherent.turns (h : s.Coherent) (hm : Move P s t) {v : VertexId} {el : Element}
    (hv : s.dag.element? v = some el) : ∃ el', t.dag.element? v = some el' ∧ el.Turns el' := by
  obtain ⟨el', hv', -⟩ := (h.grows hm).dag.element v el hv
  rcases h.element_cases hm hv' with ⟨x, hx, hturns⟩ | ⟨rfl, -⟩
  · obtain rfl : el = x := Option.some.inj (hv.symm.trans hx)
    exact ⟨el', hv', hturns⟩
  · exact absurd (Dag.lt_of_element? hv) (Nat.lt_irrefl _)

/-- **A vertex keeps its stream.** -/
theorem Coherent.stream_moves (h : s.Coherent) (hm : Moves P s t) {v : VertexId} {el : Element}
    (hv : s.dag.element? v = some el) :
    ∃ el', t.dag.element? v = some el' ∧ el'.stream = el.stream := by
  induction hm with
  | refl => exact ⟨el, hv, rfl⟩
  | tail hm hstep ih =>
      obtain ⟨x, hx, hstream⟩ := ih
      obtain ⟨y, hy, hturns⟩ := (h.moves hm).turns hstep hx
      exact ⟨y, hy, hturns.stream.trans hstream⟩

/-- **The cause of every failure is known.** -/
theorem causeKnown_steps {options : ContextOptions} (hm : Steps P (.initial options) s)
    {v : VertexId} {el : Element} (hv : s.dag.element? v = some el) : el.CauseKnown := by
  refine (Coherent.initial options).invariant
    (I := fun s => ∀ v el, s.dag.element? v = some el → el.CauseKnown) ?_ ?_ ?_ hm v el hv
  · intro s t h hknown hmove v el hv
    rcases h.element_cases hmove hv with ⟨x, hx, hturns⟩ | ⟨-, henters, -⟩
    · exact hturns.causeKnown (hknown v x hx)
    · exact henters.causeKnown
  · intro s t hknown hdist v el hv
    exact hknown v el (hdist.dag ▸ hv)
  · simp [Stage.initial, Context.new, Dag.element?]

end Stage

/-! ### How vertices fail -/

namespace Dag

/-- The launch of vertex `v`, which was bound to stream `t`, was refused. -/
def Refused (d : Dag) (v : VertexId) (t : StreamId) : Prop :=
  ∃ el reason, d.element? v = some el ∧ el.stream = some t ∧ el.state = .failed ∧
    el.event = none ∧ el.failure = some (.launch reason)

/-- Vertex `v` got no stream: the device was out of streams. -/
def Unplaced (d : Dag) (v : VertexId) : Prop :=
  ∃ el n, d.element? v = some el ∧ el.stream = none ∧ el.state = .failed ∧
    el.failure = some (.launch (Error.device (.outOfStreams n)).message)

/-- Where the element of one vertex changes, nobody is refused but that vertex. -/
theorem refused_modifyElement {d : Dag} {v w : VertexId} {el : Element} {g : Element → Element}
    {t : StreamId} (hw : d.element? w = some el) (h : (d.modifyElement w g).Refused v t) :
    d.Refused v t ∨ (v = w ∧ (g el).state = .failed ∧ (g el).event = none ∧
      ∃ reason, (g el).failure = some (.launch reason)) := by
  obtain ⟨x, reason, hx, hstream, hstate, hevent, hfailure⟩ := h
  rcases element?_modifyElement_inv hw hx with ⟨rfl, rfl⟩ | ⟨-, hx⟩
  · exact .inr ⟨rfl, hstate, hevent, reason, hfailure⟩
  · exact .inl ⟨x, reason, hx, hstream, hstate, hevent, hfailure⟩

/-- Nobody is refused by entering the graph. -/
theorem Appended.refused {d d' : Dag} {e : Element} (h : d.Appended e d') {g : Element → Element}
    (hg : (g { e with id := some d.vertices.length }).Enters) {v : VertexId} {t : StreamId}
    (hr : (d'.modifyElement d.vertices.length g).Refused v t) : d.Refused v t := by
  obtain ⟨x, reason, hx, hstream, hstate, hevent, hfailure⟩ := hr
  rcases h.element_cases hx with ⟨y, active, hy, rfl⟩ | ⟨-, rfl⟩
  · exact ⟨y, reason, hy, hstream, hstate, hevent, hfailure⟩
  · cases hg with
    | placed hs => simp [hs] at hstate
    | unplaced _ hnone => simp [hnone] at hstream

theorem isFailed_modifyElement {d : Dag} {v w : VertexId} {g : Element → Element}
    (h : (d.modifyElement w g).isFailed v = true) : d.isFailed v = true ∨ v = w := by
  by_cases hvw : w = v
  · exact .inr hvw.symm
  · simp only [isFailed, element?_modifyElement, if_neg hvw] at h
    exact .inl h

/-- Whoever has failed when a vertex enters the graph had failed before, or is that vertex. -/
theorem Appended.isFailed {d d' : Dag} {e : Element} (h : d.Appended e d')
    {g : Element → Element} {v : VertexId}
    (hv : (d'.modifyElement d.vertices.length g).isFailed v = true) :
    d.isFailed v = true ∨ (v = d.vertices.length ∧
      (g { e with id := some d.vertices.length }).state = .failed) := by
  obtain ⟨x, hx, hstate⟩ := state?_eq_some.mp (isFailed_iff.mp hv)
  rcases h.element_cases hx with ⟨y, active, hy, rfl⟩ | ⟨rfl, rfl⟩
  · exact .inl (isFailed_iff.mpr (state?_eq_some.mpr ⟨y, hy, hstate⟩))
  · exact .inr ⟨rfl, hstate⟩

end Dag

namespace Stage

variable {P : Rules} {s t : Stage}

/-- An element that is over stays, but that others may take accesses over from it. -/
theorem Coherent.element_of_terminal (h : s.Coherent) (hm : Move P s t) {v : VertexId}
    {el : Element} (hv : s.dag.element? v = some el) (ht : el.isTerminal = true) :
    ∃ active, t.dag.element? v = some { el with active } := by
  obtain ⟨el', hel', hturn⟩ := h.turns hm hv
  obtain ⟨active, rfl⟩ := hturn.of_isTerminal ht
  exact ⟨active, hel'⟩

/-- A vertex whose launch was refused stays refused. -/
theorem Coherent.refused (h : s.Coherent) (hm : Move P s t) {v : VertexId} {u : StreamId}
    (hr : s.dag.Refused v u) : t.dag.Refused v u := by
  obtain ⟨el, reason, hv, hstream, hstate, hrest⟩ := hr
  obtain ⟨active, hv'⟩ := h.element_of_terminal hm hv (Element.isTerminal_of_failed hstate)
  exact ⟨_, reason, hv', hstream, hstate, hrest⟩

/-- A vertex that got no stream stays without one. -/
theorem Coherent.unplaced (h : s.Coherent) (hm : Move P s t) {v : VertexId}
    (hu : s.dag.Unplaced v) : t.dag.Unplaced v := by
  obtain ⟨el, n, hv, hstream, hstate, hrest⟩ := hu
  obtain ⟨active, hv'⟩ := h.element_of_terminal hm hv (Element.isTerminal_of_failed hstate)
  exact ⟨_, n, hv', hstream, hstate, hrest⟩

theorem Coherent.isFailed (h : s.Coherent) (hm : Move P s t) {v : VertexId}
    (hv : s.dag.isFailed v = true) : t.dag.isFailed v = true := by
  obtain ⟨el, hel, hstate⟩ := Dag.state?_eq_some.mp (Dag.isFailed_iff.mp hv)
  obtain ⟨active, hel'⟩ := h.element_of_terminal hm hel (Element.isTerminal_of_failed hstate)
  exact Dag.isFailed_iff.mpr (Dag.state?_eq_some.mpr ⟨_, hel', hstate⟩)

/-- **Who is refused**: the first vertex that is due, handed to a device that refuses it. -/
theorem Coherent.refused_cases (h : s.Coherent) (hm : Move P s t) {v : VertexId} {u : StreamId}
    (hr : t.dag.Refused v u) : s.dag.Refused v u ∨
      (s.due = v :: t.due ∧ t.queue = s.queue ∧ P.hands s v ∧
        ∃ el, s.dag.element? v = some el ∧ s.machine.Refuses el) := by
  cases hm with
  | advance ha => exact .inl hr
  | adjust ha => exact .inl (ha.dag ▸ hr)
  | finish hw =>
      rcases Dag.refused_modifyElement hw hr with hr | ⟨-, hstate, -⟩
      · exact .inl hr
      · cases hstate
  | crash hw _ he =>
      -- whoever has run has an event
      rcases Dag.refused_modifyElement hw hr with hr | ⟨-, -, hevent, -⟩
      · exact .inl hr
      · simp [Element.fail, he] at hevent
  | cascade _ _ hw =>
      -- the cause of its failure is a parent
      rcases Dag.refused_modifyElement hw hr with hr | ⟨-, -, -, _, hcause⟩
      · exact .inl hr
      · simp [Element.fail] at hcause
  | skip => exact .inl hr
  | shun _ hw =>
      rcases Dag.refused_modifyElement hw hr with hr | ⟨-, -, -, _, hcause⟩
      · exact .inl hr
      · simp [Element.fail] at hcause
  | reject _ hd hw _ _ _ hrefuses hP =>
      rcases Dag.refused_modifyElement hw hr with hr | ⟨rfl, -⟩
      · exact .inl hr
      · exact .inr ⟨hd, rfl, hP, _, hw, hrefuses⟩
  | issue _ _ hw =>
      rcases Dag.refused_modifyElement hw hr with hr | ⟨-, hstate, -⟩
      · exact .inl hr
      · cases hstate
  | @enlist e d w sch hu _ hd ha =>
      obtain ⟨happ, hs'⟩ := h.assigned hu hd ha
      simp only [hs'.dag] at hr
      exact .inl (happ.refused (hu.enters_bind _ w) hr)
  | @refuse e d error sch hu _ hd ha =>
      obtain ⟨happ, hs'⟩ := h.limited hu hd ha
      simp only [hs'.dag] at hr
      exact .inl (happ.refused (hu.enters_fail _ (.launch error.message)) hr)
  | drain => exact .inl hr
  | cleanup _ _ _ hc =>
      rw [Scheduler.run_cleanup h.faults h.owned.slots h.owned.events] at hc
      obtain ⟨-, rfl⟩ := Prod.mk.inj hc
      exact .inl hr

/-- What is held back was held back before, or is the new vertex. -/
theorem Coherent.held_cases (h : s.Coherent) (hm : Move P s t) {v : VertexId} (hv : v ∈ t.held) :
    v ∈ s.held ∨ v = s.dag.vertices.length := by
  cases hm with
  | adjust ha =>
      rw [held, ha.due, ha.queue] at hv
      exact .inl hv
  | skip hd | shun hd | reject _ hd | issue _ hd =>
      rw [held, hd]
      exact .inl (List.mem_cons_of_mem _ hv)
  | enlist =>
      simp only [held, List.append_assoc, h.settled.held_register] at hv
      simpa [held, or_assoc] using hv
  | drain => exact .inl (by simpa [held, IssueQueue.drain] using hv)
  | _ => exact .inl hv

/-- Nothing is held back that comes before a vertex that was refused. -/
def RefusedFirst (s : Stage) : Prop := ∀ r u, s.dag.Refused r u → ∀ v ∈ s.held, r < v

theorem Coherent.refusedFirst (h : s.Coherent) (hm : Move P s t) (hlt : s.RefusedFirst) :
    t.RefusedFirst := by
  intro r u hr v hv
  rcases h.refused_cases hm hr with hr | ⟨hd, hq, -⟩
  · rcases h.held_cases hm hv with hv | rfl
    · exact hlt r u hr v hv
    · obtain ⟨el, -, hel, -⟩ := hr
      exact Dag.lt_of_element? hel
  · have hheld : s.held = r :: t.held := by simp [held, hd, hq]
    exact (List.pairwise_cons.mp (hheld ▸ h.agenda.held_sorted)).1 v hv

/-- The first vertex that is due has no event yet. -/
theorem Coherent.event_of_due (h : s.Coherent) {v : VertexId} {later : List VertexId}
    {el : Element} (hd : s.due = v :: later) (hv : s.dag.element? v = some el)
    (ht : el.isTerminal = false) : el.event = none :=
  h.timeline.event_of_unstarted hv
    (by simp [Element.isStarted, h.state_of_due hd hv ht, Lifecycle.isStarted])

/-- A vertex whose launch is rejected is refused. -/
theorem Coherent.refused_rejected (h : s.Coherent) {v : VertexId} {later : List VertexId}
    {el : Element} {u : StreamId} (hd : s.due = v :: later) (hv : s.dag.element? v = some el)
    (ht : el.isTerminal = false) (hu : el.stream = some u) (waits : List EventId)
    (reason : String) : (s.rejected v el u waits reason).dag.Refused v u := by
  have hevent : el.event = none := h.event_of_due hd hv ht
  exact ⟨el.fail (.launch reason), reason, by simp [rejected, failed, hv], hu, rfl, hevent, rfl⟩

/-- How vertex `v` fails in a move from stage `s` to stage `t`. -/
inductive Fails (s t : Stage) (v : VertexId) : Prop where
  /-- No stream could be had for it. -/
  | unplaced (hv : t.dag.Unplaced v)
  /-- Its launch was refused. -/
  | refused {u : StreamId} (hr : t.dag.Refused v u)
  /-- A parent of it had failed. -/
  | parent {u : VertexId} (huv : s.dag.HasEdge u v) (hu : s.dag.isFailed u = true)
  /-- Its event has failed on the device, and whoever was issued before it and is running has a
  pending event. -/
  | crashed {el : Element} {e : EventId} (hv : s.dag.element? v = some el)
      (hr : el.state = .running) (he : el.event = some e)
      (hc : s.machine.events.get? e = some .failed)
      (hp : ∀ u x a, u < v → s.dag.element? u = some x → x.state = .running → x.event = some a →
        s.machine.events.get? a = some .pending)

/-- **How a vertex comes to fail.** -/
theorem Coherent.failed_cases (h : s.Coherent) (hm : Move P s t) {v : VertexId}
    (hv : t.dag.isFailed v = true) : s.dag.isFailed v = true ∨ Fails s t v := by
  cases hm with
  | advance ha => exact .inl hv
  | adjust ha => exact .inl (ha.dag ▸ hv)
  | finish hw =>
      rcases Dag.isFailed_modifyElement hv with hv | rfl
      · exact .inl hv
      · simp [finished, Dag.isFailed, hw, Element.finish, Element.isFailed] at hv
  | crash hw hr he hc hp =>
      rcases Dag.isFailed_modifyElement hv with hv | rfl
      · exact .inl hv
      · exact .inr (.crashed hw hr he hc hp)
  | cascade hu huw =>
      rcases Dag.isFailed_modifyElement hv with hv | rfl
      · exact .inl hv
      · exact .inr (.parent huw hu)
  | skip => exact .inl hv
  | shun _ _ _ hu huw =>
      rcases Dag.isFailed_modifyElement hv with hv | rfl
      · exact .inl hv
      · exact .inr (.parent huw hu)
  | reject _ hd hw ht hu =>
      rcases Dag.isFailed_modifyElement hv with hv | rfl
      · exact .inl hv
      · exact .inr (.refused (h.refused_rejected hd hw ht hu _ _))
  | issue _ hd hw ht =>
      rcases Dag.isFailed_modifyElement hv with hv | rfl
      · exact .inl hv
      · simp [issued, Dag.isFailed, hw, Element.start, Element.isFailed] at hv
  | enlist hu _ hd ha =>
      obtain ⟨happ, hs'⟩ := h.assigned hu hd ha
      simp only [hs'.dag] at hv
      rcases happ.isFailed hv with hv | ⟨-, hstate⟩
      · exact .inl hv
      · simp [Element.bind, hu.state] at hstate
  | @refuse e d error sch hu _ hd ha =>
      obtain ⟨happ, hs'⟩ := h.limited hu hd ha
      obtain ⟨n, rfl⟩ := h.outOfStreams hu hd ha
      simp only [hs'.dag] at hv
      rcases happ.isFailed hv with hv | ⟨rfl, -⟩
      · exact .inl hv
      · refine .inr (.unplaced ⟨Element.fail { e with id := some s.dag.vertices.length } _, n,
          ?_, hu.stream, rfl, rfl⟩)
        simp [hs'.dag, happ.element?_new]
  | drain => exact .inl hv
  | cleanup _ _ _ hc =>
      rw [Scheduler.run_cleanup h.faults h.owned.slots h.owned.events] at hc
      obtain ⟨-, rfl⟩ := Prod.mk.inj hc
      exact .inl hv

/-! ### The streams -/

/-- What a move can leave on stream `u`. -/
inductive Requeued (P : Rules) (s t : Stage) (u : StreamId) : Lane → Prop where
  /-- What was there before. -/
  | kept {lane : Lane} (hlane : s.machine.streams.get? u = some lane) : Requeued P s t u lane
  /-- Nothing: the stream is new. -/
  | fresh : Requeued P s t u {}
  /-- What was behind an operation that has run. -/
  | retired {op : Op} {rest : List Op} {p f : Bool}
      (hlane : s.machine.streams.get? u = some ⟨op :: rest, p⟩)
      (ho : s.machine.outcome? p op = some f)
      (hh : t.machine.history = s.machine.history ++ [⟨u, op, f⟩]) :
      Requeued P s t u ⟨rest, f && !rest.isEmpty⟩
  /-- The waits of a vertex whose launch was refused, behind what was there. -/
  | refused {v : VertexId} {later : List VertexId} {el : Element} {waits : List EventId}
      {lane : Lane} (hlane : s.machine.streams.get? u = some lane) (hd : s.due = v :: later)
      (hv : s.dag.element? v = some el) (hu : el.stream = some u)
      (hw : Scheduler.waitsFor s.dag v u (s.dag.parentVertices v) = .ok waits)
      (hrefuses : s.machine.Refuses el) (hP : P.hands s v) (hr : t.dag.Refused v u) :
      Requeued P s t u { lane with ops := lane.ops ++ waits.map .wait }
  /-- The waits of a vertex, its launch and the recording of its event, behind what was there. -/
  | issued {v : VertexId} {later : List VertexId} {el : Element} {waits : List EventId}
      {lane : Lane} (hlane : s.machine.streams.get? u = some lane) (hd : s.due = v :: later)
      (hv : s.dag.element? v = some el) (hu : el.stream = some u)
      (hw : Scheduler.waitsFor s.dag v u (s.dag.parentVertices v) = .ok waits)
      (hP : P.hands s v) :
      Requeued P s t u { lane with
        ops := lane.ops ++ (waits.map .wait ++
          [.launch ⟨el.id, el.label, s.machine.failing.contains el.label⟩,
            .record s.machine.nextEvent]) }

/-- **What every move leaves on a stream.** -/
theorem Coherent.requeued (h : s.Coherent) (hm : Move P s t) {u : StreamId} {lane : Lane}
    (hlane : t.machine.streams.get? u = some lane) : Requeued P s t u lane := by
  cases hm with
  | advance ha =>
      obtain ⟨op, rest, p, f, hs, ho, rfl⟩ := Machine.advance_cases ha
      rcases Machine.retire_lane_cases hs hlane with ⟨rfl, rfl⟩ | ⟨-, hlane⟩
      · exact .retired hs ho rfl
      · exact .kept hlane
  | adjust ha => exact .kept (ha.work.streams ▸ hlane)
  | @reject v rest el r waits reason _ hd hv ht hr hw hrefuses hP =>
      obtain ⟨lane₀, hold, rfl | ⟨rfl, rfl⟩⟩ := Machine.extend_lane_cases hlane
      · exact .kept hold
      · exact .refused hold hd hv hr hw hrefuses hP (h.refused_rejected hd hv ht hr waits reason)
  | issue _ hd hv _ hr hw _ hP =>
      obtain ⟨lane₀, hold, rfl | ⟨rfl, rfl⟩⟩ := Machine.extend_lane_cases hlane
      · exact .kept hold
      · exact .issued hold hd hv hr hw hP
  | enlist hu _ hd ha =>
      obtain ⟨-, hassigned⟩ := h.assigned hu hd ha
      rcases hassigned.machine with ⟨hm, -⟩ | ⟨hm, -⟩
      · exact .kept (by rwa [Stage.machine, hm] at hlane)
      · simp only [Stage.machine, hm, Machine.addStream, Table.get?_insert] at hlane
        split at hlane
        · obtain rfl := Option.some.inj hlane
          exact .fresh
        · exact .kept hlane
  | refuse hu _ hd ha =>
      obtain ⟨-, hlimited⟩ := h.limited hu hd ha
      exact .kept (by rwa [Stage.machine, hlimited.machine] at hlane)
  | cleanup _ _ _ hc =>
      rw [Scheduler.run_cleanup h.faults h.owned.slots h.owned.events] at hc
      obtain ⟨-, rfl⟩ := Prod.mk.inj hc
      cases hlane
  | _ => exact .kept hlane

/-- What has run after a move had run before it, or was the first operation of its stream. -/
theorem Coherent.retired_cases (h : s.Coherent) (hm : Move P s t) {r : Retired}
    (hr : r ∈ t.machine.history) :
    r ∈ s.machine.history ∨ ∃ rest p, s.machine.streams.get? r.stream = some ⟨r.op :: rest, p⟩ ∧
      s.machine.outcome? p r.op = some r.failed := by
  cases hm with
  | advance ha =>
      obtain ⟨op, rest, p, f, hs, ho, rfl⟩ := Machine.advance_cases ha
      rcases List.mem_append.mp hr with hr | hr
      · exact .inl hr
      · obtain rfl := List.mem_singleton.mp hr
        exact .inr ⟨rest, p, hs, ho⟩
  | adjust ha => exact .inl (ha.work.history ▸ hr)
  | enlist hu _ hd ha =>
      obtain ⟨-, hassigned⟩ := h.assigned hu hd ha
      rcases hassigned.machine with ⟨hm, -⟩ | ⟨hm, -⟩
      · exact .inl (by rwa [Stage.machine, hm] at hr)
      · exact .inl (by simpa [Stage.machine, hm, Machine.addStream] using hr)
  | refuse hu _ hd ha =>
      obtain ⟨-, hlimited⟩ := h.limited hu hd ha
      exact .inl (by rwa [Stage.machine, hlimited.machine] at hr)
  | cleanup _ _ _ hc =>
      rw [Scheduler.run_cleanup h.faults h.owned.slots h.owned.events] at hc
      obtain ⟨-, rfl⟩ := Prod.mk.inj hc
      exact .inl hr
  | _ => exact .inl hr

end Stage

end LaunchGraph
