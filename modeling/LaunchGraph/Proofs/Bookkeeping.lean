import LaunchGraph.Proofs.Listing
import LaunchGraph.Proofs.Runs

/-!
# Bookkeeping of streams

The pool keeps books on its streams: who is under way on them, who was bound last, how many were
bound, and which of them are idle.  The graph says the same in another way, since every vertex
knows its stream and whether it is over.  The books are exact (`StreamPool.Books`): every move
changes both in the same way (`Stage.Booked.move`).

A stream that has been given back is never used again: the streams of all vertices are older than
the next one the device makes.  So a new stream has a clean slot.
-/

namespace LaunchGraph

namespace Dag

/-! ### Who is on a stream -/

/-- The stream of a vertex, if it has one. -/
def stream? (d : Dag) (v : VertexId) : Option StreamId := (d.element? v).bind Element.stream

/-- The vertices that were bound to stream `t`, in order. -/
def boundTo (d : Dag) (t : StreamId) : List VertexId :=
  (List.range d.vertices.length).filter fun v => d.stream? v = some t

/-- Vertex `v` is bound to stream `t` and not over. -/
def UnderWay (d : Dag) (t : StreamId) (v : VertexId) : Prop :=
  ∃ el, d.element? v = some el ∧ el.isTerminal = false ∧ el.stream = some t

variable {d d' : Dag} {t : StreamId} {v w : VertexId} {el : Element} {g : Element → Element}

theorem stream?_eq_some :
    d.stream? v = some t ↔ ∃ el, d.element? v = some el ∧ el.stream = some t :=
  Option.bind_eq_some_iff

theorem lt_of_stream? (h : d.stream? v = some t) : v < d.vertices.length := by
  obtain ⟨el, hel, -⟩ := stream?_eq_some.mp h
  exact lt_of_element? hel

@[simp] theorem mem_boundTo : v ∈ d.boundTo t ↔ d.stream? v = some t := by
  simp only [boundTo, List.mem_filter, List.mem_range, decide_eq_true_eq, and_iff_right_iff_imp]
  exact lt_of_stream?

theorem UnderWay.stream? (h : d.UnderWay t v) : d.stream? v = some t := by
  obtain ⟨el, hel, -, hstream⟩ := h
  exact stream?_eq_some.mpr ⟨el, hel, hstream⟩

theorem underWay_iff_map : d.UnderWay t v ↔
    (d.element? v).map (fun el => (el.isTerminal, el.stream)) = some (false, some t) := by
  simp [UnderWay]

instance (d : Dag) (t : StreamId) (v : VertexId) : Decidable (d.UnderWay t v) :=
  decidable_of_iff _ underWay_iff_map.symm

theorem stream?_modifyElement (hv : d.element? v = some el) (hg : (g el).stream = el.stream) :
    (d.modifyElement v g).stream? = d.stream? := by
  funext w
  by_cases hw : v = w
  · subst hw
    simp [Dag.stream?, hv, hg]
  · simp [Dag.stream?, hw]

theorem boundTo_modifyElement (hv : d.element? v = some el) (hg : (g el).stream = el.stream) :
    (d.modifyElement v g).boundTo t = d.boundTo t := by
  simp only [boundTo, length_modifyElement, stream?_modifyElement hv hg]

/-- Where a vertex takes a turn, those under way stay so, except for that vertex if it is over. -/
theorem underWay_modifyElement (hv : d.element? v = some el) (hg : el.Turns (g el)) :
    (d.modifyElement v g).UnderWay t w ↔
      d.UnderWay t w ∧ (w = v → (g el).isTerminal = false) := by
  constructor
  · rintro ⟨x, hx, hterminal, hstream⟩
    rcases element?_modifyElement_inv hv hx with ⟨rfl, rfl⟩ | ⟨hne, hx⟩
    · exact ⟨⟨el, hv, hg.isTerminal hterminal, hg.stream ▸ hstream⟩, fun _ => hterminal⟩
    · exact ⟨⟨x, hx, hterminal, hstream⟩, fun h => absurd h hne⟩
  · rintro ⟨⟨x, hx, hterminal, hstream⟩, hopen⟩
    rcases element?_modifyElement_of_some hv hx g with ⟨hw, rfl, hx'⟩ | ⟨-, hx'⟩
    · exact ⟨g x, hx', hopen hw, hg.stream.trans hstream⟩
    · exact ⟨x, hx', hterminal, hstream⟩

namespace Appended

variable {e : Element}

theorem stream?_old (h : d.Appended e d') (hw : w ≠ d.vertices.length) :
    (d'.modifyElement d.vertices.length g).stream? w = d.stream? w := by
  have hold : (d'.modifyElement d.vertices.length g).element? w = d'.element? w := by
    simp [Ne.symm hw]
  rw [Dag.stream?, hold, h.element?_old w hw, Dag.stream?]
  split <;> cases d.element? w <;> rfl

theorem stream?_new (h : d.Appended e d') :
    (d'.modifyElement d.vertices.length g).stream? d.vertices.length =
      (g { e with id := some d.vertices.length }).stream := by
  simp [Dag.stream?, h.element?_new]

/-- A new vertex comes last on its stream. -/
theorem boundTo (h : d.Appended e d') :
    (d'.modifyElement d.vertices.length g).boundTo t = d.boundTo t ++
      if (g { e with id := some d.vertices.length }).stream = some t then [d.vertices.length]
      else [] := by
  have hold : ∀ w ∈ List.range d.vertices.length,
      decide ((d'.modifyElement d.vertices.length g).stream? w = some t) =
        decide (d.stream? w = some t) := fun w hw => by
    rw [h.stream?_old (Nat.ne_of_lt (List.mem_range.mp hw))]
  simp only [Dag.boundTo, length_modifyElement, h.length, List.range_succ, List.filter_append,
    List.filter_congr hold, List.filter_cons, h.stream?_new, List.filter_nil, decide_eq_true_eq]

theorem underWay (h : d.Appended e d') :
    (d'.modifyElement d.vertices.length g).UnderWay t w ↔ d.UnderWay t w ∨
      (w = d.vertices.length ∧
        (g { e with id := some d.vertices.length }).isTerminal = false ∧
        (g { e with id := some d.vertices.length }).stream = some t) := by
  constructor
  · rintro ⟨x, hx, hterminal, hstream⟩
    rcases h.element_cases hx with ⟨y, active, hy, rfl⟩ | ⟨rfl, rfl⟩
    · exact .inl ⟨y, hy, hterminal, hstream⟩
    · exact .inr ⟨rfl, hterminal, hstream⟩
  · rintro (⟨x, hx, hterminal, hstream⟩ | ⟨rfl, hterminal, hstream⟩)
    · obtain ⟨active, hx'⟩ := h.element?_of_old hx
      have hne : d.vertices.length ≠ w := Nat.ne_of_gt (lt_of_element? hx)
      exact ⟨{ x with active }, by rw [element?_modifyElement, if_neg hne, hx'], hterminal,
        hstream⟩
    · exact ⟨g { e with id := some d.vertices.length }, by simp [h.element?_new], hterminal,
        hstream⟩

end Appended

end Dag

/-! ### Exact books -/

/-- The slot of stream `t` says what the graph says of the stream. -/
structure Slot.Books (slot : Slot) (d : Dag) (t : StreamId) : Prop where
  active : ∀ v, v ∈ slot.active ↔ d.UnderWay t v
  active_nodup : slot.active.Nodup
  /-- The vertex bound last has the largest number. -/
  tail : ∃ last, slot.tail = some last ∧ last ∈ d.boundTo t ∧ ∀ v ∈ d.boundTo t, v ≤ last
  boundTotal : slot.boundTotal = (d.boundTo t).length

/-- The books of the pool are exact: those of every stream, and which streams are free. -/
structure StreamPool.Books (pool : StreamPool) (d : Dag) : Prop where
  slot : ∀ t slot, pool.slots.get? t = some slot → slot.Books d t
  free_nodup : pool.free.Nodup
  mem_free : ∀ t, t ∈ pool.free ↔ ∃ slot, pool.slots.get? t = some slot ∧ slot.active = []

namespace StreamPool

variable {pool pool' : StreamPool} {d d' : Dag} {t u : StreamId} {v : VertexId}

theorem get?_release (pool : StreamPool) (t u : StreamId) (v : VertexId) :
    (pool.release t v).slots.get? u =
      if t = u then (pool.slots.get? u).map fun slot =>
        { slot with active := slot.active.filter (· ≠ v) }
      else pool.slots.get? u := by
  unfold release
  split
  · next hnone =>
    split
    · next heq => simp [← heq, hnone]
    · rfl
  · next slot hslot =>
    by_cases heq : t = u
    · simp [← heq, hslot]
    · simp [heq]

/-- A stream is free after vertex `v` was released if it was free, or nobody else is left on it. -/
theorem mem_free_release_iff {slot : Slot} (hslot : pool.slots.get? t = some slot) :
    u ∈ (pool.release t v).free ↔
      u ∈ pool.free ∨ (u = t ∧ slot.active.filter (· ≠ v) = []) := by
  simp only [release, hslot, List.isEmpty_iff]
  split
  · next h => rw [List.mem_append, List.mem_singleton, and_iff_left h.1]
  · next h =>
    refine ⟨.inl, ?_⟩
    rintro (hu | ⟨rfl, hnil⟩)
    · exact hu
    · exact not_not.mp fun hu => h ⟨hnil, hu⟩

theorem nodup_free_release (h : pool.free.Nodup) (t : StreamId) (v : VertexId) :
    (pool.release t v).free.Nodup := by
  unfold release
  split
  · exact h
  · dsimp only
    split
    · next hfree =>
      refine List.nodup_append.mpr ⟨h, List.nodup_singleton t, ?_⟩
      rintro a ha b hb rfl
      exact hfree.2 (List.mem_singleton.mp hb ▸ ha)
    · exact h

namespace Books

/-- Books of a graph where nobody is bound or under way but who was before. -/
theorem congr (h : pool.Books d) (hbound : ∀ t, d'.boundTo t = d.boundTo t)
    (hunderWay : ∀ t v, d'.UnderWay t v ↔ d.UnderWay t v) (hslots : pool'.slots = pool.slots)
    (hnodup : pool'.free.Nodup) (hfree : ∀ t, t ∈ pool'.free ↔ t ∈ pool.free) :
    pool'.Books d' where
  slot t slot hslot := by
    obtain ⟨hactive, hactive', htail, htotal⟩ := h.slot t slot (hslots ▸ hslot)
    refine ⟨fun v => (hactive v).trans (hunderWay t v).symm, hactive', ?_, ?_⟩
    · rw [hbound]
      exact htail
    · rw [hbound]
      exact htotal
  free_nodup := hnodup
  mem_free t := by
    rw [hfree, hslots]
    exact h.mem_free t

theorem freeIdle (h : pool.Books d) : pool.FreeIdle :=
  fun t ht => isIdle_iff.mpr ((h.mem_free t).mp ht)

/-- A vertex that is over is struck off the books of its stream. -/
theorem release (h : pool.Books d) {slot : Slot} (hslot : pool.slots.get? t = some slot)
    (hv : d.stream? v = some t) (hbound : ∀ u, d'.boundTo u = d.boundTo u)
    (hunderWay : ∀ u w, d'.UnderWay u w ↔ d.UnderWay u w ∧ w ≠ v) :
    (pool.release t v).Books d' where
  slot u x hx := by
    rw [get?_release] at hx
    split at hx
    · next heq =>
      subst heq
      obtain ⟨old, hold, rfl⟩ := Option.map_eq_some_iff.mp hx
      obtain ⟨hactive, hactive', htail, htotal⟩ := h.slot t old hold
      refine ⟨fun w => ?_, hactive'.filter _, hbound t ▸ htail, hbound t ▸ htotal⟩
      rw [hunderWay, ← hactive]
      simp
    · next hne =>
      obtain ⟨hactive, hactive', htail, htotal⟩ := h.slot u x hx
      refine ⟨fun w => ?_, hactive', hbound u ▸ htail, hbound u ▸ htotal⟩
      rw [hunderWay, ← hactive, iff_self_and]
      -- on another stream nobody is `v`
      rintro hw rfl
      have := ((hactive w).mp hw).stream?
      exact hne (Option.some.inj (hv.symm.trans this))
  free_nodup := nodup_free_release h.free_nodup t v
  mem_free u := by
    rw [mem_free_release_iff hslot, get?_release, h.mem_free]
    by_cases heq : t = u
    · subst heq
      simp only [hslot, Option.some.injEq, exists_eq_left', true_and, if_true, Option.map_some]
      refine ⟨?_, .inr⟩
      rintro (hnil | hnil)
      · simp [hnil]
      · exact hnil
    · simp [heq, Ne.symm heq]

end Books

end StreamPool

/-! ### Which streams stay free -/

namespace StreamPool

/-- Where what is free is idle, the first free stream is taken. -/
theorem FreeIdle.takeIdle {pool : StreamPool} (h : pool.FreeIdle) :
    pool.takeIdle = (pool.free.head?, { pool with free := pool.free.tail }) := by
  unfold StreamPool.takeIdle
  cases hfree : pool.free with
  | nil => simp
  | cons t rest => simp [h t (by simp [hfree])]

end StreamPool

namespace Scheduler

variable {s s' : Scheduler} {v : VertexId} {t : StreamId} {r : Except Halt StreamId}

/-- Where a stream is acquired, no other stream ceases to be free. -/
theorem free_acquire (hf : s.device.faults = []) (hidle : s.pool.FreeIdle)
    (ha : acquire.run s = (r, s')) :
    s'.pool.free.Sublist s.pool.free ∧ ∀ u ∈ s.pool.free, r = .ok u ∨ u ∈ s'.pool.free := by
  simp only [acquire, Action.run_gets_bind, modifyPool, Action.run_modify_bind, hidle.takeIdle]
    at ha
  cases hfree : s.pool.free with
  | cons t rest =>
      simp only [hfree, List.head?_cons, Action.run_pure, Prod.mk.injEq, List.tail_cons] at ha
      obtain ⟨rfl, rfl⟩ := ha
      refine ⟨List.sublist_cons_self t rest, fun u hu => ?_⟩
      exact (List.mem_cons.mp hu).imp_left fun heq => by rw [heq]
  | nil =>
      simp only [hfree, List.head?_nil, List.tail_nil] at ha
      refine ⟨?_, by simp⟩
      split at ha
      · split at ha
        · simp only [Action.run_modify_bind, Action.run_pure, Prod.mk.injEq] at ha
          simp [← ha.2]
        · simp [← (Prod.mk.inj ha).2]
      · rw [run_createStream_eq (by exact hf)] at ha
        split at ha
        · simp [← (Prod.mk.inj ha).2]
        · simp [← (Prod.mk.inj ha).2, StreamPool.addStream]

/-- Where a vertex is assigned a stream, no other stream ceases to be free. -/
theorem free_assign {e : Element} (hf : s.device.faults = []) (hidle : s.pool.FreeIdle)
    (hv : s.dag.element? v = some e) (ha : (assign v).run s = (r, s')) :
    s'.pool.free.Sublist s.pool.free ∧ ∀ u ∈ s.pool.free, r = .ok u ∨ u ∈ s'.pool.free := by
  have hfind : ∀ r₁ s₁, (s.findStream v).run s = (r₁, s₁) →
      s₁.pool.free.Sublist s.pool.free ∧ ∀ u ∈ s.pool.free, r₁ = .ok u ∨ u ∈ s₁.pool.free := by
    intro r₁ s₁ hrun
    unfold findStream at hrun
    split at hrun
    · obtain ⟨rfl, rfl⟩ := Prod.mk.inj hrun
      exact ⟨.refl _, fun u hu => .inr hu⟩
    · exact free_acquire hf hidle hrun
  rw [run_assign_eq hv] at ha
  cases hrun : (s.findStream v).run s with
  | mk r₁ s₁ =>
      obtain ⟨hsub, hkept⟩ := hfind r₁ s₁ hrun
      cases r₁ with
      | error halt =>
          rw [Action.run_bind_error hrun] at ha
          obtain ⟨rfl, rfl⟩ := Prod.mk.inj ha
          exact ⟨hsub, fun u hu => (hkept u hu).imp_left (by simp)⟩
      | ok t =>
          rw [Action.run_bind_ok hrun] at ha
          simp only [modifyPool, modifyDag, Action.run_modify_bind, Action.run_pure,
            Prod.mk.injEq] at ha
          obtain ⟨rfl, rfl⟩ := ha
          refine ⟨List.filter_sublist.trans hsub, fun u hu => ?_⟩
          by_cases htu : t = u
          · exact .inl (htu ▸ rfl)
          · have hmem := (hkept u hu).resolve_left (by simpa using htu)
            exact .inr (by simp [StreamPool.bind, hmem, Ne.symm htu])

/-- The slots once a vertex has been bound to stream `t`. -/
theorem Assigned.get?_slots (h : s.Assigned v t s')
    (hnew : s.pool.slots.contains s.device.machine.nextStream = false) (u : StreamId) :
    s'.pool.slots.get? u =
      if t = u then
        let slot := (s.pool.slots.get? t).getD {}
        some ⟨slot.active.insert v, some v, slot.boundTotal + 1⟩
      else s.pool.slots.get? u := by
  obtain ⟨pool, hfound, hpool⟩ := h.pool
  have hold : (pool.slots.get? t).getD {} = (s.pool.slots.get? t).getD {} := by
    rcases hfound.slots with hslots | ⟨-, rfl, hslots⟩
    · rw [hslots]
    · simp [hslots, Table.get?_eq_none_iff.mpr hnew]
  rw [hpool, StreamPool.bind, Table.get?_insert, hold]
  split
  · rfl
  · next hne =>
    rcases hfound.slots with hslots | ⟨-, -, hslots⟩
    · rw [hslots]
    · rw [hslots, Table.get?_insert, if_neg hne]

theorem createStream_ne_emptyPool (s : Scheduler) :
    (createStream.run s).1 ≠ .error (.error (.device .emptyPool)) := by
  intro herror
  rcases Action.error_of_bind herror with herror | ⟨t, s', -, herror⟩
  · -- the call is refused as planned, or by the machine
    change (Device.createStream.run s.device).1 = _ at herror
    rcases Action.error_of_bind herror with hplanned | ⟨_, d, -, hmachine⟩
    · simp only [Device.checkFault, Action.run] at hplanned
      split at hplanned <;> simp at hplanned
    · change (Machine.createStream.run d.machine).1 = _ at hmachine
      simp only [Machine.createStream, Action.run] at hmachine
      split at hmachine <;> simp at hmachine
  · cases herror

/-- The round of busy streams is never empty, whatever the scheduler has come to. -/
theorem acquire_ne_emptyPool (s : Scheduler) :
    (acquire.run s).1 ≠ .error (.error (.device .emptyPool)) := by
  simp only [acquire, Action.run_gets_bind, modifyPool, Action.run_modify_bind]
  split
  · simp
  · split
    · next hfull =>
      split
      · simp only [Action.run_modify_bind, Action.run_pure]
        simp
      · next hnone => exact absurd hnone (StreamPool.nextShared?_ne_none hfull)
    · exact createStream_ne_emptyPool _

end Scheduler

/-! ### Every move keeps the books -/

namespace Stage

/-- The books are exact, and the device will not make a stream again that a vertex was bound to. -/
structure Booked (s : Stage) : Prop where
  books : s.pool.Books s.dag
  stream_lt : ∀ v t, s.dag.stream? v = some t → t < s.machine.nextStream

namespace Booked

variable {P : Rules} {s t : Stage} {v : VertexId} {el : Element} {g : Element → Element}

theorem initial (options : ContextOptions) : (Stage.initial options).Booked := by
  refine ⟨⟨?_, List.nodup_nil, ?_⟩, ?_⟩
  · simp [Stage.initial, Context.new]
  · simp [Stage.initial, Context.new]
  · simp [Stage.initial, Context.new, Dag.stream?, Dag.element?]

theorem congr (hs : s.Booked) (hdag : t.dag = s.dag) (hpool : t.pool = s.pool)
    (hnext : t.machine.nextStream = s.machine.nextStream) : t.Booked := by
  refine ⟨?_, ?_⟩
  · rw [hdag, hpool]
    exact hs.books
  · rw [hdag, hnext]
    exact hs.stream_lt

/-- A vertex comes to its end. -/
theorem ended (hs : s.Booked) (h : s.Coherent) (hv : s.dag.element? v = some el)
    (hopen : el.isTerminal = false) (hg : el.Turns (g el)) (hterminal : (g el).isTerminal = true)
    (hdag : t.dag = s.dag.modifyElement v g)
    (hfree : t.pool.free = (s.pool.releaseElement el v).free)
    (hslots : t.pool.slots = (s.pool.releaseElement el v).slots)
    (hnext : t.machine.nextStream = s.machine.nextStream) : t.Booked := by
  obtain ⟨u, hu, hlive⟩ := h.owned.bound v el hv hopen
  obtain ⟨slot, hslot⟩ := Table.contains_iff.mp ((h.owned.slots u).trans hlive)
  have hbound : ∀ r, t.dag.boundTo r = s.dag.boundTo r := fun r => by
    rw [hdag, Dag.boundTo_modifyElement hv hg.stream]
  have hunderWay : ∀ r w, t.dag.UnderWay r w ↔ s.dag.UnderWay r w ∧ w ≠ v := fun r w => by
    rw [hdag, Dag.underWay_modifyElement hv hg]
    simp [hterminal]
  have hrelease : s.pool.releaseElement el v = s.pool.release u v := by
    simp [StreamPool.releaseElement, hu]
  have hbooks := hs.books.release hslot (Dag.stream?_eq_some.mpr ⟨el, hv, hu⟩) hbound hunderWay
  refine ⟨hbooks.congr (fun _ => rfl) (fun _ _ => .rfl) (hslots.trans (by rw [hrelease])) ?_ ?_, ?_⟩
  · rw [hfree, hrelease]
    exact hbooks.free_nodup
  · rw [hfree, hrelease]
    exact fun _ => .rfl
  · rw [hdag, hnext, Dag.stream?_modifyElement hv hg.stream]
    exact hs.stream_lt

theorem fail (hs : s.Booked) (h : s.Coherent) (hv : s.dag.element? v = some el)
    (hopen : el.isTerminal = false) {cause : FailureCause}
    (hdag : t.dag = s.dag.modifyElement v fun e => e.fail cause)
    (hpool : t.pool = s.pool.releaseElement el v)
    (hnext : t.machine.nextStream = s.machine.nextStream) : t.Booked :=
  hs.ended h hv hopen (.fail hopen cause) rfl hdag (congrArg _ hpool) (congrArg _ hpool) hnext

/-- The slot that a stream had, or a clean one, says who was on the stream before. -/
theorem slot_getD (hs : s.Booked) {u : StreamId}
    (hnew : s.pool.slots.contains u = false → u = s.machine.nextStream) :
    let slot := (s.pool.slots.get? u).getD {}
    (∀ w, w ∈ slot.active ↔ s.dag.UnderWay u w) ∧ slot.active.Nodup ∧
      slot.boundTotal = (s.dag.boundTo u).length := by
  cases hslot : s.pool.slots.get? u with
  | some slot =>
      have hbooks := hs.books.slot u slot hslot
      exact ⟨hbooks.active, hbooks.active_nodup, hbooks.boundTotal⟩
  | none =>
      have hnobody : ∀ w, s.dag.stream? w ≠ some u := fun w hw =>
        Nat.ne_of_lt (hs.stream_lt w u hw) (hnew (Table.get?_eq_none_iff.mp hslot))
      have hnil : s.dag.boundTo u = [] :=
        List.eq_nil_iff_forall_not_mem.mpr fun w hw => hnobody w (Dag.mem_boundTo.mp hw)
      refine ⟨fun w => ?_, List.nodup_nil, by simp [hnil]⟩
      simpa using fun hw : s.dag.UnderWay u w => hnobody w hw.stream?

/-- Every stream that a vertex is bound to is older than the next one, also after a new vertex is
bound. -/
theorem stream_lt_assigned (hs : s.Booked) (h : s.Coherent) {e : Element} {d : Dag} {u : StreamId}
    {sch : Scheduler} (happ : s.dag.Appended e d)
    (hassigned : Scheduler.Assigned { s.toScheduler with dag := d } s.dag.vertices.length u sch)
    {w : VertexId} {r : StreamId} (hw : sch.dag.stream? w = some r) :
    r < sch.device.machine.nextStream := by
  have hlt : ∀ r, r < s.machine.nextStream → r < sch.device.machine.nextStream := fun r hr => by
    rcases hassigned.machine with ⟨hm, -⟩ | ⟨hm, -⟩
    · rwa [hm]
    · rw [hm]
      exact Nat.lt_succ_of_lt hr
  rw [hassigned.dag] at hw
  by_cases hn : w = s.dag.vertices.length
  · subst hn
    rw [happ.stream?_new] at hw
    obtain rfl : u = r := Option.some.inj hw
    rcases hassigned.machine with ⟨-, hmem⟩ | ⟨hm, hnext⟩
    · exact hlt u (h.owned.stream_lt u ((h.owned.slots u).symm.trans hmem))
    · rw [hm, hnext]
      exact Nat.lt_succ_self _
  · rw [happ.stream?_old hn] at hw
    exact hlt r (hs.stream_lt w r hw)

/-- A new vertex is bound to a stream. -/
theorem append (hs : s.Booked) (h : s.Coherent) {e : Element} {d : Dag} {u : StreamId}
    {sch : Scheduler} (hu : e.Unused) (happ : s.dag.Appended e d)
    (ha : (Scheduler.assign s.dag.vertices.length).run { s.toScheduler with dag := d } =
      (.ok u, sch))
    (hassigned : Scheduler.Assigned { s.toScheduler with dag := d } s.dag.vertices.length u sch)
    (queue : IssueQueue) (due : List VertexId) :
    Booked { s with toScheduler := sch, queue := queue, due := due } := by
  have hslots := hassigned.get?_slots h.slots_nextStream
  obtain ⟨hsub, hkept⟩ := Scheduler.free_assign (s := { s.toScheduler with dag := d }) h.faults
    hs.books.freeIdle happ.element?_new ha
  have hopen : (Element.bind { e with id := some s.dag.vertices.length } u).isTerminal = false := by
    simp [Element.bind, hu.state, Element.isTerminal, Lifecycle.isTerminal]
  have hbound : ∀ r, sch.dag.boundTo r =
      s.dag.boundTo r ++ if u = r then [s.dag.vertices.length] else [] := fun r => by
    rw [hassigned.dag, happ.boundTo]
    simp [Element.bind]
  have hunderWay : ∀ r w, sch.dag.UnderWay r w ↔
      s.dag.UnderWay r w ∨ (w = s.dag.vertices.length ∧ u = r) := fun r w => by
    rw [hassigned.dag, happ.underWay, hopen]
    simp [Element.bind]
  have hnew : s.pool.slots.contains u = false → u = s.machine.nextStream := fun hnone =>
    hassigned.machine.elim (fun hm => absurd hm.2 (by simp [hnone])) And.right
  obtain ⟨hactive, hnodup, htotal⟩ := hs.slot_getD hnew
  refine ⟨⟨fun r slot hslot => ?_, hsub.nodup hs.books.free_nodup, fun r => ?_⟩,
    fun w r hw => hs.stream_lt_assigned h happ hassigned hw⟩
  · rw [hslots] at hslot
    split at hslot
    · next heq =>
      subst heq
      obtain rfl := Option.some.inj hslot
      refine ⟨fun w => ?_, hnodup.insert, ⟨_, rfl, ?_, ?_⟩, ?_⟩
      · rw [hunderWay, ← hactive]
        simp [or_comm]
      · rw [hbound]
        simp
      · intro w hw
        rw [hbound, if_pos rfl, List.mem_append, List.mem_singleton] at hw
        rcases hw with hw | rfl
        · exact Nat.le_of_lt (Dag.lt_of_stream? (Dag.mem_boundTo.mp hw))
        · exact Nat.le_refl _
      · rw [hbound, if_pos rfl, List.length_append, ← htotal]
        rfl
    · next hne =>
      obtain ⟨hactive, hactive', htail, htotal⟩ := hs.books.slot r slot hslot
      have hbound' : sch.dag.boundTo r = s.dag.boundTo r := by simp [hbound, hne]
      refine ⟨fun w => ?_, hactive', ?_, ?_⟩
      · simp [hactive, hunderWay, hne]
      · rw [hbound']
        exact htail
      · rw [hbound']
        exact htotal
  · rw [hslots]
    by_cases heq : u = r
    · subst heq
      obtain ⟨pool, -, hpool⟩ := hassigned.pool
      simpa [hpool, StreamPool.bind] using List.ne_nil_of_mem List.mem_insert_self
    · rw [if_neg heq, ← hs.books.mem_free]
      exact ⟨fun hr => hsub.subset hr, fun hr => (hkept r hr).resolve_left (by simpa using heq)⟩

/-- A new vertex gets no stream. -/
theorem refuse (hs : s.Booked) (h : s.Coherent) {e : Element} {d : Dag} {error : Error}
    {sch : Scheduler} (hu : e.Unused) (happ : s.dag.Appended e d)
    (ha : (Scheduler.assign s.dag.vertices.length).run { s.toScheduler with dag := d } =
      (.error (.error error), sch))
    (hlimited : Scheduler.Limited { s.toScheduler with dag := d } sch) (cause : FailureCause) :
    Booked { s with toScheduler := { sch with
      dag := sch.dag.modifyElement s.dag.vertices.length fun e => e.fail cause } } := by
  obtain ⟨hsub, hkept⟩ := Scheduler.free_assign (s := { s.toScheduler with dag := d }) h.faults
    hs.books.freeIdle happ.element?_new ha
  refine ⟨hs.books.congr (fun r => ?_) (fun r w => ?_) hlimited.slots
    (hsub.nodup hs.books.free_nodup) fun r => ?_, fun w r hw => ?_⟩
  · simp [hlimited.dag, happ.boundTo, Element.fail, hu.stream]
  · simp [hlimited.dag, happ.underWay, Element.fail, hu.stream]
  · exact ⟨fun hr => hsub.subset hr, fun hr => (hkept r hr).resolve_left (by simp)⟩
  · simp only [hlimited.dag] at hw
    rw [Stage.machine, hlimited.machine]
    by_cases hn : w = s.dag.vertices.length
    · subst hn
      simp [happ.stream?_new, Element.fail, hu.stream] at hw
    · rw [happ.stream?_old hn] at hw
      exact hs.stream_lt w r hw

/-- **Every move keeps the books exact.** -/
theorem move (hs : s.Booked) (h : s.Coherent) (hm : Move P s t) : t.Booked := by
  cases hm with
  | advance ha =>
      obtain ⟨op, rest, p, f, -, -, rfl⟩ := Machine.advance_cases ha
      exact hs.congr rfl rfl rfl
  | skip | drain => exact hs.congr rfl rfl rfl
  | adjust ha => exact hs.congr ha.dag ha.pool ha.work.nextStream
  | finish hv hr =>
      exact hs.ended h hv (Element.isTerminal_of_running hr) (.finish hr) rfl rfl rfl rfl rfl
  | crash hv hr => exact hs.fail h hv (Element.isTerminal_of_running hr) rfl rfl rfl
  | cascade _ _ hv hx => exact hs.fail h hv (Element.isTerminal_of_unstarted hx) rfl rfl rfl
  | shun _ hv hx => exact hs.fail h hv hx rfl rfl rfl
  | reject _ _ hv hx => exact hs.fail h hv hx rfl rfl rfl
  | issue _ hd hv hx =>
      have hstart := Element.Turns.start (h.state_of_due hd hv hx) s.machine.nextEvent
      refine ⟨hs.books.congr (fun r => ?_) (fun r w => ?_) rfl hs.books.free_nodup
        fun _ => .rfl, ?_⟩
      · exact Dag.boundTo_modifyElement hv rfl
      · refine (Dag.underWay_modifyElement hv hstart).trans ?_
        exact and_iff_left fun _ => rfl
      · rw [issued, Dag.stream?_modifyElement hv rfl]
        exact hs.stream_lt
  | enlist hu _ hd ha =>
      obtain ⟨happ, hassigned⟩ := h.assigned hu hd ha
      exact hs.append h hu happ ha hassigned _ _
  | refuse hu _ hd ha =>
      obtain ⟨happ, hlimited⟩ := h.limited hu hd ha
      exact hs.refuse h hu happ ha hlimited _
  | cleanup hr hd hq hc =>
      rw [Scheduler.run_cleanup h.faults h.owned.slots h.owned.events] at hc
      obtain ⟨-, rfl⟩ := Prod.mk.inj hc
      exact ⟨⟨by simp, List.nodup_nil, by simp⟩, hs.stream_lt⟩

end Booked

theorem booked_steps {P : Rules} {options : ContextOptions} {s : Stage}
    (hm : Steps P (.initial options) s) : s.Booked :=
  (Coherent.initial options).invariant (I := Booked) (fun _ _ h hs hm => hs.move h hm)
    (fun _ _ hs hd => hs.congr hd.dag hd.pool hd.work.nextStream) (.initial options) hm

end Stage

namespace Context

/-- **The bookkeeping of streams is exact in every state of a contained run.**  For every stream of
the pool, `active` are the vertices on it that are not over, `tail` is the last one that was ever
bound to it, and `boundTotal` is their number; the free streams, each listed once, are those with
nothing active.  A vertex that is not over has a stream of the pool.  A pool with a limit keeps to
it, and where the limit is reached there is a stream whose turn it is: nothing ever fails for want
of one. -/
theorem streams_booked (options : ContextOptions) (commands : List Command)
    (hc : ∀ command ∈ commands, command.Contained) :
    let c := ran options commands
    c.pool.Books c.dag ∧
    (∀ v el, c.dag.element? v = some el → el.isTerminal = false →
      ∃ t, el.stream = some t ∧ c.pool.slots.contains t = true) ∧
    (∀ max, options.maxStreams = some max → 1 ≤ max → c.pool.slots.size ≤ max) ∧
    (c.pool.isFull = true → 0 < c.pool.slots.size ∧
      ∃ t, c.pool.nextShared? = some t ∧ c.pool.slots.contains t = true) ∧
    ∀ s : Scheduler, (Scheduler.acquire.run s).1 ≠ .error (.error (.device .emptyPool)) := by
  obtain ⟨s, hs, hsteps, h, -⟩ := Stage.exists_stage_ran options (P := fun _ _ => True) hc
    fun _ _ _ _ _ _ => trivial
  rw [← hs]
  refine ⟨(Stage.booked_steps hsteps).books, fun v el hv hopen => ?_, fun max hmax hpos => ?_,
    fun hfull => ?_, Scheduler.acquire_ne_emptyPool⟩
  · obtain ⟨t, ht, hlive⟩ := h.owned.bound v el hv hopen
    exact ⟨t, ht, (h.owned.slots t).trans hlive⟩
  · exact (Stage.withinLimit_steps hsteps).size max hmax (Nat.ne_of_gt hpos)
  · obtain ⟨t, ht⟩ := Option.ne_none_iff_exists'.mp (StreamPool.nextShared?_ne_none hfull)
    have hmem := StreamPool.contains_of_nextShared? ht
    refine ⟨?_, t, ht, hmem⟩
    rw [← Table.length_keys]
    exact List.length_pos_of_mem (Table.mem_keys_iff.mpr hmem)

/-- Two launches that have finished, and one that depends on both and is under way. -/
def joinUnderWay : List Command := fork ++ [join, .device .step, .device .step, .isActive]

/-- With two streams at most, the third launch shares the stream of the first; the other stream is
free. -/
theorem streams_booked_joinUnderWay :
    let c := ran { maxStreams := some 2 } joinUnderWay
    c.pool.slots.get? 0 = some ⟨[2], some 2, 2⟩ ∧ c.pool.free = [1] ∧ c.dag.UnderWay 0 2 ∧
      (∀ v ∈ c.dag.boundTo 0, v ≤ 2) ∧ (c.dag.boundTo 0).length = 2 ∧
      ¬ ∃ v, c.dag.UnderWay 1 v := by
  have hcontained : ∀ command ∈ joinUnderWay, command.Contained := by
    simp only [joinUnderWay, fork, join, List.cons_append, List.nil_append, List.forall_mem_cons]
    exact ⟨rfl, rfl, (contained_new _ _).1, (contained_new _ _).1, (contained_new _ _).1, rfl, rfl,
      trivial, by simp⟩
  obtain ⟨hbooks, -⟩ := streams_booked { maxStreams := some 2 } joinUnderWay hcontained
  have hslot : (ran { maxStreams := some 2 } joinUnderWay).pool.slots.get? 0 =
      some ⟨[2], some 2, 2⟩ := by decide +kernel
  have hfree : (ran { maxStreams := some 2 } joinUnderWay).pool.free = [1] := by decide +kernel
  generalize ran { maxStreams := some 2 } joinUnderWay = c at *
  have hslotBooks := hbooks.slot 0 _ hslot
  obtain ⟨last, hlast, -, hle⟩ := hslotBooks.tail
  obtain rfl : 2 = last := Option.some.inj hlast
  obtain ⟨idle, hidle, hnil⟩ := (hbooks.mem_free 1).mp (by simp [hfree])
  refine ⟨hslot, hfree, (hslotBooks.active 2).mp (by simp), hle, hslotBooks.boundTotal.symm, ?_⟩
  rintro ⟨v, hv⟩
  have := ((hbooks.slot 1 idle hidle).active v).mpr hv
  simp [hnil] at this

end Context

end LaunchGraph
