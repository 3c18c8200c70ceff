import LaunchGraph.Proofs.Lives

/-!
# Listing — what the pool knows of its streams

The pool lists, for each stream, the vertices on it that are not over, and the one that was bound
last (`StreamPool.Lists`).  A stream is free only if its list is empty (`StreamPool.FreeIdle`).
Every move keeps the lists complete: whoever is not over is listed on its stream
(`Stage.Listed`).  So nobody who is not over is bound to a stream that is free.

A pool with a limit never has more streams than that (`Stage.WithinLimit`).
-/

namespace LaunchGraph

namespace StreamPool

variable {pool : StreamPool} {t u : StreamId} {v w last : VertexId}

/-- Vertex `v` is under way on stream `t`, to which `last` was bound last. -/
def Lists (pool : StreamPool) (t : StreamId) (v last : VertexId) : Prop :=
  ∃ slot, pool.slots.get? t = some slot ∧ v ∈ slot.active ∧ slot.tail = some last

/-- That a vertex is over takes only that vertex off the list. -/
theorem Lists.release (h : pool.Lists t w last) (hne : w ≠ v) (u : StreamId) :
    (pool.release u v).Lists t w last := by
  obtain ⟨slot, hslot, hmem, htail⟩ := h
  unfold StreamPool.release
  split
  · exact ⟨slot, hslot, hmem, htail⟩
  · next x hx =>
    by_cases hu : u = t
    · subst hu
      obtain rfl : slot = x := Option.some.inj (hslot.symm.trans hx)
      exact ⟨{ slot with active := slot.active.filter (· ≠ v) }, by simp [hslot],
        by simp [hmem, hne], htail⟩
    · exact ⟨slot, by simp [hu, hslot], hmem, htail⟩

theorem Lists.releaseElement (h : pool.Lists t w last) (hne : w ≠ v) (el : Element) :
    (pool.releaseElement el v).Lists t w last := by
  unfold StreamPool.releaseElement
  split
  · exact h.release hne _
  · exact h

/-- A vertex that is bound to a stream is the last one there. -/
theorem lists_bind (pool : StreamPool) (t : StreamId) (v : VertexId) :
    (pool.bind t v).Lists t v v := by
  let slot := (pool.slots.get? t).getD {}
  refine ⟨⟨slot.active.insert v, some v, slot.boundTotal + 1⟩, ?_, by simp, rfl⟩
  simp [StreamPool.bind, slot]

theorem Lists.bind (h : pool.Lists t w last) (u : StreamId) (v : VertexId) :
    ∃ last', (pool.bind u v).Lists t w last' ∧ (last' = last ∨ last' = v) := by
  obtain ⟨slot, hslot, hmem, htail⟩ := h
  by_cases hu : u = t
  · subst hu
    refine ⟨v, ⟨⟨slot.active.insert v, some v, slot.boundTotal + 1⟩, ?_, by simp [hmem], rfl⟩,
      .inr rfl⟩
    simp [StreamPool.bind, hslot]
  · exact ⟨last, ⟨slot, by simp [StreamPool.bind, hu, hslot], hmem, htail⟩, .inl rfl⟩

theorem Lists.congr {pool' : StreamPool} (h : pool.Lists t w last)
    (hslots : pool'.slots = pool.slots) : pool'.Lists t w last := by
  simpa only [Lists, hslots] using h

theorem not_lists_of_isIdle (h : pool.isIdle t = true) : ¬ pool.Lists t w last := by
  rintro ⟨slot, hslot, hmem, -⟩
  simp only [isIdle, hslot, Option.any_some, List.isEmpty_iff] at h
  simp [h] at hmem

/-- An idle stream is one with a slot where nobody is under way. -/
theorem isIdle_iff :
    pool.isIdle t = true ↔ ∃ slot, pool.slots.get? t = some slot ∧ slot.active = [] := by
  unfold isIdle
  cases pool.slots.get? t <;> simp

theorem not_lists_of_contains (h : pool.slots.contains t = false) : ¬ pool.Lists t w last := by
  rintro ⟨slot, hslot, -⟩
  simp [Table.contains_of_get? hslot] at h

/-- The streams that are free are idle. -/
def FreeIdle (pool : StreamPool) : Prop := ∀ t ∈ pool.free, pool.isIdle t = true

/-- A stream that is free after vertex `v` was released was free before, or nobody is left on it. -/
theorem mem_free_release (h : t ∈ (pool.release u v).free) :
    t ∈ pool.free ∨ (t = u ∧ ∃ slot, pool.slots.get? u = some slot ∧
      slot.active.filter (· ≠ v) = []) := by
  unfold StreamPool.release at h
  split at h
  · exact .inl h
  · next slot hslot =>
    dsimp only at h
    split at h
    · next hempty =>
      rcases List.mem_append.mp h with h | h
      · exact .inl h
      · exact .inr ⟨List.mem_singleton.mp h, slot, hslot, List.isEmpty_iff.mp hempty.1⟩
    · exact .inl h

theorem FreeIdle.release (h : pool.FreeIdle) (u : StreamId) (v : VertexId) :
    (pool.release u v).FreeIdle := by
  -- a list that is empty stays empty, and so does that of the stream that becomes free
  have hidle : ∀ t slot, pool.slots.get? t = some slot → slot.active.filter (· ≠ v) = [] →
      (t = u ∨ slot.active = []) → (pool.release u v).isIdle t = true := by
    intro t slot hslot hnil hcase
    unfold StreamPool.release
    split
    · next hnone =>
      rcases hcase with rfl | hactive
      · simp [hnone] at hslot
      · exact isIdle_iff.mpr ⟨slot, hslot, hactive⟩
    · next slot' hslot' =>
      by_cases hu : u = t
      · subst hu
        obtain rfl : slot' = slot := Option.some.inj (hslot'.symm.trans hslot)
        exact isIdle_iff.mpr ⟨{ slot' with active := slot'.active.filter (· ≠ v) },
          by simp [hslot], hnil⟩
      · exact isIdle_iff.mpr ⟨slot, by simp [hu, hslot], hcase.resolve_left (Ne.symm hu)⟩
  intro t ht
  rcases mem_free_release ht with hfree | ⟨rfl, slot, hslot, hnil⟩
  · obtain ⟨slot, hslot, hactive⟩ := isIdle_iff.mp (h t hfree)
    exact hidle t slot hslot (by simp [hactive]) (.inr hactive)
  · exact hidle t slot hslot hnil (.inl rfl)

@[simp] theorem maxStreams_releaseElement (pool : StreamPool) (el : Element) (v : VertexId) :
    (pool.releaseElement el v).maxStreams = pool.maxStreams := by
  unfold StreamPool.releaseElement StreamPool.release
  split
  · split <;> rfl
  · rfl

@[simp] theorem size_releaseElement (pool : StreamPool) (el : Element) (v : VertexId) :
    (pool.releaseElement el v).slots.size = pool.slots.size := by
  unfold StreamPool.releaseElement StreamPool.release
  split
  · split
    · rfl
    · simp
  · rfl

theorem FreeIdle.releaseElement (h : pool.FreeIdle) (el : Element) (v : VertexId) :
    (pool.releaseElement el v).FreeIdle := by
  unfold StreamPool.releaseElement
  split
  · exact h.release _ v
  · exact h

theorem FreeIdle.bind (h : pool.FreeIdle) (u : StreamId) (v : VertexId) :
    (pool.bind u v).FreeIdle := by
  intro t ht
  obtain ⟨hfree, hne⟩ : t ∈ pool.free ∧ t ≠ u := by simpa [StreamPool.bind] using ht
  obtain ⟨slot, hslot, hnil⟩ := isIdle_iff.mp (h t hfree)
  exact isIdle_iff.mpr ⟨slot, by simp [StreamPool.bind, Ne.symm hne, hslot], hnil⟩

end StreamPool

namespace Scheduler.Found

variable {s : Scheduler} {t u : StreamId} {w last : VertexId} {pool : StreamPool}

/-- Looking for a stream takes nobody off the lists. -/
theorem lists (h : s.Found t pool)
    (hnew : s.pool.slots.contains s.device.machine.nextStream = false)
    (hl : s.pool.Lists u w last) : pool.Lists u w last := by
  rcases h.slots with hslots | ⟨-, rfl, hslots⟩
  · exact hl.congr hslots
  · obtain ⟨slot, hslot, hmem, htail⟩ := hl
    have hne : s.device.machine.nextStream ≠ u := by
      rintro rfl
      simp [Table.contains_of_get? hslot] at hnew
    exact ⟨slot, by simp [hslots, hne, hslot], hmem, htail⟩

theorem freeIdle (h : s.Found t pool) (hf : s.pool.FreeIdle) : pool.FreeIdle := by
  intro u hu
  obtain ⟨slot, hslot, hnil⟩ := StreamPool.isIdle_iff.mp (hf u (h.free u hu))
  rcases h.slots with hslots | ⟨-, -, hslots⟩
  · exact StreamPool.isIdle_iff.mpr ⟨slot, hslots ▸ hslot, hnil⟩
  · by_cases hut : t = u
    · exact StreamPool.isIdle_iff.mpr ⟨{}, by simp [hslots, hut], rfl⟩
    · exact StreamPool.isIdle_iff.mpr ⟨slot, by simp [hslots, hut, hslot], hnil⟩

end Scheduler.Found

namespace Dag.Appended

variable {d d' : Dag} {e el' : Element} {v : VertexId} {t : StreamId}

/-- A new vertex is bound to stream `t`; the others stay on theirs. -/
theorem bound_cases (h : d.Appended e d')
    (hv : (d'.modifyElement d.vertices.length fun e => e.bind t).element? v = some el') :
    (v = d.vertices.length ∧ el'.stream = some t) ∨
      ∃ el, d.element? v = some el ∧ el.Turns el' := by
  rcases h.element_cases hv with ⟨el, active, hel, rfl⟩ | ⟨rfl, rfl⟩
  · exact .inr ⟨el, hel, .stay active⟩
  · exact .inl ⟨rfl, rfl⟩

/-- If a new vertex fails as it enters, whoever is on a stream was there before. -/
theorem unbound (h : d.Appended e d') (hu : e.Unused) {cause : FailureCause}
    (hv : (d'.modifyElement d.vertices.length fun e => e.fail cause).element? v = some el')
    (ht : el'.stream = some t) : ∃ el, d.element? v = some el ∧ el.Turns el' := by
  rcases h.element_cases hv with ⟨el, active, hel, rfl⟩ | ⟨-, rfl⟩
  · exact ⟨el, hel, .stay active⟩
  · simp [Element.fail, hu.stream] at ht

end Dag.Appended

namespace Stage

/-- The pool lists the vertices that are not over, and what it takes for free is idle. -/
structure Listed (s : Stage) : Prop where
  freeIdle : s.pool.FreeIdle
  listed : ∀ v el t, s.dag.element? v = some el → el.isTerminal = false → el.stream = some t →
    ∃ last, s.pool.Lists t v last ∧ v ≤ last

namespace Listed

variable {s t : Stage}

theorem initial (options : ContextOptions) : (Stage.initial options).Listed := by
  constructor <;> simp [Stage.initial, Context.new, StreamPool.FreeIdle, Dag.element?]

/-- Nobody who is not over is bound to a free stream. -/
theorem terminal_of_free (hs : s.Listed) {u : StreamId} (hu : u ∈ s.pool.free) {v : VertexId}
    {el : Element} (hv : s.dag.element? v = some el) (hstream : el.stream = some u) :
    el.isTerminal = true := by
  by_contra ht
  obtain ⟨last, hlast, -⟩ := hs.listed v el u hv (Bool.eq_false_iff.mpr ht) hstream
  exact StreamPool.not_lists_of_isIdle (hs.freeIdle u hu) hlast

/-- Vertices take turns, and those that are not over stay on the list. -/
theorem turns (hs : s.Listed) (hturns : s.dag.Turns t.dag) (hidle : t.pool.FreeIdle)
    (hlists : ∀ v u last, t.dag.isTerminal v = false → s.pool.Lists u v last →
      t.pool.Lists u v last) : t.Listed where
  freeIdle := hidle
  listed v el' u hv ht hu := by
    obtain ⟨el, hel, hturn⟩ := hturns v el' hv
    obtain ⟨last, hlast, hle⟩ :=
      hs.listed v el u hel (hturn.isTerminal ht) (hturn.stream ▸ hu)
    exact ⟨last, hlists v u last ((Dag.isTerminal_eq hv).trans ht) hlast, hle⟩

theorem congr (hs : s.Listed) (hdag : t.dag = s.dag) (hpool : t.pool = s.pool) : t.Listed :=
  hs.turns (.of_eq hdag) (hpool ▸ hs.freeIdle) fun _ _ _ _ hl => hpool ▸ hl

/-- A vertex comes to its end and is taken off the list. -/
theorem ended (hs : s.Listed) {v : VertexId} {el : Element} (hv : s.dag.element? v = some el)
    {g : Element → Element} (hg : el.Turns (g el)) (hterminal : (g el).isTerminal = true)
    (hdag : t.dag = s.dag.modifyElement v g)
    (hfree : t.pool.free = (s.pool.releaseElement el v).free)
    (hslots : t.pool.slots = (s.pool.releaseElement el v).slots) : t.Listed := by
  refine hs.turns (hdag ▸ .modifyElement hv hg) (fun u hu => ?_) fun w u last hw hl => ?_
  · have hidle := hs.freeIdle.releaseElement el v u (hfree ▸ hu)
    simpa only [StreamPool.isIdle, hslots] using hidle
  · have hne : w ≠ v := by
      rintro rfl
      simp [hdag, Dag.isTerminal, hv, hterminal] at hw
    exact (hl.releaseElement hne el).congr hslots

theorem fail (hs : s.Listed) {v : VertexId} {el : Element} (hv : s.dag.element? v = some el)
    (ht : el.isTerminal = false) {cause : FailureCause}
    (hdag : t.dag = s.dag.modifyElement v fun e => e.fail cause)
    (hpool : t.pool = s.pool.releaseElement el v) : t.Listed :=
  hs.ended hv (.fail ht cause) rfl hdag (congrArg _ hpool) (congrArg _ hpool)

/-- A new vertex is put on the list of its stream. -/
theorem append (hs : s.Listed) (h : s.Coherent) {e : Element} {d : Dag} {u : StreamId}
    {sch : Scheduler} (happ : s.dag.Appended e d)
    (ha : Scheduler.Assigned { s.toScheduler with dag := d } s.dag.vertices.length u sch)
    (queue : IssueQueue) (due : List VertexId) :
    Listed { s with toScheduler := sch, queue := queue, due := due } := by
  obtain ⟨pool, hfound, hpool⟩ := ha.pool
  refine ⟨hpool ▸ (hfound.freeIdle hs.freeIdle).bind _ _, fun w x r hx ht hr => ?_⟩
  simp only [hpool]
  rcases happ.bound_cases (ha.dag ▸ hx) with ⟨rfl, hstream⟩ | ⟨y, hy, hturn⟩
  · obtain rfl : u = r := Option.some.inj (hstream.symm.trans hr)
    exact ⟨_, StreamPool.lists_bind _ _ _, Nat.le_refl _⟩
  · obtain ⟨last, hlast, hle⟩ := hs.listed w y r hy (hturn.isTerminal ht) (hturn.stream ▸ hr)
    obtain ⟨last', hlast', rfl | rfl⟩ := (hfound.lists h.slots_nextStream hlast).bind u _
    · exact ⟨_, hlast', hle⟩
    · exact ⟨_, hlast', Nat.le_of_lt (Dag.lt_of_element? hy)⟩

/-- A vertex for which no stream could be had is on no list. -/
theorem refuse (hs : s.Listed) {e : Element} {d : Dag} (hu : e.Unused)
    (happ : s.dag.Appended e d) {cause : FailureCause}
    (hdag : t.dag = d.modifyElement s.dag.vertices.length fun e => e.fail cause)
    (hfree : ∀ u ∈ t.pool.free, u ∈ s.pool.free) (hslots : t.pool.slots = s.pool.slots) :
    t.Listed := by
  refine ⟨fun u hu => ?_, fun v x r hx ht hr => ?_⟩
  · simpa only [StreamPool.isIdle, hslots] using hs.freeIdle u (hfree u hu)
  · obtain ⟨y, hy, hturn⟩ := happ.unbound hu (hdag ▸ hx) hr
    obtain ⟨last, hlast, hle⟩ := hs.listed v y r hy (hturn.isTerminal ht) (hturn.stream ▸ hr)
    exact ⟨last, hlast.congr hslots, hle⟩

end Listed

variable {P : Rules} {s t : Stage}

/-- **Every move keeps the lists complete.** -/
theorem Coherent.listed (h : s.Coherent) (hs : s.Listed) (hm : Move P s t) : t.Listed := by
  cases hm with
  | advance | skip | drain => exact hs.congr rfl rfl
  | adjust ha => exact hs.congr ha.dag ha.pool
  | finish hv hr => exact hs.ended hv (.finish hr) rfl rfl rfl rfl
  | crash hv hr => exact hs.fail hv (Element.isTerminal_of_running hr) rfl rfl
  | cascade _ _ hv hx => exact hs.fail hv (Element.isTerminal_of_unstarted hx) rfl rfl
  | shun _ hv hx => exact hs.fail hv hx rfl rfl
  | reject _ _ hv hx => exact hs.fail hv hx rfl rfl
  | issue _ hd hv hx =>
      exact hs.turns (.modifyElement hv (.start (h.state_of_due hd hv hx) _)) hs.freeIdle
        fun _ _ _ _ hl => hl
  | enlist hu _ hd ha =>
      obtain ⟨happ, hassigned⟩ := h.assigned hu hd ha
      exact hs.append h happ hassigned _ _
  | refuse hu _ hd ha =>
      obtain ⟨happ, hlimited⟩ := h.limited hu hd ha
      exact hs.refuse hu happ (by rw [hlimited.dag]) hlimited.free hlimited.slots
  | cleanup hr hd hq hc =>
      rw [Scheduler.run_cleanup h.faults h.owned.slots h.owned.events] at hc
      obtain ⟨-, rfl⟩ := Prod.mk.inj hc
      exact ⟨by simp [StreamPool.FreeIdle], fun v el _ hv ht => by
        simp [h.terminal_of_rest hd hq hr hv] at ht⟩

theorem Coherent.listed_steps {options : ContextOptions} (hm : Steps P (.initial options) s) :
    s.Listed :=
  (Coherent.initial options).invariant (I := Listed) (fun _ _ h hs hm => h.listed hs hm)
    (fun _ _ hs hd => hs.congr hd.dag hd.pool) (.initial options) hm

/-! ### The limit of the pool -/

/-- The pool was made for `limit` streams at most, if any limit was given, and has no more. -/
structure WithinLimit (limit : Option Nat) (s : Stage) : Prop where
  maxStreams : s.pool.maxStreams = limit
  size : ∀ max, limit = some max → max ≠ 0 → s.pool.slots.size ≤ max

namespace WithinLimit

variable {limit : Option Nat}

theorem of_size (hs : s.WithinLimit limit) (hmax : t.pool.maxStreams = s.pool.maxStreams)
    (hsize : t.pool.slots.size ≤ s.pool.slots.size) : t.WithinLimit limit where
  maxStreams := hmax.trans hs.maxStreams
  size max hlimit hne := Nat.le_trans hsize (hs.size max hlimit hne)

/-- A stream is made for a new vertex only below the limit. -/
theorem append (hs : s.WithinLimit limit) {d : Dag} {v : VertexId} {u : StreamId}
    {sch : Scheduler} (ha : Scheduler.Assigned { s.toScheduler with dag := d } v u sch)
    (queue : IssueQueue) (due : List VertexId) :
    WithinLimit limit { s with toScheduler := sch, queue := queue, due := due } := by
  obtain ⟨pool, hfound, hpool⟩ := ha.pool
  have hsize : sch.pool.slots.size = pool.slots.size := by
    rw [hpool, StreamPool.bind, Table.size_insert, if_pos hfound.mem]
  refine ⟨(congrArg _ hpool).trans (hfound.maxStreams.trans hs.maxStreams), fun max hlimit hne => ?_⟩
  have hle := hs.size max hlimit hne
  refine hsize ▸ ?_
  rcases hfound.slots with hslots | ⟨hfull, -, hslots⟩
  · exact hslots ▸ hle
  · have hroom : s.pool.slots.size < max := by
      simpa [StreamPool.isFull, hs.maxStreams, hlimit, Nat.pos_of_ne_zero hne] using hfull
    rw [hslots, Table.size_insert]
    split
    · exact hle
    · exact hroom

/-- **Every move keeps the pool within its limit.** -/
theorem move (hs : s.WithinLimit limit) (h : s.Coherent) (hm : Move P s t) :
    t.WithinLimit limit := by
  cases hm with
  | adjust ha => exact hs.of_size (congrArg _ ha.pool) (by simp [ha.pool])
  | finish | crash | cascade | shun | reject =>
      exact hs.of_size (StreamPool.maxStreams_releaseElement _ _ _)
        (Nat.le_of_eq (StreamPool.size_releaseElement _ _ _))
  | enlist hu _ hd ha => exact hs.append (h.assigned hu hd ha).2 _ _
  | refuse hu _ hd ha =>
      obtain ⟨-, hlimited⟩ := h.limited hu hd ha
      exact hs.of_size hlimited.maxStreams (by simp [hlimited.slots])
  | cleanup _ _ _ hc =>
      rw [Scheduler.run_cleanup h.faults h.owned.slots h.owned.events] at hc
      obtain ⟨-, rfl⟩ := Prod.mk.inj hc
      exact hs.of_size rfl (Nat.zero_le _)
  | advance | skip | issue | drain => exact hs.of_size rfl (Nat.le_refl _)

end WithinLimit

theorem withinLimit_steps {options : ContextOptions} (hm : Steps P (.initial options) s) :
    s.WithinLimit options.maxStreams :=
  (Coherent.initial options).invariant (I := WithinLimit options.maxStreams)
    (fun _ _ h hs hm => hs.move h hm)
    (fun _ _ hs hd => hs.of_size (congrArg _ hd.pool) (by simp [hd.pool]))
    ⟨rfl, fun _ _ _ => Nat.zero_le _⟩ hm

end Stage

end LaunchGraph
