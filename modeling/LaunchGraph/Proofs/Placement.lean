import LaunchGraph.Proofs.Listing

/-!
# Placement — who shares a stream

Where the number of streams is not limited, a new vertex is placed right behind the only parent of
it that is not over, or on a stream that nobody is using (`Scheduler.placed_of_assign`).  So the
vertices of a stream follow each other in the graph: whoever is not over has a path to everyone
that was bound to its stream later (`Stage.Placement.path`).
-/

namespace LaunchGraph

namespace Scheduler

variable {s s' : Scheduler} {v : VertexId} {t : StreamId}

/-- A vertex continues on stream `t`, that of a parent which was bound to it last; or nobody is on
the stream. -/
def Placed (s : Scheduler) (v : VertexId) (t : StreamId) : Prop :=
  (∃ p x, p ∈ s.dag.parentVertices v ∧ s.dag.element? p = some x ∧ x.stream = some t ∧
      ∀ w last, s.pool.Lists t w last → last = p) ∨
    ∀ w last, ¬ s.pool.Lists t w last

/-- Where the number of streams is not limited, a stream that is acquired is idle or new. -/
theorem acquire_cases (hf : s.device.faults = []) (hmax : s.pool.maxStreams = none)
    (ha : acquire.run s = (.ok t, s')) :
    s.pool.isIdle t = true ∨ t = s.device.machine.nextStream := by
  simp only [acquire, Action.run_gets_bind, modifyPool, Action.run_modify_bind] at ha
  cases hidle : s.pool.takeIdle.1 with
  | some u =>
      simp only [hidle, Action.run_pure, Prod.mk.injEq, Except.ok.injEq] at ha
      obtain ⟨rfl, -⟩ := ha
      exact .inl (StreamPool.isIdle_of_takeIdle hidle)
  | none =>
      have hfull : s.pool.takeIdle.2.isFull = false := by simp [StreamPool.isFull, hmax]
      simp only [hidle, hfull, Bool.false_eq_true, if_false] at ha
      rw [run_createStream_eq (s := { s with pool := s.pool.takeIdle.2 }) hf] at ha
      split at ha
      · cases ha
      · simp only [Prod.mk.injEq, Except.ok.injEq] at ha
        exact .inr ha.1.symm

/-- A vertex that continues on a stream is placed behind a parent. -/
theorem parent_of_continued? (h : s.continued? v = some t) :
    ∃ p x, p ∈ s.dag.parentVertices v ∧ s.dag.element? p = some x ∧ x.stream = some t ∧
      ∀ w last, s.pool.Lists t w last → last = p := by
  unfold continued? at h
  split at h
  · next p hp =>
    have hmem : p ∈ (s.dag.parentVertices v).filter fun p => !s.dag.isTerminal p := by simp [hp]
    simp only [StreamPool.continuation?, Option.bind_eq_bind, Option.bind_eq_some_iff] at h
    obtain ⟨x, hx, u, hu, slot, hslot, h⟩ := h
    split at h
    · next htail =>
      obtain rfl : u = t := Option.some.inj h
      refine ⟨p, x, (List.mem_filter.mp hmem).1, hx, hu, ?_⟩
      rintro w last ⟨slot', hslot', -, htail'⟩
      obtain rfl : slot = slot' := Option.some.inj (hslot.symm.trans hslot')
      exact Option.some.inj (htail'.symm.trans htail)
    · cases h
  · cases h

/-- **A vertex is placed behind its only parent that is not over, or alone on a stream.** -/
theorem placed_of_assign {e : Element} (hf : s.device.faults = [])
    (hv : s.dag.element? v = some e) (hmax : s.pool.maxStreams = none)
    (hnew : s.pool.slots.contains s.device.machine.nextStream = false)
    (ha : (assign v).run s = (.ok t, s')) : s.Placed v t := by
  rw [run_assign_eq hv, findStream] at ha
  cases hc : s.continued? v with
  | some u =>
      simp only [hc, pure_bind, modifyPool, modifyDag, Action.run_modify_bind, Action.run_pure,
        Prod.mk.injEq, Except.ok.injEq] at ha
      obtain ⟨rfl, -⟩ := ha
      exact .inl (parent_of_continued? hc)
  | none =>
      simp only [hc] at ha
      rcases run_acquire hf with ⟨u, s₁, hrun, -⟩ | ⟨n, s₁, hrun, -⟩
      · rw [Action.run_bind_ok hrun] at ha
        simp only [modifyPool, modifyDag, Action.run_modify_bind, Action.run_pure, Prod.mk.injEq,
          Except.ok.injEq] at ha
        obtain ⟨rfl, -⟩ := ha
        refine .inr fun w last => ?_
        rcases acquire_cases hf hmax hrun with hidle | rfl
        · exact StreamPool.not_lists_of_isIdle hidle
        · exact StreamPool.not_lists_of_contains hnew
      · rw [Action.run_bind_error hrun] at ha
        cases ha

end Scheduler

namespace Stage

/-- The number of streams is not limited, and whoever is not over has a path to everyone who was
bound to its stream later. -/
structure Placement (s : Stage) : Prop where
  unlimited : s.pool.maxStreams = none
  path : ∀ u v x y t, u < v → s.dag.element? u = some x → s.dag.element? v = some y →
    x.stream = some t → y.stream = some t → x.isTerminal = false → s.dag.Path u v

namespace Placement

variable {P : Rules} {s t : Stage}

theorem initial {options : ContextOptions} (h : options.maxStreams = none) :
    (Stage.initial options).Placement := by
  constructor <;> simp [Stage.initial, Context.new, h, Dag.element?]

/-- Vertices take turns. -/
theorem turns (hs : s.Placement) (hturns : s.dag.Turns t.dag) (hedges : t.dag.edges = s.dag.edges)
    (hmax : t.pool.maxStreams = s.pool.maxStreams) : t.Placement where
  unlimited := hmax.trans hs.unlimited
  path u v x' y' r huv hx hy hxr hyr ht := by
    obtain ⟨x, hx, hturn⟩ := hturns u x' hx
    obtain ⟨y, hy, hturn'⟩ := hturns v y' hy
    rw [Dag.Path, Dag.hasEdge_congr hedges]
    exact hs.path u v x y r huv hx hy (hturn.stream ▸ hxr) (hturn'.stream ▸ hyr)
      (hturn.isTerminal ht)

theorem disturbance (hs : s.Placement) (hd : Disturbance s t) : t.Placement :=
  hs.turns (.of_eq hd.dag) (congrArg _ hd.dag) (congrArg _ hd.pool)

/-- A vertex comes to its end, and its stream is released. -/
theorem ended (hs : s.Placement) {v : VertexId} {el : Element} (hv : s.dag.element? v = some el)
    {g : Element → Element} (hg : el.Turns (g el)) (hdag : t.dag = s.dag.modifyElement v g)
    (hmax : t.pool.maxStreams = (s.pool.releaseElement el v).maxStreams) : t.Placement :=
  hs.turns (hdag ▸ .modifyElement hv hg) (by simp [hdag]) (by simpa using hmax)

theorem fail (hs : s.Placement) {v : VertexId} {el : Element} (hv : s.dag.element? v = some el)
    (ht : el.isTerminal = false) {cause : FailureCause}
    (hdag : t.dag = s.dag.modifyElement v fun e => e.fail cause)
    (hpool : t.pool = s.pool.releaseElement el v) : t.Placement :=
  hs.ended hv (.fail ht cause) hdag (congrArg _ hpool)

/-- Whoever is not over and is on the stream where a new vertex is placed has a path to it. -/
theorem path_new (hs : s.Placement) (hl : s.Listed) {e : Element} {d : Dag}
    (happ : s.dag.Appended e d) {u : StreamId}
    (hplaced : Scheduler.Placed { s.toScheduler with dag := d } s.dag.vertices.length u)
    {a : VertexId} {x : Element} (hx : s.dag.element? a = some x) (ht : x.isTerminal = false)
    (hu : x.stream = some u) : d.Path a s.dag.vertices.length := by
  obtain ⟨last, hlast, hle⟩ := hl.listed a x u hx ht hu
  rcases hplaced with ⟨p, z, hp, hz, hzu, htail⟩ | hnobody
  · -- the new vertex continues behind its parent, and so behind everyone on the stream
    obtain rfl := htail a last hlast
    have hedge : d.HasEdge last s.dag.vertices.length := happ.linked.mem_parentVertices.mp hp
    rcases Nat.eq_or_lt_of_le hle with rfl | hlt
    · exact .single hedge
    · rcases happ.element?_cases hz with ⟨rfl, -⟩ | ⟨-, z₀, active, hz₀, rfl⟩
      · exact absurd (happ.linked.lt_of_hasEdge hedge).1 (Nat.lt_irrefl _)
      · have hlast := hs.path a last x z₀ u hlt hx hz₀ hu hzu ht
        exact .tail (hlast.mono fun _ _ => happ.hasEdge_mono) hedge
  · exact absurd hlast (hnobody a last)

/-- A new vertex is placed. -/
theorem append (hs : s.Placement) (hl : s.Listed) (h : s.Coherent) {e : Element} {d : Dag}
    {u : StreamId} {sch : Scheduler} (hu : e.Unused) (hd : s.dag.append e = .ok d)
    (ha : (Scheduler.assign s.dag.vertices.length).run { s.toScheduler with dag := d } =
      (.ok u, sch)) (queue : IssueQueue) (due : List VertexId) :
    Placement { s with toScheduler := sch, queue := queue, due := due } := by
  obtain ⟨happ, hassigned⟩ := h.assigned hu hd ha
  obtain ⟨pool, hfound, hpool⟩ := hassigned.pool
  have hplaced := Scheduler.placed_of_assign (s := { s.toScheduler with dag := d }) h.faults
    happ.element?_new hs.unlimited h.slots_nextStream ha
  have hpath : ∀ {a b}, d.Path a b → sch.dag.Path a b := fun hp => by
    rwa [hassigned.dag, Dag.Path, Dag.hasEdge_congr (Dag.edges_modifyElement _ _ _)]
  constructor
  case unlimited => exact (congrArg _ hpool).trans (hfound.maxStreams.trans hs.unlimited)
  case path =>
    intro a b x y r hab hx hy hxr hyr ht
    rcases happ.bound_cases (hassigned.dag ▸ hx) with ⟨rfl, -⟩ | ⟨x₀, hx₀, hturn⟩
    · -- nobody comes after the new vertex
      rcases happ.bound_cases (hassigned.dag ▸ hy) with ⟨rfl, -⟩ | ⟨y₀, hy₀, -⟩
      · exact absurd hab (Nat.lt_irrefl _)
      · exact absurd hab (Nat.lt_asymm (Dag.lt_of_element? hy₀))
    · have hopen := hturn.isTerminal ht
      have hstream := hturn.stream ▸ hxr
      rcases happ.bound_cases (hassigned.dag ▸ hy) with ⟨rfl, hyu⟩ | ⟨y₀, hy₀, hturn'⟩
      · -- the later one is the new vertex
        obtain rfl : u = r := Option.some.inj (hyu.symm.trans hyr)
        exact hpath (hs.path_new hl happ hplaced hx₀ hopen hstream)
      · exact hpath ((hs.path a b x₀ y₀ r hab hx₀ hy₀ hstream (hturn'.stream ▸ hyr) hopen).mono
          fun _ _ => happ.hasEdge_mono)

/-- A vertex for which no stream could be had is on none. -/
theorem refuse (hs : s.Placement) {e : Element} {d : Dag} (hu : e.Unused)
    (happ : s.dag.Appended e d) {cause : FailureCause}
    (hdag : t.dag = d.modifyElement s.dag.vertices.length fun e => e.fail cause)
    (hmax : t.pool.maxStreams = s.pool.maxStreams) : t.Placement := by
  refine ⟨hmax.trans hs.unlimited, fun a b x y r hab hx hy hxr hyr ht => ?_⟩
  obtain ⟨x₀, hx₀, hturn⟩ := happ.unbound hu (hdag ▸ hx) hxr
  obtain ⟨y₀, hy₀, hturn'⟩ := happ.unbound hu (hdag ▸ hy) hyr
  rw [hdag]
  exact (hs.path a b x₀ y₀ r hab hx₀ hy₀ (hturn.stream ▸ hxr) (hturn'.stream ▸ hyr)
    (hturn.isTerminal ht)).mono fun _ _ huv => happ.hasEdge_mono huv

end Placement

variable {P : Rules} {s t : Stage}

/-- **Every move keeps the placement.** -/
theorem Coherent.placement (h : s.Coherent) (hl : s.Listed) (hs : s.Placement) (hm : Move P s t) :
    t.Placement := by
  cases hm with
  | advance | skip | drain => exact hs.turns (.of_eq rfl) rfl rfl
  | adjust ha => exact hs.turns (.of_eq ha.dag) (congrArg _ ha.dag) (congrArg _ ha.pool)
  | finish hv hr => exact hs.ended hv (.finish hr) rfl rfl
  | crash hv hr => exact hs.fail hv (Element.isTerminal_of_running hr) rfl rfl
  | cascade _ _ hv hx => exact hs.fail hv (Element.isTerminal_of_unstarted hx) rfl rfl
  | shun _ hv hx => exact hs.fail hv hx rfl rfl
  | reject _ _ hv hx => exact hs.fail hv hx rfl rfl
  | issue _ hd hv hx =>
      exact hs.turns (.modifyElement hv (.start (h.state_of_due hd hv hx) _)) rfl rfl
  | enlist hu _ hd ha => exact hs.append hl h hu hd ha _ _
  | refuse hu _ hd ha =>
      obtain ⟨happ, hlimited⟩ := h.limited hu hd ha
      exact hs.refuse hu happ (by rw [hlimited.dag]) hlimited.maxStreams
  | cleanup hr hd hq hc =>
      rw [Scheduler.run_cleanup h.faults h.owned.slots h.owned.events] at hc
      obtain ⟨-, rfl⟩ := Prod.mk.inj hc
      refine ⟨hs.unlimited, fun u _ x _ _ _ hx _ _ _ ht => ?_⟩
      simp [h.terminal_of_rest hd hq hr hx] at ht

end Stage

end LaunchGraph
