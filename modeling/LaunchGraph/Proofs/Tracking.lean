import LaunchGraph.Proofs.Runs

/-!
# Tracking

Between two commands every vertex is accounted for in exactly one place: it waits in the issue
queue, it is under way and among the running ones, or it is over and among neither as something
that is still to be done (`Standing`, `Context.Tracked`).  Both lists are in the order of the
vertices, and what waits comes after what is under way.

So the parents of a vertex whose turn it is have been handed to the device before it, and the
only thing that can keep its stream from waiting for them is that one of them has failed
(`Stage.Coherent.synchronizeParents`).
-/

namespace LaunchGraph

/-- What has become of a vertex. -/
inductive Standing where
  /-- It is bound to a stream and held back. -/
  | waiting
  /-- It is on the device. -/
  | underway
  /-- It has finished or failed. -/
  | ended
deriving DecidableEq, Repr

/-- The standing that goes with a state. -/
def Lifecycle.standing? : Lifecycle → Option Standing
  | .created => none
  | .scheduled => some .waiting
  | .running => some .underway
  | .finished | .failed => some .ended

namespace Context

/-- The lists of the context and the element of vertex `v` agree on what has become of it. -/
def Stands (c : Context) (v : VertexId) : Standing → Prop
  | .waiting => ∃ el, c.dag.element? v = some el ∧ el.state = .scheduled ∧
      (∃ t, el.stream = some t ∧ c.pool.slots.contains t = true) ∧ el.event = none ∧
      c.queue.pending.count v = 1
  | .underway => ∃ el, c.dag.element? v = some el ∧ el.state = .running ∧
      (∃ e, el.event = some e ∧ c.pool.events.contains e = true) ∧ c.running.count v = 1
  | .ended => ∃ el, c.dag.element? v = some el ∧ (el.state = .finished ∨ el.state = .failed) ∧
      v ∉ c.running

/-- Every vertex is accounted for, and the lists are in order. -/
structure Tracked (c : Context) : Prop where
  standing : ∀ v < c.dag.vertices.length, ∃! k, c.Stands v k
  running_sorted : c.running.Pairwise (· < ·)
  pending_sorted : c.queue.pending.Pairwise (· < ·)
  not_created : ∀ v, c.dag.state? v ≠ some .created
  pending_state : ∀ v ∈ c.queue.pending,
    c.dag.state? v = some .scheduled ∨ c.dag.state? v = some .failed
  running_state : ∀ v ∈ c.running, c.dag.state? v = some .running
  running_lt : ∀ u v, c.dag.state? u = some .running → c.dag.state? v = some .scheduled → u < v

/-- The state of a vertex decides its standing. -/
theorem Stands.standing? {c : Context} {v : VertexId} {k : Standing} (h : c.Stands v k) :
    (c.dag.state? v).bind Lifecycle.standing? = some k := by
  cases k with
  | waiting | underway =>
      obtain ⟨el, hel, hs, -⟩ := h
      simp [Dag.state?_of_element? hel, hs, Lifecycle.standing?]
  | ended =>
      obtain ⟨el, hel, hs, -⟩ := h
      rcases hs with hs | hs <;> simp [Dag.state?_of_element? hel, hs, Lifecycle.standing?]

end Context

namespace Stage

variable {s : Stage}

namespace Coherent

/-- A vertex that is held back waits for its turn. -/
theorem stands_waiting (h : s.Coherent) (hd : s.due = []) {v : VertexId} {el : Element}
    (hv : s.dag.element? v = some el) (hs : el.state = .scheduled) :
    s.toContext.Stands v .waiting := by
  have hunstarted : el.isStarted = false := by simp [Element.isStarted, hs, Lifecycle.isStarted]
  have hheld : s.held = s.queue.pending := by simp [held, hd]
  obtain ⟨t, ht, hlive⟩ := h.owned.bound v el hv (Element.isTerminal_of_unstarted hunstarted)
  refine ⟨el, hv, hs, ⟨t, ht, (h.owned.slots t).trans hlive⟩,
    h.timeline.event_of_unstarted hv hunstarted, ?_⟩
  have hmem := h.agenda.held_of_unstarted v _ (Dag.state?_of_element? hv) hunstarted
  have hsorted := h.agenda.held_sorted
  rw [hheld] at hmem hsorted
  exact List.count_eq_one_of_mem (hsorted.imp Nat.ne_of_lt) hmem

/-- A vertex on the device is among the running ones. -/
theorem stands_underway (h : s.Coherent) {v : VertexId} {el : Element}
    (hv : s.dag.element? v = some el) (hr : el.state = .running) :
    s.toContext.Stands v .underway := by
  obtain ⟨e, he, hc⟩ := h.timeline.event_of_running v el hv hr
  refine ⟨el, hv, hr, ⟨e, he, (h.owned.events e).trans hc⟩, ?_⟩
  exact List.count_eq_one_of_mem (h.agenda.running_sorted.imp Nat.ne_of_lt)
    ((h.mem_running hv).mpr hr)

/-- A vertex that is over is not among the running ones. -/
theorem stands_ended (h : s.Coherent) {v : VertexId} {el : Element}
    (hv : s.dag.element? v = some el) (hs : el.state = .finished ∨ el.state = .failed) :
    s.toContext.Stands v .ended := by
  refine ⟨el, hv, hs, fun hmem => ?_⟩
  have hr := (h.mem_running hv).mp hmem
  simp [hr] at hs

/-- What has not been issued is scheduled: no vertex is left without a stream. -/
theorem not_created (h : s.Coherent) (v : VertexId) : s.dag.state? v ≠ some .created := by
  intro hv
  have hmem := h.agenda.held_of_unstarted v _ hv rfl
  rcases h.agenda.held_state v hmem with hs | hs <;> simp [hs] at hv

/-- **Where nothing is due, every vertex is accounted for.** -/
theorem tracked (h : s.Coherent) (hd : s.due = []) : s.toContext.Tracked where
  standing v hv := by
    obtain ⟨el, hel⟩ := Dag.exists_element? hv
    have hexists : ∃ k, s.toContext.Stands v k := by
      cases hs : el.state with
      | created =>
          exact absurd ((Dag.state?_of_element? hel).trans (congrArg some hs)) (h.not_created v)
      | scheduled => exact ⟨.waiting, h.stands_waiting hd hel hs⟩
      | running => exact ⟨.underway, h.stands_underway hel hs⟩
      | finished => exact ⟨.ended, h.stands_ended hel (.inl hs)⟩
      | failed => exact ⟨.ended, h.stands_ended hel (.inr hs)⟩
    obtain ⟨k, hk⟩ := hexists
    exact ⟨k, hk, fun k' hk' => Option.some.inj (hk'.standing?.symm.trans hk.standing?)⟩
  running_sorted := h.agenda.running_sorted
  pending_sorted := by simpa [held, hd] using h.agenda.held_sorted
  not_created := h.not_created
  pending_state v hv := h.agenda.held_state v (by simp [held, hv])
  running_state v hv := (h.agenda.mem_running v).mp hv
  running_lt u v hu hv :=
    h.agenda.running_lt u ((h.agenda.mem_running u).mpr hu) v
      (h.agenda.held_of_unstarted v _ hv rfl)

/-- **The stream of a vertex whose turn it is can wait for its parents**, unless one of them has
failed. -/
theorem synchronizeParents (h : s.Coherent) {v : VertexId} {rest : List VertexId} {el : Element}
    (hd : s.due = v :: rest) (hv : s.dag.element? v = some el) (ht : el.isTerminal = false) :
    (∃ n, ((Scheduler.synchronizeParents v).run s.toScheduler).1 = .ok n) ∨
      ∃ u, ((Scheduler.synchronizeParents v).run s.toScheduler).1 =
        .error (.error (.parentFailed v u)) ∧ s.dag.isFailed u = true ∧ s.dag.HasEdge u v := by
  obtain ⟨t, hstream, hlive⟩ := h.owned.bound v el hv ht
  cases hw : Scheduler.waitsFor s.dag v t (s.dag.parentVertices v) with
  | ok waits =>
      rw [Scheduler.run_synchronizeParents h.faults hv hstream hlive hw]
      exact .inl ⟨_, rfl⟩
  | error error =>
      obtain ⟨u, rfl, hu, huv⟩ := h.parent_of_error hd hw
      rw [Scheduler.run_synchronizeParents_error hv hstream hw]
      exact .inr ⟨u, rfl, hu, huv⟩

end Coherent

/-- The policy of the issue queue never changes. -/
theorem Move.policy {P : Rules} {t : Stage} (hm : Move P s t) : t.queue.policy = s.queue.policy := by
  cases hm with
  | adjust ha => rw [ha.queue]
  | @enlist e =>
      dsimp only [IssueQueue.register]
      split
      · rfl
      · split <;> rfl
  | _ => rfl

theorem Coherent.policy {P : Rules} {t : Stage} (h : s.Coherent) (hm : Steps P s t) :
    t.queue.policy = s.queue.policy :=
  h.invariant (I := fun t => t.queue.policy = s.queue.policy)
    (fun _ _ _ hi hmove => hmove.policy.trans hi)
    (fun _ _ hi hdisturbance => (congrArg _ hdisturbance.queue).trans hi) rfl hm

end Stage

namespace Context

/-- **No vertex is lost or tracked twice.** Between the commands of a run every vertex has exactly
one standing and the lists are in order, under eager issue nothing is held back, and when a command
comes to hand over a vertex, its stream can be made to wait for its parents unless one of them has
failed: no event is missing and no vertex is without a stream. -/
theorem vertices_tracked (options : ContextOptions) (commands : List Command)
    (hc : ∀ command ∈ commands, command.Contained) :
    (ran options commands).Tracked ∧
      (options.issue = .eager → (ran options commands).queue.pending = []) ∧
      ∀ command, command.Contained → ∀ v c el, IssuePoint (ran options commands) command v c →
        c.dag.element? v = some el → el.isTerminal = false →
        (∃ n, ((Scheduler.synchronizeParents v).run c.toScheduler).1 = .ok n) ∨
          ∃ u, ((Scheduler.synchronizeParents v).run c.toScheduler).1 =
            .error (.error (.parentFailed v u)) ∧ c.dag.isFailed u = true ∧ c.dag.HasEdge u v := by
  obtain ⟨s, hs, hsteps, h, hdue⟩ :=
    Stage.exists_stage_ran (P := fun _ _ => True) options hc fun _ _ _ _ _ _ => trivial
  rw [← hs]
  refine ⟨h.tracked hdue, fun hissue => h.settled ?_, ?_⟩
  · exact ((Stage.Coherent.initial options).policy hsteps).trans hissue
  · intro command hcommand v c el hpoint hel hterminal
    obtain ⟨t, after, rfl, hmoves, hd, -⟩ := h.issuePoint (P := fun _ _ => True) hdue hcommand
      (fun _ _ _ _ => trivial) hpoint
    exact (h.moves hmoves).synchronizeParents hd hel hterminal

/-- Two launches that are under way, and one that depends on both and is held back. -/
def heldJoin : List Command := fork ++ [.flush, join]

/-- The one that is held back waits, and once it is flushed its stream can wait for the others. -/
theorem vertices_tracked_heldJoin :
    (ran { issue := .deferred } heldJoin).Stands 2 .waiting ∧
      (ran { issue := .deferred } heldJoin).running = [0, 1] ∧
      ∃ n, ((Scheduler.synchronizeParents 2).run
        ((prepare .flush).run (ran { issue := .deferred } heldJoin)).2.toScheduler).1 = .ok n := by
  have hc : ∀ command ∈ heldJoin, command.Contained := by
    simp only [heldJoin, fork, join, List.cons_append, List.nil_append, List.forall_mem_cons]
    exact ⟨rfl, rfl, (contained_new _ _).1, (contained_new _ _).1, trivial, (contained_new _ _).1,
      by simp⟩
  obtain ⟨htracked, -, hturn⟩ := vertices_tracked { issue := .deferred } heldJoin hc
  refine ⟨?_, by decide +kernel, ?_⟩
  · obtain ⟨k, hk, -⟩ := htracked.standing 2 (by decide +kernel)
    have hstate : (ran { issue := .deferred } heldJoin).dag.state? 2 = some .scheduled := by
      decide +kernel
    have hstanding := hk.standing?
    rw [hstate] at hstanding
    obtain rfl : Standing.waiting = k := Option.some.inj hstanding
    exact hk
  · have hready : readyVertices
        ((prepare .flush).run (ran { issue := .deferred } heldJoin)).1 = [2] := by decide +kernel
    have hfacts : (((prepare .flush).run (ran { issue := .deferred } heldJoin)).2.dag.element?
        2).map Element.isTerminal = some false := by decide +kernel
    have hparents : ((prepare .flush).run (ran { issue := .deferred } heldJoin)).2.dag.vertices.all
        (fun v => !v.element.isFailed) = true := by decide +kernel
    obtain ⟨el, hel, hterminal⟩ := Option.map_eq_some_iff.mp hfacts
    rcases hturn .flush trivial 2 _ el (issuePoint_of_ready hready) hel hterminal with
      hok | ⟨u, -, hu, -⟩
    · exact hok
    · -- no vertex has failed
      obtain ⟨x, hx, hfailed⟩ := Dag.state?_eq_some.mp (Dag.isFailed_iff.mp hu)
      obtain ⟨w, hw, rfl⟩ := Dag.element?_eq_some.mp hx
      have := List.all_eq_true.mp hparents w (List.mem_of_getElem? hw)
      simp [Element.isFailed, hfailed] at this

end Context

end LaunchGraph
