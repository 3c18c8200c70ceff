import LaunchGraph.Proofs.Coherence

/-!
# Observing the device

When the context looks at the device, it finishes the running vertices whose events are complete
and fails those whose events have failed, together with their descendants that have not been
issued.  Seen from a coherent stage this is a sequence of moves, after which every running vertex
has a pending event (`Coherent.observe`).

Parents finish before their children here, because the vertices are taken in the order of issue,
and a child whose event is complete has no parent that failed or is still under way
(`Coherent.parent_of_complete`).
-/

namespace LaunchGraph

namespace Stage

/-- A running vertex has an event of this status. -/
def EventIs (s : Stage) (v : VertexId) (st : EventStatus) : Prop :=
  ∃ el e, s.dag.element? v = some el ∧ el.state = .running ∧ el.event = some e ∧
    s.machine.events.get? e = some st

theorem EventIs.unique {s : Stage} {v : VertexId} {st st' : EventStatus} (h : s.EventIs v st)
    (h' : s.EventIs v st') : st = st' := by
  obtain ⟨el, e, hv, -, he, hst⟩ := h
  obtain ⟨el', e', hv', -, he', hst'⟩ := h'
  obtain rfl : el = el' := Option.some.inj (hv.symm.trans hv')
  obtain rfl : e = e' := Option.some.inj (he.symm.trans he')
  exact Option.some.inj (hst.symm.trans hst')

theorem Coherent.exists_eventIs {s : Stage} (h : s.Coherent) {v : VertexId} (hv : v ∈ s.running) :
    ∃ st, s.EventIs v st := by
  obtain ⟨el, e, hel, hr, he, hc⟩ := h.event_of_running hv
  obtain ⟨st, hst⟩ := Table.contains_iff.mp hc
  exact ⟨st, el, e, hel, hr, he, hst⟩

theorem Coherent.mem_running_of_eventIs {s : Stage} (h : s.Coherent) {v : VertexId}
    {st : EventStatus} (hv : s.EventIs v st) : v ∈ s.running := by
  obtain ⟨el, e, hel, hr, -⟩ := hv
  exact (h.mem_running hel).mpr hr

/-! ### Failure spreads -/

/-- Some vertices have failed that had not been issued; nothing else has changed. -/
structure Fades (s t : Stage) : Prop where
  device : t.device = s.device
  queue : t.queue = s.queue
  running : t.running = s.running
  due : t.due = s.due
  tickets : t.tickets = s.tickets
  edges : t.dag.edges = s.dag.edges
  length : t.dag.vertices.length = s.dag.vertices.length
  started : ∀ v el, s.dag.element? v = some el → el.isStarted = true →
    t.dag.element? v = some el

namespace Fades

theorem refl (s : Stage) : Fades s s := ⟨rfl, rfl, rfl, rfl, rfl, rfl, rfl, fun _ _ h _ => h⟩

theorem trans {s t u : Stage} (h : Fades s t) (h' : Fades t u) : Fades s u where
  device := h'.device.trans h.device
  queue := h'.queue.trans h.queue
  running := h'.running.trans h.running
  due := h'.due.trans h.due
  tickets := h'.tickets.trans h.tickets
  edges := h'.edges.trans h.edges
  length := h'.length.trans h.length
  started v el hv hs := h'.started v el (h.started v el hv hs) hs

theorem failed (s : Stage) {v : VertexId} {el : Element} (hv : s.dag.element? v = some el)
    (hs : el.isStarted = false) (cause : FailureCause) : Fades s (s.failed v el cause) := by
  refine ⟨rfl, rfl, rfl, rfl, rfl, by simp [Stage.failed], by simp [Stage.failed],
    fun w x hx hstarted => ?_⟩
  have hne : v ≠ w := by
    rintro rfl
    obtain rfl : el = x := Option.some.inj (hv.symm.trans hx)
    simp [hs] at hstarted
  simp [Stage.failed, hne, hx]

theorem isFailed {s t : Stage} (h : Fades s t) {v : VertexId} (hv : s.dag.isFailed v = true) :
    t.dag.isFailed v = true := by
  obtain ⟨el, hel, hf⟩ := Dag.state?_eq_some.mp (Dag.isFailed_iff.mp hv)
  have hs : el.isStarted = true := by simp [Element.isStarted, hf, Lifecycle.isStarted]
  exact Dag.isFailed_iff.mpr (Dag.state?_eq_some.mpr ⟨el, h.started v el hel hs, hf⟩)

theorem eventIs {s t : Stage} (h : Fades s t) {v : VertexId} {st : EventStatus}
    (hv : s.EventIs v st) : t.EventIs v st := by
  obtain ⟨el, e, hel, hr, he, hst⟩ := hv
  refine ⟨el, e, h.started v el hel ?_, hr, he, ?_⟩
  · simp [Element.isStarted, hr, Lifecycle.isStarted]
  · simpa only [Stage.machine, h.device] using hst

end Fades

variable {P : Rules}

/-- The stage with another scheduler. -/
def onScheduler (s : Stage) (sch : Scheduler) : Stage := { s with toScheduler := sch }

/-- Failing the children of a failed vertex that have not been issued. -/
theorem moves_failUnissued {s : Stage} (h : s.Coherent) {p : VertexId}
    (hp : s.dag.isFailed p = true) {children : List VertexId}
    (hchildren : ∀ c ∈ children, s.dag.HasEdge p c) :
    Moves P s (s.onScheduler (Scheduler.failUnissued p children s.toScheduler).2) ∧
      Fades s (s.onScheduler (Scheduler.failUnissued p children s.toScheduler).2) ∧
      ∀ v ∈ (Scheduler.failUnissued p children s.toScheduler).1,
        (Scheduler.failUnissued p children s.toScheduler).2.dag.isFailed v = true := by
  induction children generalizing s with
  | nil => exact ⟨.refl, .refl s, by simp [Scheduler.failUnissued]⟩
  | cons c rest ih =>
      have hedge := hchildren c List.mem_cons_self
      have hrest : ∀ c ∈ rest, s.dag.HasEdge p c :=
        fun c hc => hchildren c (List.mem_cons_of_mem _ hc)
      have hlt := h.linked.lt_of_hasEdge hedge
      obtain ⟨el, hel⟩ := Dag.exists_element? hlt.2
      cases hs : el.isStarted with
      | true =>
          have heq : Scheduler.failUnissued p (c :: rest) s.toScheduler =
              Scheduler.failUnissued p rest s.toScheduler := by
            simp [Scheduler.failUnissued, hel, hs]
          rw [heq]
          exact ih h hp hrest
      | false =>
          have hmove : Move P s (s.failed c el (.parent p)) := .cascade hp hedge hel hs
          have hfades := Fades.failed s hel hs (.parent p)
          obtain ⟨hmoves, hfades', hlist⟩ := ih (h.move hmove) (hfades.isFailed hp)
            (fun c hc => Dag.hasEdge_congr hfades.edges ▸ hrest c hc)
          have heq : Scheduler.failUnissued p (c :: rest) s.toScheduler =
              (c :: (Scheduler.failUnissued p rest (s.failed c el (.parent p)).toScheduler).1,
                (Scheduler.failUnissued p rest (s.failed c el (.parent p)).toScheduler).2) := by
            simp [Scheduler.failUnissued, hel, hs, Stage.failed]
          rw [heq]
          refine ⟨.head hmove hmoves, hfades.trans hfades', ?_⟩
          intro v hv
          rcases List.mem_cons.mp hv with rfl | hv
          · refine hfades'.isFailed (Dag.isFailed_iff.mpr ?_)
            simp [Stage.failed, Dag.state?, hel, Element.fail]
          · exact hlist v hv

theorem moves_failFrom {s : Stage} (h : s.Coherent) (bound : Nat) {queue : List VertexId}
    (hq : ∀ v ∈ queue, s.dag.isFailed v = true) :
    Moves P s (s.onScheduler (s.toScheduler.failFrom bound queue)) ∧
      Fades s (s.onScheduler (s.toScheduler.failFrom bound queue)) := by
  induction bound generalizing s queue with
  | zero => exact ⟨.refl, .refl s⟩
  | succ bound ih =>
      cases queue with
      | nil => exact ⟨.refl, .refl s⟩
      | cons p queue =>
          obtain ⟨hmoves, hfades, hlist⟩ := moves_failUnissued (P := P) h
            (hq p List.mem_cons_self)
            fun c (hc : c ∈ s.dag.childVertices p) => h.linked.mem_childVertices.mp hc
          have hq' : ∀ v ∈ queue ++ (Scheduler.failUnissued p (s.dag.childVertices p)
              s.toScheduler).1, (s.onScheduler (Scheduler.failUnissued p (s.dag.childVertices p)
                s.toScheduler).2).dag.isFailed v = true := by
            intro v hv
            rcases List.mem_append.mp hv with hv | hv
            · exact hfades.isFailed (hq v (List.mem_cons_of_mem _ hv))
            · exact hlist v hv
          obtain ⟨hmoves', hfades'⟩ := ih (h.moves hmoves) hq'
          exact ⟨hmoves.trans hmoves', hfades.trans hfades'⟩

/-- Failing the descendants of a failed vertex that have not been issued. -/
theorem moves_failDescendants {s : Stage} (h : s.Coherent) {v : VertexId}
    (hv : s.dag.isFailed v = true) :
    Moves P s (s.onScheduler (s.toScheduler.failDescendants v)) ∧
      Fades s (s.onScheduler (s.toScheduler.failDescendants v)) :=
  moves_failFrom h _ (by simpa using hv)

/-! ### Vertices come to their end -/

/-- Vertices have come to their end: those of `gone` among the running ones, and others that had
not been issued.  Nothing has been queued or run. -/
structure Notices (s : Stage) (gone : List VertexId) (t : Stage) : Prop where
  queue : t.queue = s.queue
  due : t.due = s.due
  tickets : t.tickets = s.tickets
  edges : t.dag.edges = s.dag.edges
  streams : t.machine.streams = s.machine.streams
  history : t.machine.history = s.machine.history
  mem_running : ∀ v, v ∈ t.running ↔ v ∈ s.running ∧ v ∉ gone
  eventIs : ∀ v st, v ∉ gone → s.EventIs v st → t.EventIs v st

namespace Notices

theorem refl (s : Stage) : Notices s [] s :=
  ⟨rfl, rfl, rfl, rfl, rfl, rfl, by simp, fun _ _ _ h => h⟩

theorem trans {s t u : Stage} {gone gone' : List VertexId} (h : Notices s gone t)
    (h' : Notices t gone' u) : Notices s (gone ++ gone') u where
  queue := h'.queue.trans h.queue
  due := h'.due.trans h.due
  tickets := h'.tickets.trans h.tickets
  edges := h'.edges.trans h.edges
  streams := h'.streams.trans h.streams
  history := h'.history.trans h.history
  mem_running v := by simp [h'.mem_running, h.mem_running, and_assoc]
  eventIs v st hv hs := by
    simp only [List.mem_append, not_or] at hv
    exact h'.eventIs v st hv.2 (h.eventIs v st hv.1 hs)

theorem fades {s t u : Stage} {gone : List VertexId} (h : Notices s gone t) (h' : Fades t u) :
    Notices s gone u where
  queue := h'.queue.trans h.queue
  due := h'.due.trans h.due
  tickets := h'.tickets.trans h.tickets
  edges := h'.edges.trans h.edges
  streams := by rw [Stage.machine, h'.device]; exact h.streams
  history := by rw [Stage.machine, h'.device]; exact h.history
  mem_running v := by rw [h'.running, h.mem_running]
  eventIs v st hv hs := h'.eventIs (h.eventIs v st hv hs)

end Notices

/-- A running vertex whose event is complete finishes. -/
theorem Coherent.notices_finished {s : Stage} (h : s.Coherent) {v : VertexId} {el : Element}
    {e : EventId} (hv : s.dag.element? v = some el) (he : el.event = some e) :
    Notices s [v] (s.finished v el e) := by
  refine ⟨rfl, rfl, rfl, by simp [finished], rfl, rfl, by simp [finished], ?_⟩
  rintro w st hw ⟨x, a, hx, hr, ha, hst⟩
  have hne : v ≠ w := fun heq => hw (by simp [heq])
  refine ⟨x, a, by simp [finished, hne, hx], hr, ha, ?_⟩
  have hevent : e ≠ a := by
    rintro rfl
    obtain ⟨t, -, hk⟩ := h.timeline.ticket v el e hv he
    obtain ⟨t', -, hk'⟩ := h.timeline.ticket w x e hx ha
    exact hne (congrArg Ticket.vertex (h.timeline.ledger.event_inj _ hk _ hk' rfl))
  simpa [finished, Stage.machine, hevent] using hst

/-- A vertex fails. -/
theorem notices_failed (s : Stage) (v : VertexId) (el : Element) (cause : FailureCause) :
    Notices s [v] { s.failed v el cause with running := s.running.filter (· ≠ v) } := by
  refine ⟨rfl, rfl, rfl, by simp [failed], rfl, rfl, by simp, ?_⟩
  rintro w st hw ⟨x, a, hx, hr, ha, hst⟩
  have hne : v ≠ w := fun heq => hw (by simp [heq])
  exact ⟨x, a, by simp [failed, hne, hx], hr, ha, hst⟩

/-- **A child whose event is complete has no parent that failed**: each of its parents is finished,
or running with an event that is complete as well. -/
theorem Coherent.parent_of_complete {s : Stage} (h : s.Coherent) {u v : VertexId}
    (huv : s.dag.HasEdge u v) (hv : s.EventIs v .complete) :
    s.dag.IsFinished u ∨ s.EventIs u .complete := by
  obtain ⟨el, e, hel, hr, he, hst⟩ := hv
  obtain ⟨t, -, hk⟩ := h.timeline.ticket v el e hel he
  -- the launch of the child has run without failing, so the parent has run without failing
  have hran := h.timeline.ledger.ran _ hk false (by simpa using hst)
  obtain ⟨before, after, hhist, b, a, job, rfl, hj, -⟩ := hran
  have hsplit : s.machine.history = b ++ ⟨t, .launch job, false⟩ ::
      (a ++ ⟨t, .record e, false⟩ :: after) := by simp [hhist]
  obtain ⟨k, hk', rfl, f, hranf, hf⟩ := h.timeline.ordered b _ _ hsplit job u v rfl hj huv
  obtain rfl : f = false := hf rfl
  have hranf : k.Ran false s.machine.history := by
    rw [hsplit]
    exact hranf.append _
  obtain ⟨x, hx, hstarted⟩ := h.timeline.started k hk'
  cases hstate : x.state with
  | created | scheduled =>
      simp [Element.isStarted, hstate, Lifecycle.isStarted] at hstarted
  | finished => exact .inl ⟨x, hx, hstate⟩
  | failed =>
      have := h.timeline.ledger.ran_unique hranf (h.timeline.ran_of_failed k hk' x hx hstate)
      cases this
  | running =>
      obtain ⟨st, y, e', hy, hr', he', hst'⟩ :=
        h.exists_eventIs ((h.mem_running hx).mpr hstate)
      obtain ⟨t', -, hk''⟩ := h.timeline.ticket _ y e' hy he'
      have heq := h.timeline.ledger.vertex_inj _ hk'' k hk' rfl
      have hevent : k.event = e' := congrArg Ticket.event heq.symm
      cases st with
      | complete => exact .inr ⟨y, e', hy, hr', he', hst'⟩
      | pending =>
          obtain ⟨r, hmem, hop⟩ := hranf.recorded
          exact absurd hop (h.timeline.ledger.not_recorded k hk' (hevent ▸ hst') r hmem)
      | failed =>
          have hrant := h.timeline.ledger.ran k hk' true (by simpa [hevent] using hst')
          cases h.timeline.ledger.ran_unique hranf hrant

/-! ### The context looks at the device -/

theorem run_element {s : Stage} {v : VertexId} {el : Element} (hv : s.dag.element? v = some el) :
    (Context.element v).run s.toContext = (.ok el, s.toContext) :=
  Context.run_onScheduler (Scheduler.run_element hv)

theorem Coherent.run_poll {s : Stage} (h : s.Coherent) {v : VertexId} {st : EventStatus}
    (hv : s.EventIs v st) : (Context.poll v).run s.toContext = (.ok (v, st), s.toContext) := by
  obtain ⟨el, e, hel, -, he, hst⟩ := hv
  have hstatus : (Context.onDevice (Device.eventStatus e)).run s.toContext =
      (.ok st, s.toContext) :=
    Context.run_onDevice (Device.run_eventStatus h.faults hst)
  rw [Context.poll, Action.run_bind_ok (run_element hel), he]
  exact Action.run_bind_ok hstatus

theorem Coherent.run_collect_poll {s : Stage} (h : s.Coherent) {l : List VertexId}
    (hl : ∀ v ∈ l, v ∈ s.running) :
    ∃ statuses, (Action.collect Context.poll l).run s.toContext = (.ok statuses, s.toContext) ∧
      statuses.map Prod.fst = l ∧ ∀ p ∈ statuses, s.EventIs p.1 p.2 := by
  induction l with
  | nil => exact ⟨[], rfl, rfl, by simp⟩
  | cons v rest ih =>
      obtain ⟨st, hst⟩ := h.exists_eventIs (hl v List.mem_cons_self)
      obtain ⟨statuses, hrun, hmap, hall⟩ := ih fun w hw => hl w (List.mem_cons_of_mem _ hw)
      refine ⟨(v, st) :: statuses, ?_, by simp [hmap], ?_⟩
      · rw [Action.run_collect_cons, Action.run_bind_ok (h.run_poll hst),
          Action.run_bind_ok hrun, Action.run_pure]
      · intro p hp
        rcases List.mem_cons.mp hp with rfl | hp
        · exact hst
        · exact hall p hp

theorem Coherent.run_finishVertex {s : Stage} (h : s.Coherent) {v : VertexId} {el : Element}
    {e : EventId} (hv : s.dag.element? v = some el) (hr : el.state = .running)
    (he : el.event = some e) (hc : s.machine.events.contains e = true) :
    (Context.finishVertex v).run s.toContext = (.ok (), (s.finished v el e).toContext) := by
  have ht := Element.isTerminal_of_running hr
  rw [Context.finishVertex, Action.run_bind_ok (run_element hv), Action.run_modify_bind, ht,
    if_neg (by simp), Action.run_modify_bind, he]
  have hrelease := Scheduler.run_releaseEvent (e := e) (s := { s.toScheduler with
    dag := s.dag.modifyElement v Element.finish
    pool := s.pool.releaseElement el v }) h.faults (by simpa using (h.owned.events e).trans hc)
  rw [StreamPool.events_releaseElement] at hrelease
  exact Context.run_onScheduler hrelease

/-- A vertex that runs on when others have come to their end has the event that it had. -/
theorem Coherent.eventIs_of_notices {s t : Stage} (h : s.Coherent) (ht : t.Coherent)
    {gone : List VertexId} (hn : Notices s gone t) {v : VertexId} {st : EventStatus}
    (hv : t.EventIs v st) : v ∉ gone ∧ s.EventIs v st := by
  obtain ⟨hmem, hgone⟩ := (hn.mem_running v).mp (ht.mem_running_of_eventIs hv)
  obtain ⟨st', hst'⟩ := h.exists_eventIs hmem
  obtain rfl := hv.unique (hn.eventIs v st' hgone hst')
  exact ⟨hgone, hst'⟩

/-- Finishing the running vertices whose events are complete, in the order of issue. -/
theorem Coherent.finishAll {s : Stage} (h : s.Coherent) {l : List VertexId}
    (hsorted : l.Pairwise (· < ·)) (hl : ∀ v, v ∈ l ↔ s.EventIs v .complete) :
    ∃ t : Stage, (Action.each Context.finishVertex l).run s.toContext = (.ok (), t.toContext) ∧
      Moves P s t ∧ Notices s l t := by
  induction l generalizing s with
  | nil => exact ⟨s, rfl, .refl, .refl s⟩
  | cons v rest ih =>
      obtain ⟨hlt, hrest⟩ := List.pairwise_cons.mp hsorted
      have hv := (hl v).mp List.mem_cons_self
      obtain ⟨el, e, hel, hr, he, hst⟩ := id hv
      -- a parent that is still running would come before `v`
      have hparents : ∀ u, s.dag.HasEdge u v → s.dag.IsFinished u := by
        intro u huv
        refine (h.parent_of_complete huv hv).resolve_right fun hu => ?_
        have huv' := (h.linked.lt_of_hasEdge huv).1
        rcases List.mem_cons.mp ((hl u).mpr hu) with rfl | hu
        · exact Nat.lt_irrefl _ huv'
        · exact Nat.lt_asymm huv' (hlt u hu)
      have hmove : Move P s (s.finished v el e) := .finish hel hr he hst hparents
      have hnotices := h.notices_finished hel he
      have hl' : ∀ w, w ∈ rest ↔ (s.finished v el e).EventIs w .complete := by
        intro w
        constructor
        · intro hw
          have hne : w ∉ [v] := by simpa using (Nat.ne_of_lt (hlt w hw)).symm
          exact hnotices.eventIs w _ hne ((hl w).mp (List.mem_cons_of_mem _ hw))
        · intro hw
          obtain ⟨hgone, hw⟩ := h.eventIs_of_notices (h.move hmove) hnotices hw
          exact (List.mem_cons.mp ((hl w).mpr hw)).resolve_left fun heq => hgone (by simp [heq])
      obtain ⟨t, hrun, hmoves, hnotices'⟩ := ih (h.move hmove) hrest hl'
      refine ⟨t, ?_, .head hmove hmoves, hnotices.trans hnotices'⟩
      rw [Action.run_each_cons,
        Action.run_bind_ok (h.run_finishVertex hel hr he (Table.contains_of_get? hst)), hrun]

/-- Failing a vertex that is not over, after a move that fails it. -/
theorem Coherent.failVertex {s : Stage} {v : VertexId} {el : Element} {cause : FailureCause}
    (hv : s.dag.element? v = some el) (ht : el.isTerminal = false)
    (hc : Coherent { s.failed v el cause with running := s.running.filter (· ≠ v) }) :
    ∃ t : Stage, s.toContext.failVertex v cause = t.toContext ∧
      Moves P { s.failed v el cause with running := s.running.filter (· ≠ v) } t ∧
      Fades { s.failed v el cause with running := s.running.filter (· ≠ v) } t := by
  have hfailed : (s.failed v el cause).dag.isFailed v = true := by
    simp [Dag.isFailed, failed, hv, Element.fail, Element.isFailed]
  obtain ⟨hmoves, hfades⟩ := moves_failDescendants (P := P) hc hfailed
  exact ⟨_, by simp [Context.failVertex, hv, ht, onScheduler, failed], hmoves, hfades⟩

/-- Failing the running vertices whose events have failed, in the order of issue. -/
theorem Coherent.failAll {s : Stage} (h : s.Coherent) {l : List VertexId}
    (hsorted : l.Pairwise (· < ·)) (hl : ∀ v ∈ l, s.EventIs v .failed)
    (hrest : ∀ v st, s.EventIs v st → st = .pending ∨ v ∈ l) :
    ∃ t : Stage, l.foldl (fun c v => c.failVertex v (Context.blame c.dag v)) s.toContext =
        t.toContext ∧ Moves P s t ∧ Notices s l t := by
  induction l generalizing s with
  | nil => exact ⟨s, rfl, .refl, .refl s⟩
  | cons v rest ih =>
      obtain ⟨hlt, hsorted'⟩ := List.pairwise_cons.mp hsorted
      obtain ⟨el, e, hel, hr, he, hst⟩ := hl v List.mem_cons_self
      have ht := Element.isTerminal_of_running hr
      -- what was issued before `v` and has come to its end has been noted
      have hearlier : ∀ u x a, u < v → s.dag.element? u = some x → x.state = .running →
          x.event = some a → s.machine.events.get? a = some .pending := by
        intro u x a huv hx hrun ha
        obtain ⟨st, y, b, hy, -, hb, hstatus⟩ := h.exists_eventIs ((h.mem_running hx).mpr hrun)
        obtain rfl : x = y := Option.some.inj (hx.symm.trans hy)
        obtain rfl : a = b := Option.some.inj (ha.symm.trans hb)
        rcases hrest u st ⟨x, a, hx, hrun, ha, hstatus⟩ with rfl | hu
        · exact hstatus
        · rcases List.mem_cons.mp hu with rfl | hu
          · exact absurd huv (Nat.lt_irrefl _)
          · exact absurd huv (Nat.lt_asymm (hlt u hu))
      have hmove : Move P s { s.failed v el (Context.blame s.dag v) with
          running := s.running.filter (· ≠ v) } := .crash hel hr he hst hearlier
      obtain ⟨t₁, heq, hmoves₁, hfades⟩ := Coherent.failVertex (P := P) hel ht (h.move hmove)
      have hnotices := (notices_failed s v el (Context.blame s.dag v)).fades hfades
      have h₁ := (h.move hmove).moves hmoves₁
      have hrest₁ : ∀ w st, t₁.EventIs w st → st = .pending ∨ w ∈ rest := by
        intro w st hw
        obtain ⟨hgone, hw⟩ := h.eventIs_of_notices h₁ hnotices hw
        exact (hrest w st hw).imp_right fun hmem =>
          (List.mem_cons.mp hmem).resolve_left fun heq => hgone (by simp [heq])
      obtain ⟨t, hfold, hmoves, hnotices'⟩ := ih h₁ hsorted'
        (fun w hw => hnotices.eventIs w _ (by simpa using (Nat.ne_of_lt (hlt w hw)).symm)
          (hl w (List.mem_cons_of_mem _ hw))) hrest₁
      refine ⟨t, ?_, (Relation.ReflTransGen.head hmove hmoves₁).trans hmoves,
        hnotices.trans hnotices'⟩
      rw [List.foldl_cons, heq, hfold]

/-- **Looking at the device** is a sequence of moves, after which every running vertex has a
pending event. -/
theorem Coherent.observe {s : Stage} (h : s.Coherent) :
    ∃ (t : Stage) (gone : List VertexId),
      Context.observe.run s.toContext = (.ok (), t.toContext) ∧ Moves P s t ∧
        Notices s gone t ∧ t.Observed := by
  obtain ⟨statuses, hpoll, hmap, hall⟩ := h.run_collect_poll (l := s.running) fun _ hv => hv
  have hsublist : ∀ q : VertexId × EventStatus → Bool,
      ((statuses.filter q).map Prod.fst).Pairwise (· < ·) := fun q => by
    have hsub : ((statuses.filter q).map Prod.fst).Sublist s.running :=
      hmap ▸ (List.filter_sublist (p := q) (l := statuses)).map Prod.fst
    exact h.agenda.running_sorted.sublist hsub
  -- the vertices found in a status are those that have it
  have hmem : ∀ st v, v ∈ (statuses.filter fun p => p.2 = st).map Prod.fst ↔ s.EventIs v st := by
    intro st v
    simp only [List.mem_map, List.mem_filter, decide_eq_true_eq]
    constructor
    · rintro ⟨p, ⟨hp, rfl⟩, rfl⟩
      exact hall p hp
    · intro hv
      have hrunning := h.mem_running_of_eventIs hv
      rw [← hmap] at hrunning
      obtain ⟨p, hp, rfl⟩ := List.mem_map.mp hrunning
      exact ⟨p, ⟨hp, (hall p hp).unique hv⟩, rfl⟩
  obtain ⟨t₁, hfinish, hmoves₁, hnotices₁⟩ := h.finishAll (P := P) (hsublist _) (hmem .complete)
  have hfailed : ∀ v ∈ (statuses.filter fun p => p.2 = .failed).map Prod.fst,
      t₁.EventIs v .failed := by
    intro v hv
    have hs := (hmem .failed v).mp hv
    refine hnotices₁.eventIs v _ (fun hc => ?_) hs
    cases ((hmem .complete v).mp hc).unique hs
  have hothers : ∀ v st, t₁.EventIs v st →
      st = .pending ∨ v ∈ (statuses.filter fun p => p.2 = .failed).map Prod.fst := by
    intro v st hv
    obtain ⟨hgone, hv⟩ := h.eventIs_of_notices (h.moves hmoves₁) hnotices₁ hv
    cases st with
    | pending => exact .inl rfl
    | failed => exact .inr ((hmem .failed v).mpr hv)
    | complete => exact absurd ((hmem .complete v).mpr hv) hgone
  obtain ⟨t₂, hfold, hmoves₂, hnotices₂⟩ :=
    (h.moves hmoves₁).failAll (P := P) (hsublist _) hfailed hothers
  have hnotices := hnotices₁.trans hnotices₂
  refine ⟨t₂, _, ?_, hmoves₁.trans hmoves₂, hnotices, ?_⟩
  · rw [Context.observe, Action.run_gets_bind, Action.run_bind_ok hpoll,
      Action.run_bind_ok hfinish, Action.run_modify, hfold]
  · intro v hv
    obtain ⟨hrunning, hover⟩ := (hnotices.mem_running v).mp hv
    obtain ⟨st, hst⟩ := h.exists_eventIs hrunning
    simp only [List.mem_append, not_or, hmem] at hover
    cases st with
    | complete => exact absurd hst hover.1
    | failed => exact absurd hst hover.2
    | pending =>
        obtain ⟨el, e, hel, -, he, hp⟩ := hnotices.eventIs v _ (by simpa [hmem] using hover) hst
        exact ⟨el, e, hel, he, hp⟩

/-- Looking again at a device that has not moved changes nothing. -/
theorem Coherent.run_observe {s : Stage} (h : s.Coherent) (ho : s.Observed) :
    Context.observe.run s.toContext = (.ok (), s.toContext) := by
  obtain ⟨statuses, hpoll, hmap, hall⟩ := h.run_collect_poll (l := s.running) fun _ hv => hv
  have hpending : ∀ p ∈ statuses, p.2 = .pending := by
    intro p hp
    obtain ⟨el, e, hel, he, hst⟩ := ho p.1 (hmap ▸ List.mem_map_of_mem hp)
    obtain ⟨x, -, hx, hr, -⟩ := hall p hp
    obtain rfl : el = x := Option.some.inj (hel.symm.trans hx)
    exact (hall p hp).unique ⟨el, e, hel, hr, he, hst⟩
  have hnone : ∀ st : EventStatus, st ≠ .pending → statuses.filter (fun p => p.2 = st) = [] := by
    intro st hst
    refine List.filter_eq_nil_iff.mpr fun p hp => ?_
    simpa [hpending p hp] using hst.symm
  rw [Context.observe, Action.run_gets_bind, Action.run_bind_ok hpoll, hnone .complete (by simp),
    hnone .failed (by simp)]
  rfl

end Stage

/-! ### What is left as it is -/

namespace Scheduler

theorem device_failUnissued (p : VertexId) (children : List VertexId) (s : Scheduler) :
    (failUnissued p children s).2.device = s.device := by
  fun_induction failUnissued p children s with
  | case1 => rfl
  | case2 _ _ _ _ _ _ ih => exact ih
  | case3 _ _ _ _ _ _ _ _ _ hrest ih =>
      rw [hrest] at ih
      exact ih
  | case4 _ _ _ _ ih => exact ih

theorem device_failFrom (s : Scheduler) (bound : Nat) (queue : List VertexId) :
    (s.failFrom bound queue).device = s.device := by
  induction bound generalizing s queue with
  | zero => rfl
  | succ bound ih =>
      cases queue with
      | nil => rfl
      | cons p rest => exact (ih _ _).trans (device_failUnissued p _ s)

variable {γ : Type} {f : Scheduler → γ}

/-- Finding an element changes nothing. -/
theorem keeps_element (v : VertexId) : (element v).Keeps f :=
  (Action.Keeps.gets _).seq fun _ => .require _ _

theorem keeps_boundStream (v : VertexId) : (boundStream v).Keeps f := by
  refine (keeps_element v).seq fun e => ?_
  cases e.stream with
  | some t => exact .done t
  | none => exact .fail _

theorem keeps_tryAll {calls : List (Action Device Unit)}
    (h : ∀ x ∈ calls, (onDevice x).Keeps f) : (tryAll calls).Keeps f := by
  induction calls with
  | nil => exact .done _
  | cons call rest ih =>
      refine (h call List.mem_cons_self).attempt.seq fun result => ?_
      refine (ih fun x hx => h x (List.mem_cons_of_mem _ hx)).seq fun later => ?_
      cases result <;> exact .done _

section Pool

variable (hpool : ∀ s pool, f { s with pool } = f s)
include hpool

theorem keeps_modifyPool (g : StreamPool → StreamPool) : (modifyPool g).Keeps f :=
  .modify fun s => hpool s _

/-- Where the pool does not matter, acquiring a stream is no more than making one. -/
theorem keeps_acquire (hcreate : (onDevice Device.createStream).Keeps f) : acquire.Keeps f := by
  refine (Action.Keeps.gets _).seq fun out => (keeps_modifyPool hpool _).seq fun _ => ?_
  cases out.1 with
  | some s => exact .done _
  | none =>
      cases out.2.isFull with
      | true =>
          cases out.2.nextShared? with
          | some s => exact (keeps_modifyPool hpool _).seq fun _ => .done _
          | none => exact .fail _
      | false => exact hcreate.seq fun _ => (keeps_modifyPool hpool _).seq fun _ => .done _

theorem keeps_releaseEvent {e : EventId} (hdestroy : (onDevice (Device.destroyEvent e)).Keeps f) :
    (releaseEvent e).Keeps f := by
  refine (Action.Keeps.gets _).seq fun b => ?_
  cases b with
  | true => exact (keeps_modifyPool hpool _).seq fun _ => hdestroy
  | false => exact .done _

theorem keeps_cleanup (hevent : ∀ e, (onDevice (Device.destroyEvent e)).Keeps f)
    (hstream : ∀ t, (onDevice (Device.destroyStream t)).Keeps f) : cleanup.Keeps f := by
  refine (Action.Keeps.gets _).seq fun pool => (keeps_modifyPool hpool _).seq fun _ => ?_
  refine Action.Keeps.seq (keeps_tryAll fun x hx => ?_) fun error? => ?_
  · rcases List.mem_append.mp hx with hx | hx <;> obtain ⟨_, -, rfl⟩ := List.mem_map.mp hx
    · exact hevent _
    · exact hstream _
  · cases error? with
    | none => exact .done _
    | some e => exact .fail e

end Pool

end Scheduler

namespace Context

theorem device_failVertex (c : Context) (v : VertexId) (cause : FailureCause) :
    (c.failVertex v cause).device = c.device := by
  unfold failVertex
  split
  · split
    · rfl
    · exact Scheduler.device_failFrom _ _ _
  · rfl

/-- The kernels, and the number that the next one gets. -/
def catalog (c : Context) : Table KernelId Kernel × KernelId := (c.kernels, c.nextKernel)

theorem catalog_failVertex (c : Context) (v : VertexId) (cause : FailureCause) :
    (c.failVertex v cause).catalog = c.catalog := by
  unfold failVertex
  split
  · split <;> rfl
  · rfl

variable {γ : Type} {f : Context → γ}

/-- What `f` tells of a context has to do with its device and its kernels only, and asking for
events and giving them back does not change it. -/
structure Detached (f : Context → γ) : Prop where
  ofEq : ∀ c c' : Context, c'.device = c.device → c'.catalog = c.catalog → f c' = f c
  eventStatus : ∀ e, (onDevice (Device.eventStatus e)).Keeps f
  releaseEvent : ∀ e, (onScheduler (Scheduler.releaseEvent e)).Keeps f

/-- Finding an element changes nothing. -/
theorem keeps_element (v : VertexId) : (element v).Keeps f := by
  intro c
  refine ⟨congrArg f ?_, fun _ _ => trivial⟩
  change { c with toScheduler := ((Scheduler.element v).run c.toScheduler).2 } = c
  have hfind := (Scheduler.keeps_element (f := id) v c.toScheduler).1
  rw [show ((Scheduler.element v).run c.toScheduler).2 = c.toScheduler from hfind]

namespace Detached

theorem failVertex (h : Detached f) (c : Context) (v : VertexId) (cause : FailureCause) :
    f (c.failVertex v cause) = f c :=
  h.ofEq _ _ (device_failVertex c v cause) (catalog_failVertex c v cause)

theorem poll (h : Detached f) (v : VertexId) : (Context.poll v).Keeps f := by
  refine (keeps_element v).seq fun e => ?_
  cases e.event with
  | some event => exact (h.eventStatus event).seq fun _ => .done _
  | none => exact .done _

theorem finishVertex (h : Detached f) (v : VertexId) : (Context.finishVertex v).Keeps f := by
  refine (keeps_element v).seq fun e => .modify_seq (fun _ => h.ofEq _ _ rfl rfl) <| ?_
  cases e.isTerminal with
  | true => exact .done _
  | false =>
      refine Action.Keeps.bind (Action.Keeps.modify fun _ => h.ofEq _ _ rfl rfl) fun _ _ => ?_
      cases e.event with
      | some event => exact h.releaseEvent event
      | none => exact .done _

/-- Observing keeps books, and changes nothing else. -/
theorem observe (h : Detached f) : Context.observe.Keeps f := by
  refine (Action.Keeps.gets _).seq fun running =>
    (Action.Keeps.collect h.poll running).seq fun statuses =>
    (Action.Keeps.each h.finishVertex _).seq fun _ => .modify fun c => ?_
  generalize (statuses.filter fun s => s.2 = .failed).map Prod.fst = failed
  induction failed generalizing c with
  | nil => rfl
  | cons v rest ih => exact (ih _).trans (h.failVertex c v _)

end Detached

end Context

end LaunchGraph
