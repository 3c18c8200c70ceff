import LaunchGraph.Proofs.Containment

/-!
# Blame — who is made answerable for a failure

A vertex that has failed names a cause: its own launch, or a parent of it.  A parent that is named
has failed; and where a vertex that was on the device names its own launch, all its parents have
finished (`Dag.Justified`).  Causes are given when a vertex gets no stream, when the device refuses
it, when a parent of it has failed before it is issued, and when its event is seen to have failed;
each time there is a justification, and none is lost later (`Stage.Coherent.allJustified`).

The last way is the one where order matters.  The launch of a vertex runs after the launches of its
parents have been recorded, and the context takes note of failures in the order of issue.  So when
it takes note of a vertex, it knows how each of the parents ended.

Since parents come first, following the causes ends, and it ends at a vertex that names its own
launch (`Dag.exists_culprit`).
-/

namespace LaunchGraph

namespace Dag

/-- The failure of vertex `v` is put down to vertex `p`. -/
def Blames (d : Dag) (v p : VertexId) : Prop :=
  ∃ el, d.element? v = some el ∧ el.failure = some (.parent p)

/-- Vertex `v` has failed, and that is put down to its own launch. -/
def BlamesItself (d : Dag) (v : VertexId) : Prop :=
  ∃ el reason, d.element? v = some el ∧ el.state = .failed ∧ el.failure = some (.launch reason)

/-- What justifies the cause that vertex `v`, with completion event `event`, names for its
failure. -/
inductive Justified (d : Dag) (v : VertexId) (event : Option EventId) : FailureCause → Prop where
  /-- It never was on the device. -/
  | unissued {reason : String} (he : event = none) : Justified d v event (.launch reason)
  /-- It was, and nothing went wrong with its parents. -/
  | alone {reason : String} (hp : ∀ u, d.HasEdge u v → d.IsFinished u) :
      Justified d v event (.launch reason)
  /-- The parent that it names has failed. -/
  | parent {u : VertexId} (huv : d.HasEdge u v) (hu : d.isFailed u = true) :
      Justified d v event (.parent u)

/-- The cause of every failure is justified. -/
def AllJustified (d : Dag) : Prop :=
  ∀ v el cause, d.element? v = some el → el.failure = some cause → d.Justified v el.event cause

/-- **Following the causes of a failure ends**, at a vertex that names its own launch: the vertex
itself or an ancestor of it. -/
theorem exists_culprit {d : Dag} (hl : d.Linked)
    (hknown : ∀ v el, d.element? v = some el → el.CauseKnown) (hj : d.AllJustified) {v : VertexId}
    (hv : d.isFailed v = true) :
    ∃ u, Relation.ReflTransGen d.Blames v u ∧ (u = v ∨ d.Path u v) ∧ d.BlamesItself u := by
  induction v using Nat.strongRecOn with
  | ind v ih =>
      obtain ⟨el, hel, hstate⟩ := state?_eq_some.mp (isFailed_iff.mp hv)
      obtain ⟨cause, hcause⟩ := Option.isSome_iff_exists.mp ((hknown v el hel).mpr hstate)
      cases cause with
      | launch reason => exact ⟨v, .refl, .inl rfl, el, reason, hel, hstate, hcause⟩
      | parent p =>
          cases hj v el _ hel hcause with
          | parent hedge hp =>
              obtain ⟨u, hchain, hu, hlaunch⟩ := ih p (hl.lt_of_hasEdge hedge).1 hp
              have hpath : d.Path u v := by
                rcases hu with rfl | hu
                · exact .single hedge
                · exact hu.tail hedge
              exact ⟨u, .head ⟨el, hel, hcause⟩ hchain, .inr hpath, hlaunch⟩

end Dag

namespace Stage

variable {P : Rules} {s t : Stage} {v : VertexId}

/-- When the event of a vertex has failed, and the graph has looked at everything before it, the
parents that are not to blame have finished. -/
theorem Coherent.justified_blame (h : s.Coherent) {el : Element} {e : EventId}
    (hv : s.dag.element? v = some el) (he : el.event = some e)
    (hc : s.machine.events.get? e = some .failed) (ho : s.ObservedBefore v) :
    s.dag.Justified v el.event (Context.blame s.dag v) := by
  unfold Context.blame
  split
  · next p hp =>
    exact .parent (h.linked.mem_parentVertices.mp (List.mem_of_find?_eq_some hp))
      (List.find?_some hp)
  · next hnone =>
    refine .alone fun u huv => ?_
    obtain ⟨r, -, hticket⟩ := h.timeline.ticket v el e hv he
    obtain ⟨job, hmem, hj⟩ := (h.timeline.ledger.ran _ hticket true (by simpa using hc)).launched
    -- the end of the parent was recorded before the launch ran
    obtain ⟨before, after, hh⟩ := List.append_of_mem hmem
    obtain ⟨k, hk, rfl, f, hran, -⟩ := h.timeline.ordered before _ after hh job u v rfl hj huv
    have hran : k.Ran f s.machine.history := hh ▸ hran.append _
    refine Dag.isFinished_of_terminal
      (h.isTerminal_of_ran ho hk (h.linked.lt_of_hasEdge huv).1 hran) ?_
    simpa using List.find?_eq_none.mp hnone _ (h.linked.mem_parentVertices.mpr huv)

/-- What justifies a cause remains, since a vertex gets no parents later. -/
theorem Coherent.justified (h : s.Coherent) (hm : Move P s t) (hlt : v < s.dag.vertices.length)
    {event : Option EventId} {cause : FailureCause} (hj : s.dag.Justified v event cause) :
    t.dag.Justified v event cause := by
  have hgrows := (h.grows hm).dag
  cases hj with
  | unissued he => exact .unissued he
  | alone hp =>
      refine .alone fun u huv => ?_
      obtain ⟨el, hel, hstate⟩ := hp u ((hgrows.edge u v hlt).mp huv)
      obtain ⟨active, hel'⟩ := h.element_of_terminal hm hel (Element.isTerminal_of_finished hstate)
      exact ⟨_, hel', hstate⟩
  | parent huv hu => exact .parent ((hgrows.edge _ v hlt).mpr huv) (h.isFailed hm hu)

/-- **How a vertex comes by the cause of its failure**: it had one, or it gets one now, and that is
justified. -/
theorem Coherent.failure_cases (h : s.Coherent) (hm : Move P s t) {el' : Element}
    {cause : FailureCause} (hv : t.dag.element? v = some el') (hf : el'.failure = some cause) :
    (∃ el, s.dag.element? v = some el ∧ el.failure = some cause) ∨
      t.dag.Justified v el'.event cause := by
  have hfail : ∀ {w el c}, s.dag.element? w = some el → s.dag.Justified w el.event c →
      (s.dag.modifyElement w fun e => e.fail c).element? v = some el' →
      (∃ el, s.dag.element? v = some el ∧ el.failure = some cause) ∨
        t.dag.Justified v el'.event cause := by
    intro w el c hw hjust hv
    rcases Dag.element?_modifyElement_inv hw hv with ⟨rfl, rfl⟩ | ⟨-, hv⟩
    · obtain rfl : c = cause := Option.some.inj hf
      exact .inr (h.justified hm (Dag.lt_of_element? hw) hjust)
    · exact .inl ⟨el', hv, hf⟩
  have hkept : ∀ {w g}, (s.dag.modifyElement w g).element? v = some el' →
      (∀ el, (g el).failure = el.failure) →
      ∃ el, s.dag.element? v = some el ∧ el.failure = some cause := by
    intro w g hv hg
    rcases Dag.element?_modifyElement_cases hv with ⟨rfl, old, hold, rfl⟩ | ⟨-, hv⟩
    · exact ⟨old, hold, (hg old).symm.trans hf⟩
    · exact ⟨el', hv, hf⟩
  cases hm with
  | advance ha => exact .inl ⟨el', hv, hf⟩
  | adjust ha => exact .inl ⟨el', ha.dag ▸ hv, hf⟩
  | finish => exact .inl (hkept hv fun _ => rfl)
  | crash hw _ he hc hp => exact hfail hw (h.justified_blame hw he hc hp) hv
  | cascade hu huw hw => exact hfail hw (.parent huw hu) hv
  | skip => exact .inl ⟨el', hv, hf⟩
  | shun _ hw _ hu huw => exact hfail hw (.parent huw hu) hv
  | reject _ hd hw ht =>
      exact hfail hw (.unissued (h.event_of_due hd hw ht)) hv
  | issue => exact .inl (hkept hv fun _ => rfl)
  | enlist hu _ hd ha =>
      obtain ⟨happ, hs'⟩ := h.assigned hu hd ha
      rw [hs'.dag] at hv
      rcases happ.element_cases hv with ⟨el, active, hel, rfl⟩ | ⟨-, rfl⟩
      · exact .inl ⟨el, hel, hf⟩
      · simp [Element.bind, hu.failure] at hf
  | refuse hu _ hd ha =>
      obtain ⟨happ, hs'⟩ := h.limited hu hd ha
      simp only [hs'.dag] at hv
      rcases happ.element_cases hv with ⟨el, active, hel, rfl⟩ | ⟨-, rfl⟩
      · exact .inl ⟨el, hel, hf⟩
      · obtain rfl := Option.some.inj hf
        exact .inr (.unissued hu.event)
  | drain => exact .inl ⟨el', hv, hf⟩
  | cleanup _ _ _ hc =>
      rw [Scheduler.run_cleanup h.faults h.owned.slots h.owned.events] at hc
      obtain ⟨-, rfl⟩ := Prod.mk.inj hc
      exact .inl ⟨el', hv, hf⟩

/-- **A move leaves the cause of every failure justified.** -/
theorem Coherent.allJustified (h : s.Coherent) (hm : Move P s t)
    (hknown : ∀ v el, s.dag.element? v = some el → el.CauseKnown) (hj : s.dag.AllJustified) :
    t.dag.AllJustified := by
  intro v el' cause hv hf
  rcases h.failure_cases hm hv hf with ⟨el, hel, hold⟩ | hnew
  · -- the vertex is over, so it has kept its event
    have hstate := (hknown v el hel).mp (by simp [hold])
    obtain ⟨active, hel'⟩ := h.element_of_terminal hm hel (Element.isTerminal_of_failed hstate)
    obtain rfl := Option.some.inj (hv.symm.trans hel')
    exact h.justified hm (Dag.lt_of_element? hel) (hj v el cause hel hold)
  · exact hnew

/-- **In every run, the cause of every failure is justified.** -/
theorem allJustified_steps {options : ContextOptions} (hm : Steps P (.initial options) s) :
    s.dag.AllJustified := by
  induction hm with
  | refl => simp [Dag.AllJustified, Stage.initial, Context.new, Dag.element?]
  | tail hm hstep ih =>
      rcases hstep with hmove | hdisturbance
      · exact ((Coherent.initial options).steps hm).allJustified hmove
          (fun _ _ => causeKnown_steps hm) ih
      · rwa [hdisturbance.dag]

end Stage

namespace Context

/-- **Failures are put down to who is answerable for them.**  After a contained run, a vertex names
a cause exactly if it has failed.  If it names another vertex, that is a parent of it, which comes
earlier and has failed; so following the causes ends, at the vertex itself or at an ancestor, which
has failed and names its own launch.  If it was on the device and names its own launch, all its
parents have finished: where a parent has failed, a parent is named. -/
theorem failures_justified (options : ContextOptions) (commands : List Command)
    (hc : ∀ x ∈ commands, x.Contained) (v : VertexId) (el : Element)
    (hv : (ran options commands).dag.element? v = some el) :
    (el.failure.isSome ↔ el.state = .failed) ∧
    (∀ p, el.failure = some (.parent p) →
      (ran options commands).dag.HasEdge p v ∧ (ran options commands).dag.isFailed p = true ∧
        p < v) ∧
    (el.state = .failed → ∃ u, Relation.ReflTransGen (ran options commands).dag.Blames v u ∧
      (u = v ∨ (ran options commands).dag.Path u v) ∧
      (ran options commands).dag.BlamesItself u) ∧
    (∀ reason, el.event.isSome → el.failure = some (.launch reason) →
      ∀ u, (ran options commands).dag.HasEdge u v → (ran options commands).dag.IsFinished u) ∧
    ∀ u, el.event.isSome → el.state = .failed → (ran options commands).dag.HasEdge u v →
      (ran options commands).dag.isFailed u = true → ∃ p, el.failure = some (.parent p) := by
  obtain ⟨s, hs, hsteps, h, -⟩ := Stage.exists_stage_ran (P := fun _ _ => True) options hc
    fun _ _ _ _ _ _ => trivial
  rw [← hs] at hv ⊢
  have hknown : ∀ v el, s.dag.element? v = some el → el.CauseKnown :=
    fun _ _ => Stage.causeKnown_steps hsteps
  have hj := Stage.allJustified_steps hsteps
  have hissued : ∀ reason, el.event.isSome → el.failure = some (.launch reason) →
      ∀ u, s.dag.HasEdge u v → s.dag.IsFinished u := by
    intro reason hevent hf
    cases hj v el _ hv hf with
    | unissued he => simp [he] at hevent
    | alone hp => exact hp
  refine ⟨hknown v el hv, fun p hf => ?_, fun hstate => ?_, hissued, ?_⟩
  · cases hj v el _ hv hf with
    | parent hedge hp => exact ⟨hedge, hp, (h.linked.lt_of_hasEdge hedge).1⟩
  · have hfailed := Dag.isFailed_iff.mpr (Dag.state?_eq_some.mpr ⟨el, hv, hstate⟩)
    exact Dag.exists_culprit h.linked hknown hj hfailed
  · intro u hevent hstate hedge hu
    obtain ⟨cause, hf⟩ := Option.isSome_iff_exists.mp ((hknown v el hv).mpr hstate)
    cases cause with
    | parent p => exact ⟨p, hf⟩
    | launch reason =>
        -- the parent would have finished
        obtain ⟨x, hx, hfinished⟩ := hissued reason hevent hf u hedge
        simp [Dag.isFailed_eq hx, Element.isFailed, hfinished] at hu

/-- A launch that is going to fail, and two that depend on it, one after the other. -/
def brokenChain : List Command :=
  [.device (.allocate 4), .device (.failExecutions "bad"),
   .register (.new (.launch 1 "bad" {}) [.array .float 0 false]),
   .register (.new (.launch 2 "next" {}) [.array .float 0 false]),
   .register (.new (.launch 3 "last" {}) [.array .float 0 false]), .synchronize]

/-- The last launch was on the device and has failed; that is put down to the first. -/
theorem failures_justified_brokenChain :
    ∃ el, (ran {} brokenChain).dag.element? 2 = some el ∧ el.event.isSome ∧
      el.failure = some (.parent 1) ∧ (ran {} brokenChain).dag.HasEdge 1 2 ∧
      (ran {} brokenChain).dag.isFailed 1 = true ∧
      ∃ u, Relation.ReflTransGen (ran {} brokenChain).dag.Blames 2 u ∧
        (u = 2 ∨ (ran {} brokenChain).dag.Path u 2) ∧
        (ran {} brokenChain).dag.BlamesItself u := by
  have hc : ∀ x ∈ brokenChain, x.Contained := by
    simp only [brokenChain, List.forall_mem_cons]
    exact ⟨rfl, rfl, (contained_new _ _).1, (contained_new _ _).1, (contained_new _ _).1, trivial,
      by simp⟩
  have hfacts : ((ran {} brokenChain).dag.element? 2).map
      (fun el => (el.state, el.event.isSome, el.failure)) =
        some (.failed, true, some (.parent 1)) := by decide +kernel
  obtain ⟨el, hel, heq⟩ := Option.map_eq_some_iff.mp hfacts
  simp only [Prod.mk.injEq] at heq
  obtain ⟨hstate, hevent, hf⟩ := heq
  obtain ⟨-, hparent, hculprit, -⟩ := failures_justified {} brokenChain hc 2 el hel
  obtain ⟨hedge, hfailed, -⟩ := hparent 1 hf
  exact ⟨el, hel, hevent, hf, hedge, hfailed, hculprit hstate⟩

end Context

end LaunchGraph
