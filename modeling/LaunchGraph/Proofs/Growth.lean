import LaunchGraph.Proofs.Coherence

/-!
# Stages — what no move undoes

Vertices stay, with their work and their arguments; what is over stays as it is; a vertex gets all
its parents when it is appended (`Dag.Grows`).  The history of the device only grows.  The
settings of the device are changed by disturbances only, and moves free no buffers
(`Stage.Undisturbed`).
-/

namespace LaunchGraph

/-- What an element keeps for its whole life, and what it keeps once it is over. -/
structure Element.Continues (el el' : Element) : Prop where
  work : el'.work = el.work
  arguments : el'.arguments = el.arguments
  state : el.isTerminal = true → el'.state = el.state

namespace Element.Continues

theorem refl (el : Element) : el.Continues el := ⟨rfl, rfl, fun _ => rfl⟩

theorem trans {a b c : Element} (h : a.Continues b) (h' : b.Continues c) : a.Continues c where
  work := h'.work.trans h.work
  arguments := h'.arguments.trans h.arguments
  state ht := by
    have hb : b.isTerminal = true := by
      rw [Element.isTerminal, h.state ht]
      exact ht
    exact (h'.state hb).trans (h.state ht)

/-- The work and the arguments of an element that is not over stay, whatever becomes of it. -/
theorem of_not_terminal {el el' : Element} (ht : el.isTerminal = false)
    (hw : el'.work = el.work) (ha : el'.arguments = el.arguments) : el.Continues el' :=
  ⟨hw, ha, fun h => by simp [ht] at h⟩

end Element.Continues

namespace Dag

/-- The later graph has everything that the earlier one had, and no new edges between old
vertices. -/
structure Grows (d d' : Dag) : Prop where
  length : d.vertices.length ≤ d'.vertices.length
  policy : d'.policy = d.policy
  element : ∀ v el, d.element? v = some el → ∃ el', d'.element? v = some el' ∧ el.Continues el'
  edge : ∀ u v, v < d.vertices.length → (d'.HasEdge u v ↔ d.HasEdge u v)

namespace Grows

theorem refl (d : Dag) : d.Grows d :=
  ⟨Nat.le_refl _, rfl, fun _ el h => ⟨el, h, .refl el⟩, fun _ _ _ => .rfl⟩

theorem trans {a b c : Dag} (h : a.Grows b) (h' : b.Grows c) : a.Grows c where
  length := Nat.le_trans h.length h'.length
  policy := h'.policy.trans h.policy
  element v el hv := by
    obtain ⟨el', hv', hc⟩ := h.element v el hv
    obtain ⟨el'', hv'', hc'⟩ := h'.element v el' hv'
    exact ⟨el'', hv'', hc.trans hc'⟩
  edge u v hv := (h'.edge u v (Nat.lt_of_lt_of_le hv h.length)).trans (h.edge u v hv)

theorem modifyElement {d : Dag} {v : VertexId} {el : Element} (hv : d.element? v = some el)
    {g : Element → Element} (hg : el.Continues (g el)) : d.Grows (d.modifyElement v g) where
  length := by simp
  policy := by simp
  element w x hx := by
    rcases element?_modifyElement_of_some hv hx g with ⟨-, rfl, hx'⟩ | ⟨-, hx'⟩
    · exact ⟨g x, hx', hg⟩
    · exact ⟨x, hx', .refl x⟩
  edge u w _ := by rw [hasEdge_congr (d := d) (by simp)]

theorem append {d d' : Dag} {e : Element} (h : d.Appended e d') : d.Grows d' where
  length := by rw [h.length]; exact Nat.le_succ _
  policy := h.policy
  element v el hv := by
    obtain ⟨active, hv'⟩ := h.element?_of_old hv
    exact ⟨_, hv', rfl, rfl, fun _ => rfl⟩
  edge u v hv := h.hasEdge_old (Nat.ne_of_lt hv)

/-- What is not over now was not over before. -/
theorem not_terminal {d d' : Dag} (h : d.Grows d') {v : VertexId}
    (hv : d'.isTerminal v = false) : d.isTerminal v = false := by
  cases hel : d.element? v with
  | none => simp [isTerminal, hel]
  | some el =>
      obtain ⟨el', hel', hcontinues⟩ := h.element v el hel
      by_contra ht
      have hterminal : el.isTerminal = true := by simpa [isTerminal, hel] using ht
      have hterminal' : el'.isTerminal = true := by
        rw [Element.isTerminal, hcontinues.state hterminal]
        exact hterminal
      simp [isTerminal, hel', hterminal'] at hv

theorem path_mono {d d' : Dag} (h : d.Grows d') (hl : d.Linked) {u v : VertexId}
    (p : d.Path u v) : d'.Path u v :=
  p.mono fun a b hab => (h.edge a b (hl.lt_of_hasEdge hab).2).mpr hab

end Grows

end Dag

namespace Stage

/-- The settings of the device are the same, and no buffer was freed. -/
structure Undisturbed (s t : Stage) : Prop where
  rejected : t.machine.rejected = s.machine.rejected
  failing : t.machine.failing = s.machine.failing
  streamLimit : t.machine.streamLimit = s.machine.streamLimit
  buffers : ∀ b ∈ s.machine.buffers, b ∈ t.machine.buffers

theorem Undisturbed.of_eq {s t : Stage} (h₁ : t.machine.rejected = s.machine.rejected)
    (h₂ : t.machine.failing = s.machine.failing)
    (h₃ : t.machine.streamLimit = s.machine.streamLimit)
    (h₄ : t.machine.buffers = s.machine.buffers) : Undisturbed s t :=
  ⟨h₁, h₂, h₃, fun b hb => by rw [h₄]; exact hb⟩

theorem Undisturbed.trans {s t u : Stage} (h : Undisturbed s t) (h' : Undisturbed t u) :
    Undisturbed s u :=
  ⟨h'.rejected.trans h.rejected, h'.failing.trans h.failing, h'.streamLimit.trans h.streamLimit,
    fun b hb => h'.buffers b (h.buffers b hb)⟩

/-- What the device accepts it still accepts when its settings are the same. -/
theorem Undisturbed.not_refuses {s t : Stage} (h : Undisturbed s t) {e : Element}
    (hr : ¬ s.machine.Refuses e) : ¬ t.machine.Refuses e := by
  rintro (hlabel | hmissing)
  · exact hr (.inl (h.rejected ▸ hlabel))
  · obtain ⟨b, hb⟩ := Option.isSome_iff_exists.mp hmissing
    refine hr (.inr (List.find?_isSome.mpr ⟨b, List.mem_of_find?_eq_some hb, ?_⟩))
    have hgone := List.find?_some hb
    simp only [Bool.not_eq_true', List.contains_eq_mem, decide_eq_false_iff_not] at hgone ⊢
    exact fun hmem => hgone (h.buffers b hmem)

/-- The graph grows, the history grows, and only what was not over is handed to the device. -/
structure Grows (s t : Stage) : Prop where
  dag : s.dag.Grows t.dag
  history : ∃ l, t.machine.history = s.machine.history ++ l
  tickets : ∀ k ∈ t.tickets, k ∈ s.tickets ∨ s.dag.isTerminal k.vertex = false

theorem Grows.refl (s : Stage) : s.Grows s :=
  ⟨.refl _, ⟨[], by simp⟩, fun _ hk => .inl hk⟩

theorem Grows.trans {s t u : Stage} (h : s.Grows t) (h' : t.Grows u) : s.Grows u := by
  refine ⟨h.dag.trans h'.dag, ?_, fun k hk => ?_⟩
  · obtain ⟨l, hl⟩ := h.history
    obtain ⟨l', hl'⟩ := h'.history
    exact ⟨l ++ l', by rw [hl', hl, List.append_assoc]⟩
  · rcases h'.tickets k hk with hk | hk
    · exact h.tickets k hk
    · exact .inr (h.dag.not_terminal hk)

/-- The graph changes, and nothing is handed to the device or run by it. -/
theorem Grows.of_dag {s t : Stage} (hd : s.dag.Grows t.dag)
    (hh : t.machine.history = s.machine.history) (hk : t.tickets = s.tickets) : s.Grows t :=
  ⟨hd, ⟨[], by simpa using hh⟩, fun k hmem => .inl (hk ▸ hmem)⟩

/-- A new vertex comes in and is bound or fails. -/
theorem grows_append {d d' : Dag} {e : Element} (h : d.Appended e d') (hu : e.Unused)
    {g : Element → Element} (hw : ∀ x, (g x).work = x.work)
    (ha : ∀ x, (g x).arguments = x.arguments) :
    d.Grows (d'.modifyElement d.vertices.length g) := by
  refine (Dag.Grows.append h).trans (.modifyElement h.element?_new ?_)
  exact .of_not_terminal (by simp [Element.isTerminal, hu.state, Lifecycle.isTerminal]) (hw _) (ha _)

theorem Coherent.grows {P : Rules} {s t : Stage} (h : s.Coherent)
    (hm : Move P s t) : s.Grows t := by
  have hfail : ∀ {v : VertexId} {el : Element} (cause : FailureCause),
      s.dag.element? v = some el → el.isTerminal = false →
      s.dag.Grows (s.dag.modifyElement v fun e => e.fail cause) :=
    fun _ hv ht => .modifyElement hv (.of_not_terminal ht rfl rfl)
  cases hm with
  | advance ha =>
      obtain ⟨op, rest, p, f, -, -, rfl⟩ := Machine.advance_cases ha
      exact ⟨.refl _, ⟨_, rfl⟩, fun _ hk => .inl hk⟩
  | adjust ha => exact .of_dag (ha.dag ▸ .refl _) ha.work.history ha.tickets
  | finish hv hr _ _ _ =>
      refine .of_dag (.modifyElement (g := Element.finish) hv ?_) rfl rfl
      exact .of_not_terminal (Element.isTerminal_of_running hr) rfl rfl
  | crash hv hr _ _ _ => exact .of_dag (hfail _ hv (Element.isTerminal_of_running hr)) rfl rfl
  | cascade _ _ hv hs => exact .of_dag (hfail _ hv (Element.isTerminal_of_unstarted hs)) rfl rfl
  | skip _ _ _ => exact .of_dag (.refl _) rfl rfl
  | shun _ hv ht _ _ => exact .of_dag (hfail _ hv ht) rfl rfl
  | reject _ _ hv ht _ _ _ => exact .of_dag (hfail _ hv ht) rfl rfl
  | @issue v _ _ _ _ _ _ hv ht _ _ _ =>
      refine ⟨.modifyElement (g := fun e => e.start s.machine.nextEvent) hv ?_, ⟨[], ?_⟩, ?_⟩
      · exact .of_not_terminal ht rfl rfl
      · exact (List.append_nil _).symm
      · intro k hk
        rcases List.mem_append.mp hk with hk | hk
        · exact .inl hk
        · rw [List.mem_singleton.mp hk]
          exact .inr (by simp [Dag.isTerminal, hv, ht])
  | @enlist e d t' sch hu _ hd ha =>
      obtain ⟨happ, hs'⟩ := h.assigned hu hd ha
      have hdag : s.dag.Grows sch.dag := by
        rw [hs'.dag]
        exact grows_append happ hu (g := fun e => e.bind t') (fun _ => rfl) fun _ => rfl
      refine .of_dag hdag ?_ rfl
      rcases hs'.machine with ⟨hm, -⟩ | ⟨hm, -⟩ <;> simp [Stage.machine, hm, Machine.addStream]
  | refuse hu _ hd ha =>
      obtain ⟨happ, hs'⟩ := h.limited hu hd ha
      refine .of_dag ?_ (congrArg Machine.history hs'.machine) rfl
      simp only [hs'.dag]
      exact grows_append happ hu (g := fun e => e.fail _) (fun _ => rfl) fun _ => rfl
  | drain => exact .of_dag (.refl _) rfl rfl
  | cleanup _ _ _ hc =>
      rw [Scheduler.run_cleanup h.faults h.owned.slots h.owned.events] at hc
      obtain ⟨-, rfl⟩ := Prod.mk.inj hc
      exact .of_dag (.refl _) rfl rfl

theorem Coherent.grows_steps {P : Rules} {s t : Stage} (h : s.Coherent)
    (hm : Steps P s t) : s.Grows t := by
  induction hm with
  | refl => exact .refl s
  | tail hm hstep ih =>
      refine ih.trans (hstep.elim (h.steps hm).grows fun hd => ?_)
      exact .of_dag (hd.dag ▸ .refl _) hd.work.history hd.tickets

/-- Where no element is admitted, there are no new vertices. -/
theorem Coherent.length_closed {s t : Stage} (h : s.Coherent) (hm : Moves .closed s t) :
    t.dag.vertices.length = s.dag.vertices.length := by
  induction hm with
  | refl => rfl
  | tail hm hstep ih =>
      refine Eq.trans ?_ ih
      cases hstep with
      | adjust ha => rw [ha.dag]
      | enlist _ hP => exact hP.elim
      | refuse _ hP => exact hP.elim
      | cleanup _ _ _ hc =>
          have ht := h.moves hm
          rw [Scheduler.run_cleanup ht.faults ht.owned.slots ht.owned.events] at hc
          obtain ⟨-, rfl⟩ := Prod.mk.inj hc
          rfl
      | advance | skip | drain => rfl
      | finish | crash | cascade | shun | reject | issue => exact Dag.length_modifyElement _ _ _

/-! ### Without disturbances -/

/-- The settings of the device stay as they are under a move. -/
theorem Coherent.undisturbed {P : Rules} {s t : Stage} (h : s.Coherent)
    (hm : Move P s t) : Undisturbed s t := by
  cases hm with
  | advance ha =>
      obtain ⟨op, rest, p, f, -, -, rfl⟩ := Machine.advance_cases ha
      exact .of_eq rfl rfl rfl rfl
  | adjust ha => exact ⟨ha.rejected, ha.failing, ha.streamLimit, ha.buffers⟩
  | enlist hu _ hd ha =>
      obtain ⟨-, hs'⟩ := h.assigned hu hd ha
      rcases hs'.machine with ⟨hm, -⟩ | ⟨hm, -⟩ <;>
        exact .of_eq (by simp [Stage.machine, hm, Machine.addStream])
          (by simp [Stage.machine, hm, Machine.addStream])
          (by simp [Stage.machine, hm, Machine.addStream])
          (by simp [Stage.machine, hm, Machine.addStream])
  | refuse hu _ hd ha =>
      obtain ⟨-, hs'⟩ := h.limited hu hd ha
      exact .of_eq (by simp [Stage.machine, hs'.machine]) (by simp [Stage.machine, hs'.machine])
        (by simp [Stage.machine, hs'.machine]) (by simp [Stage.machine, hs'.machine])
  | cleanup _ _ _ hc =>
      rw [Scheduler.run_cleanup h.faults h.owned.slots h.owned.events] at hc
      obtain ⟨-, rfl⟩ := Prod.mk.inj hc
      exact .of_eq rfl rfl rfl rfl
  | _ => exact .of_eq rfl rfl rfl rfl

theorem Coherent.undisturbed_moves {P : Rules} {s t : Stage} (h : s.Coherent)
    (hm : Moves P s t) : Undisturbed s t := by
  induction hm with
  | refl => exact .of_eq rfl rfl rfl rfl
  | tail hm hstep ih => exact ih.trans ((h.moves hm).undisturbed hstep)

end Stage

end LaunchGraph
