import LaunchGraph.Proofs.Lives
import LaunchGraph.Proofs.Runs

/-!
# Barriers

Flushing, synchronizing, waiting for a vertex and accesses of the host are the places where a
caller meets the device.  Each of them completes: whatever was submitted before, and whatever has
been refused or has failed without being noticed yet, nothing that was held back is left over, a
stream that is waited for is drained, and a vertex that is waited for is over then
(`Stage.Coherent.awaitStream`).  What is reported of a vertex is what became of it
(`Context.Reports`).
-/

namespace LaunchGraph

namespace Context

/-- The result of waiting for vertex `v` says what has become of its element. -/
structure Reports (v : VertexId) (el : Element) (r : Except Halt Unit) : Prop where
  terminal : el.state = .finished ∨ el.state = .failed
  ok : r = .ok () ↔ el.state = .finished
  parent : ∀ p, r = .error (.error (.parentFailed v p)) ↔ el.failure = some (.parent p)
  launch : (∃ text, r = .error (.error (.launchFailed v text))) ↔
    el.state = .failed ∧ ∀ p, el.failure ≠ some (.parent p)

/-- The host's own access, vertex `v`, is over and nothing is held back; if it was carried out,
everything it depends on was. -/
structure Accessed (c : Context) (v : VertexId) : Prop where
  terminal : c.dag.isTerminal v = true
  pending : c.queue.pending = []
  ancestors : c.dag.IsFinished v → ∀ u, c.dag.Path u v → c.dag.IsFinished u

theorem reports_verdict (v : VertexId) {el : Element} (ht : el.isTerminal = true)
    (hc : el.CauseKnown) (c : Context) :
    Reports v el ((Action.ofExcept (verdict v el) : Action Context Unit).run c).1 := by
  unfold Element.CauseKnown at hc
  cases hs : el.state with
  | created | scheduled | running => simp [Element.isTerminal, hs, Lifecycle.isTerminal] at ht
  | finished =>
      have hf : el.failure = none := by simpa [hs] using hc
      have hv : verdict v el = .ok () := by simp only [verdict, hs]
      rw [hv, Action.run_ofExcept_ok]
      constructor <;> simp [hs, hf]
  | failed =>
      obtain ⟨cause, hf⟩ : ∃ cause, el.failure = some cause :=
        Option.isSome_iff_exists.mp (hc.mpr hs)
      cases cause with
      | parent p =>
          have hv : verdict v el = .error (.parentFailed v p) := by simp only [verdict, hs, hf]
          rw [hv, Action.run_ofExcept_error]
          constructor <;> simp [hs, hf]
      | launch reason =>
          have hv : verdict v el = .error (.launchFailed v (FailureCause.launch reason).text) := by
            simp only [verdict, hs, hf]
          rw [hv, Action.run_ofExcept_error]
          constructor <;> simp [hs, hf]

end Context

namespace Stage

variable {P : Rules} {s : Stage}

/-- **Draining the stream of a running vertex and looking at the device** succeeds, and the vertex
is over then. -/
theorem Coherent.awaitStream (h : s.Coherent) {v : VertexId} {el : Element} {t : StreamId}
    (hv : s.dag.element? v = some el) (hr : el.state = .running) (ht : el.stream = some t) :
    Leads P s (do Context.onDevice (Device.syncStream t); Context.observe) fun r u =>
      r = .ok () ∧ u.due = s.due ∧ u.queue = s.queue ∧
        ∃ el', u.dag.element? v = some el' ∧ el'.isTerminal = true := by
  obtain ⟨t', ht', hlive⟩ := h.owned.bound v el hv (Element.isTerminal_of_running hr)
  obtain rfl : t = t' := Option.some.inj (ht.symm.trans ht')
  obtain ⟨m, hrun, hadvances, hdrained⟩ := h.timeline.ledger.orderly.run_syncStream hlive
  have hmoves : Moves P s { s with device := s.device.after [.syncStream t] m } :=
    moves_after hadvances _
  have hs := h.moves hmoves
  obtain ⟨r, u, hobserve, hmoves', hr', gone, hnotices, ho⟩ := leads_observe (P := P) hs
  have hu := hs.moves hmoves'
  refine ⟨r, u, ?_, hmoves.trans hmoves', hr', hnotices.due, hnotices.queue, ?_⟩
  · exact (Action.run_bind_ok (Context.run_onDevice (Device.run_call h.faults hrun))).trans hobserve
  · -- its launch has been queued on the stream, before and after
    obtain ⟨e, he, -⟩ := h.timeline.event_of_running v el hv hr
    obtain ⟨t', ht', hk⟩ := h.timeline.ticket v el e hv he
    obtain rfl : t = t' := Option.some.inj (ht.symm.trans ht')
    have hk' : ⟨v, t, e⟩ ∈ u.tickets := hnotices.tickets ▸ hk
    obtain ⟨x, hx, hstarted⟩ := hu.timeline.started _ hk'
    refine ⟨x, hx, ?_⟩
    by_contra hterminal
    have hrunning := Element.running_of_started hstarted (Bool.eq_false_iff.mpr hterminal)
    obtain ⟨y, a, hy, ha, hpending⟩ := ho v ((hu.mem_running hx).mpr hrunning)
    obtain ⟨t', -, hka⟩ := hu.timeline.ticket v y a hy ha
    obtain ⟨rfl, rfl⟩ : t' = t ∧ a = e := by
      simpa using hu.timeline.ledger.vertex_inj _ hka _ hk' rfl
    obtain ⟨lane, hlane, hrecord⟩ := hu.timeline.ledger.record_of_pending _ hka hpending
    rw [hnotices.streams] at hlane
    simp [hdrained lane hlane] at hrecord

/-- **Waiting for a vertex** leaves it over, and gives the verdict on it. -/
theorem Coherent.wait {P : Stage → Element → Prop} (h : s.Coherent) (hd : s.due = [])
    {v : VertexId} (hv : v < s.dag.vertices.length) :
    Leads P s (Context.wait v) fun r t => ∃ el, t.dag.element? v = some el ∧
      el.isTerminal = true ∧
      r = ((Action.ofExcept (Context.verdict v el) : Action Context Unit).run t.toContext).1 := by
  have hverdict : ∀ {t : Stage} {el : Element}, t.dag.element? v = some el →
      el.isTerminal = true → Leads P t (do
        let e ← Context.element v
        Action.ofExcept (Context.verdict v e)) fun r t => ∃ el, t.dag.element? v = some el ∧
          el.isTerminal = true ∧ r =
            ((Action.ofExcept (Context.verdict v el) : Action Context Unit).run t.toContext).1 := by
    intro t el hel hterminal
    refine ⟨_, t, ?_, .refl, el, hel, hterminal, rfl⟩
    rw [Action.run_bind_ok (run_element hel)]
    cases Context.verdict v el <;> rfl
  refine (h.flush hd).bind ?_ (by rintro e t - ⟨hr, -⟩; cases hr)
  rintro _ t hmoves ⟨-, hdue, hpending⟩
  have ht := h.moves hmoves
  obtain ⟨el, hel⟩ := Dag.exists_element?
    (Nat.lt_of_lt_of_le hv (h.grows_steps hmoves.steps).dag.length)
  rw [Leads, Action.run_bind_ok (run_element hel)]
  cases hterminal : el.isTerminal with
  | true => exact hverdict hel hterminal
  | false =>
      -- nothing is held back after the flush, so a vertex that is not over is running
      have hr := Element.running_of_started (ht.started_of_rest hdue hpending hel) hterminal
      obtain ⟨stream, hstream, -⟩ := ht.owned.bound v el hel hterminal
      obtain ⟨r, u, hrun, hmoves', rfl, -, -, x, hx, hx'⟩ :=
        ht.awaitStream (P := P) hel hr hstream
      obtain ⟨r, w, hrun', hmoves'', hw⟩ := hverdict hx hx'
      refine ⟨r, w, ?_, hmoves'.trans hmoves'', hw⟩
      simp only [Bool.false_eq_true, if_false, hstream]
      rw [← bind_assoc, Action.run_bind_ok hrun, hrun']

/-- Element `e` has become the next vertex, and everything that was due has been issued. -/
structure TakesIn (s : Stage) (e : Element) (t : Stage) : Prop where
  due : t.due = []
  length : t.dag.vertices.length = s.dag.vertices.length + 1
  element : ∃ el, t.dag.element? s.dag.vertices.length = some el ∧ el.work = e.work ∧
    el.arguments = e.arguments

/-- An element that was taken in stays, as long as no other comes in. -/
theorem TakesIn.closed {e : Element} {t u : Stage} (htaken : TakesIn s e t) (ht : t.Coherent)
    (hclosed : Moves .closed t u) (hdue : u.due = t.due) : TakesIn s e u where
  due := hdue.trans htaken.due
  length := (ht.length_closed hclosed).trans htaken.length
  element := by
    obtain ⟨x, hx, hwork, harguments⟩ := htaken.element
    obtain ⟨y, hy, hcontinues⟩ := (ht.grows_steps hclosed.steps).dag.element _ _ hx
    exact ⟨y, hy, hcontinues.work.trans hwork, hcontinues.arguments.trans harguments⟩

theorem Coherent.accessed (h : s.Coherent) {v : VertexId} {el : Element}
    (hel : s.dag.element? v = some el) (hterminal : el.isTerminal = true)
    (hpending : s.queue.pending = []) : s.toContext.Accessed v where
  terminal := (Dag.isTerminal_eq hel).trans hterminal
  pending := hpending
  ancestors := fun hfinished _ hpath =>
    Dag.isFinished_of_path h.timeline.finished_of_child hpath hfinished

/-- **Registering an element** makes it the next vertex, unless no stream can be had for it.  If the
host waits for it, it is over then and nothing is held back. -/
theorem Coherent.register {P : Stage → Element → Prop} (h : s.Coherent) (hd : s.due = [])
    {e : Element} (hu : e.Unused) (hP : ∀ t, Moves .closed s t → P t e) :
    Leads P s (Context.register e) fun r t =>
      (r = .ok s.dag.vertices.length ∧ TakesIn s e t ∧
        (e.work.blocksHost = true → t.toContext.Accessed s.dag.vertices.length)) ∨
      ∃ n, r = .error (.error (.device (.outOfStreams n))) ∧ TurnsAway s e n t := by
  rw [Context.register_eq_enroll]
  refine (leads_observe h).of_closed.bind ?_ (by rintro e t - ⟨-, hr, -⟩; cases hr)
  rintro _ t hmoves ⟨hclosed, -, gone, hnotices, ho⟩
  have ht := h.moves hmoves
  have hlength := h.length_closed hclosed
  refine (ht.enroll ho hu (hP t hclosed)).bind ?_ ?_
  · rintro ⟨v, stream, ready⟩ u hmoves₁
      (⟨stream', ready', heq, hdue, -, ho', hqueue, hnew, hel⟩ | ⟨n, hr, -⟩)
    · obtain ⟨rfl, rfl, rfl⟩ : v = t.dag.vertices.length ∧ stream = stream' ∧ ready = ready' := by
        simpa using heq
      have hu' := ht.moves hmoves₁
      have hdue' : u.due = ready ++ [] := by rw [hdue, hnotices.due, hd]; simp
      refine (hu'.issueAll (fun _ => ho') hdue' fun _ _ _ _ _ _ => trivial).of_closed.bind ?_
        (by rintro e t - ⟨-, hr, -⟩; cases hr)
      rintro _ w hmoves₂ ⟨hclosed₂, -, hwdue, hwqueue, -⟩
      have hw := hu'.moves hmoves₂
      have hwlength : w.dag.vertices.length = s.dag.vertices.length + 1 := by
        rw [hu'.length_closed hclosed₂, hnew, hlength]
      rw [hlength] at hel hnew ⊢
      have htaken : TakesIn s e w := by
        obtain ⟨x, hx, hcontinues⟩ := (hu'.grows_steps hmoves₂.steps).dag.element _ _ hel
        exact ⟨hwdue, hwlength, x, hx, hcontinues.work, hcontinues.arguments⟩
      cases hb : e.work.blocksHost with
      | false => exact ⟨_, w, rfl, .refl, .inl ⟨rfl, htaken, by simp⟩⟩
      | true =>
          have hpending : w.queue.pending = [] := by
            rw [hwqueue, hqueue, hb]
            exact ht.settled.pending_register _
          obtain ⟨x, hx, hstream⟩ := hu'.stream_moves hmoves₂ hel
          rw [if_pos rfl, Leads, Action.run_bind_ok (run_element hx)]
          cases hterminal : x.isTerminal with
          | true =>
              exact ⟨_, w, rfl, .refl, .inl ⟨rfl, htaken,
                fun _ => hw.accessed hx hterminal hpending⟩⟩
          | false =>
              -- an access lets nothing be held back, so it has been issued itself
              have hr := Element.running_of_started (hw.started_of_rest hwdue hpending hx) hterminal
              obtain ⟨r, z, hrun, hmoves₃, hclosed₃, rfl, hzdue, hzqueue, y, hy, hy'⟩ :=
                (hw.awaitStream hx hr hstream).of_closed (P := P)
              refine ⟨_, z, ?_, hmoves₃, .inl ⟨rfl, htaken.closed hw hclosed₃ hzdue, fun _ => ?_⟩⟩
              · rw [if_neg (by simp), ← bind_assoc, Action.run_bind_ok hrun, Action.run_pure]
              · exact (hw.moves hmoves₃).accessed hy hy' (hzqueue ▸ hpending)
    · cases hr
  · rintro error u - (⟨stream', ready', heq, -⟩ | ⟨n, hr, haway⟩)
    · cases heq
    · refine .inr ⟨n, congrArg Except.error (Except.error.inj hr), ?_, ?_, ?_, ?_, ?_⟩
      · rw [← (h.undisturbed_moves hmoves).streamLimit]
        exact haway.limited
      · exact haway.due.trans hnotices.due
      · exact haway.queue.trans hnotices.queue
      · rw [haway.length, hlength]
      · rw [← hlength]
        exact haway.element

/-- **Registering an access of the host** ends where the access is over and nothing is held back,
unless no stream can be had for it. -/
theorem Coherent.register_access {P : Stage → Element → Prop} (h : s.Coherent) (hd : s.due = [])
    {e : Element} (hu : e.Unused) (hb : e.work.blocksHost = true) (hP : ∀ t, P t e) :
    Leads P s (Context.register e) fun r t =>
      (∃ v, r = .ok v ∧ s.dag.vertices.length ≤ v ∧ t.toContext.Accessed v) ∨
        ∃ n, r = .error (.error (.device (.outOfStreams n))) := by
  refine (h.register hd hu fun t _ => hP t).imp ?_
  rintro r t - (⟨hr, -, haccessed⟩ | ⟨n, hr, -⟩)
  · exact .inl ⟨_, hr, Nat.le_refl _, haccessed hb⟩
  · exact .inr ⟨n, hr⟩

end Stage

namespace Context

/-- **Barriers complete and report exactly.**  After any contained run, flushing, synchronizing and
asking for the state of a vertex or for activity succeed.  After synchronizing every vertex is
over, nothing is held back and nothing is running.  Waiting for a vertex leaves it over and reports
what became of it.  An access of the host, unless no stream can be had for it, is over when it has
been registered, and then nothing is held back, and all it depends on is finished if it is. -/
theorem barriers_complete (options : ContextOptions) (commands : List Command)
    (hc : ∀ command ∈ commands, command.Contained) :
    let c := ran options commands
    (∃ c', flush.run c = (.ok (), c') ∧ c'.queue.pending = []) ∧
    (∃ c', isActive.run c = (.ok !c'.running.isEmpty, c')) ∧
    (∀ v < c.dag.vertices.length, ∃ el c', (state v).run c = (.ok el.state, c') ∧
      c'.dag.element? v = some el) ∧
    (∃ c', synchronize.run c = (.ok (), c') ∧
      (∀ v el, c'.dag.element? v = some el → el.state = .finished ∨ el.state = .failed) ∧
      c'.queue.pending = [] ∧ c'.running = []) ∧
    (∀ v < c.dag.vertices.length, ∃ r el c', (wait v).run c = (r, c') ∧
      c'.dag.element? v = some el ∧ Reports v el r) ∧
    (∀ e : Element, e.Unused → e.work.blocksHost = true → ∃ r c', (register e).run c = (r, c') ∧
      ((∃ v, r = .ok v ∧ c.dag.vertices.length ≤ v ∧ c'.Accessed v) ∨
        ∃ n, r = .error (.error (.device (.outOfStreams n))))) ∧
    ∀ a write, ∃ r c', (accessArray a write).run c = (r, c') ∧
      ((∃ v, r = .ok v ∧ c.dag.vertices.length ≤ v ∧ c'.Accessed v) ∨
        ∃ n, r = .error (.error (.device (.outOfStreams n)))) := by
  intro c
  obtain ⟨s, hs, hsteps, h, hd⟩ := Stage.exists_stage_ran options (P := fun _ _ => True) hc
    fun _ _ _ _ _ _ => trivial
  have hsc : Stage.toContext s = c := hs
  rw [← hsc]
  refine ⟨?_, ?_, fun v hv => ?_, ?_, fun v hv => ?_, fun e hu hb => ?_, fun a write => ?_⟩
  · obtain ⟨r, t, hrun, -, rfl, -, hpending⟩ := h.flush (P := fun _ _ => True) hd
    exact ⟨_, hrun, hpending⟩
  · obtain ⟨r, t, hrun, -, rfl, -⟩ := Stage.leads_observe (P := { admits := fun _ _ => True }) h
    exact ⟨_, Action.run_bind_ok hrun⟩
  · obtain ⟨r, t, hrun, hmoves, rfl, -⟩ :=
      Stage.leads_observe (P := { admits := fun _ _ => True }) h
    obtain ⟨el, hel⟩ := Dag.exists_element?
      (Nat.lt_of_lt_of_le hv (h.grows_steps hmoves.steps).dag.length)
    refine ⟨el, _, ?_, hel⟩
    rw [state, Action.run_bind_ok hrun, Action.run_bind_ok (Stage.run_element hel),
      Action.run_pure]
  · obtain ⟨r, t, hrun, hmoves, rfl, hdue, hpending, hrunning⟩ :=
      h.synchronize (P := fun _ _ => True) hd
    refine ⟨_, hrun, fun v el hv => ?_, hpending, hrunning⟩
    have hterminal := (h.moves hmoves).terminal_of_rest hdue hpending hrunning hv
    cases hstate : el.state <;>
      simp [Element.isTerminal, hstate, Lifecycle.isTerminal] at hterminal ⊢
  · obtain ⟨r, t, hrun, hmoves, el, hel, hterminal, rfl⟩ := h.wait (P := fun _ _ => True) hd hv
    have hknown := Stage.causeKnown_steps (hsteps.trans hmoves.steps) hel
    exact ⟨_, el, _, hrun, hel, reports_verdict v hterminal hknown _⟩
  · obtain ⟨r, t, hrun, -, hr⟩ := h.register_access (P := fun _ _ => True) hd hu hb
      fun _ => trivial
    exact ⟨r, _, hrun, hr⟩
  · have hm : Stage.Move { admits := fun _ _ => True } s
        { s with arrays := s.arrays.insertNew a.buffer a } :=
      .adjust (Stage.adjusts_registry s _ _ _)
    obtain ⟨r, t, hrun, -, hr⟩ := (h.move hm).register_access (P := fun _ _ => True) hd
      (e := .ofAccess a.buffer a.type write) (Element.unused_new _ _) rfl fun _ => trivial
    exact ⟨r, _, hrun, hr⟩

/-- A launch that fails on the device and one that depends on it, both held back. -/
def heldFailure : List Command :=
  [.device (.allocate 4), .device (.failExecutions "bad"),
   .register (.new (.launch 1 "bad" {}) [.array .float 0 false]),
   .register (.new (.launch 2 "next" {}) [.array .float 0 false])]

/-- Waiting for the second one reports the failure of the first. -/
theorem barriers_complete_heldFailure :
    ∃ el c', (wait 1).run (ran { issue := .deferred } heldFailure) =
        (.error (.error (.parentFailed 1 0)), c') ∧
      c'.dag.element? 1 = some el ∧ el.failure = some (.parent 0) := by
  have hc : ∀ command ∈ heldFailure, command.Contained := by
    simp only [heldFailure, List.forall_mem_cons]
    exact ⟨rfl, rfl, (contained_new _ _).1, (contained_new _ _).1, by simp⟩
  obtain ⟨r, el, c', hrun, hel, hreports⟩ :=
    (barriers_complete { issue := .deferred } heldFailure hc).2.2.2.2.1 1 (by decide_cbv)
  have hr : ((wait 1).run (ran { issue := .deferred } heldFailure)).1 =
      .error (.error (.parentFailed 1 0)) := by decide_cbv
  rw [hrun] at hr
  obtain rfl : r = .error (.error (.parentFailed 1 0)) := hr
  exact ⟨el, c', hrun, hel, (hreports.parent 0).mp rfl⟩

end Context

end LaunchGraph
