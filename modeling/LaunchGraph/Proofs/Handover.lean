import LaunchGraph.Proofs.Coherence

/-!
# Handing over a vertex

When the turn of a vertex comes, the context makes its stream wait for the parents that are running
on other streams, launches it and, if the launch is accepted, records its completion.  A vertex
that is over by then, or has a failed parent, is passed over.  `Context.handover` lists the calls
to the device that belong to this; they are read off the state the context is in.

What is waited for is exactly the events of those parents (`Stage.Coherent.waits_eq_awaited`): a
parent of a vertex that is due has been handed over before it, so if it is not over it is running.
-/

namespace LaunchGraph

/-- The events of the parents of `v` that are running on another stream than `t`, in the order of
the edges. -/
def Dag.awaited (d : Dag) (v : VertexId) (t : StreamId) : List EventId :=
  (d.parentVertices v).filterMap fun p =>
    (d.element? p).bind fun x =>
      if x.state = .running ∧ x.stream ≠ some t then x.event else none

namespace Context

/-- The calls by which vertex `v` is handed to the device when its turn comes. -/
def handover (c : Context) (v : VertexId) : List Call :=
  match c.dag.element? v with
  | none => []
  | some el =>
      match el.stream with
      | none => []
      | some t =>
          if el.isTerminal || (c.dag.parentVertices v).any c.dag.isFailed then []
          else
            (c.dag.awaited v t).map (Call.waitEvent t) ++ .issue el.label t ::
              if c.device.machine.Refuses el then []
              else [.createEvent, .recordEvent c.device.machine.nextEvent t]

/-- Some vertices, each with the context in which its turn comes, if the first turn comes in
context `c`. -/
def turnsFrom (c : Context) : List VertexId → List (VertexId × Context)
  | [] => []
  | v :: rest => (v, c) :: turnsFrom ((issueVertex v).run c).2 rest

/-- The calls that belong to some turns. -/
def handovers (turns : List (VertexId × Context)) : List Call :=
  turns.flatMap fun turn => turn.2.handover turn.1

theorem handovers_cons (v : VertexId) (c : Context) (turns : List (VertexId × Context)) :
    handovers ((v, c) :: turns) = c.handover v ++ handovers turns :=
  List.flatMap_cons

theorem handovers_append (turns more : List (VertexId × Context)) :
    handovers (turns ++ more) = handovers turns ++ handovers more :=
  List.flatMap_append

theorem map_fst_turnsFrom (c : Context) (vs : List VertexId) :
    (c.turnsFrom vs).map Prod.fst = vs := by
  induction vs generalizing c with
  | nil => rfl
  | cons v rest ih => rw [turnsFrom, List.map_cons, ih]

/-- A vertex that is over is passed over. -/
theorem handover_of_terminal {c : Context} {v : VertexId} {el : Element}
    (hv : c.dag.element? v = some el) (ht : el.isTerminal = true) : c.handover v = [] := by
  simp only [handover, hv, ht, Bool.true_or, if_true]
  cases el.stream <;> rfl

/-- A vertex with a failed parent is passed over. -/
theorem handover_of_failed {c : Context} {u v : VertexId} (hu : c.dag.isFailed u = true)
    (huv : u ∈ c.dag.parentVertices v) : c.handover v = [] := by
  have hany : (c.dag.parentVertices v).any c.dag.isFailed = true :=
    List.any_eq_true.mpr ⟨u, huv, hu⟩
  unfold handover
  rw [hany]
  split
  · rfl
  · split
    · rfl
    · simp

theorem handover_of_stream {c : Context} {v : VertexId} {el : Element} {t : StreamId}
    (hv : c.dag.element? v = some el) (ht : el.isTerminal = false) (hs : el.stream = some t)
    (hp : ∀ u ∈ c.dag.parentVertices v, c.dag.isFailed u = false) :
    c.handover v = (c.dag.awaited v t).map (Call.waitEvent t) ++ .issue el.label t ::
      if c.device.machine.Refuses el then []
      else [.createEvent, .recordEvent c.device.machine.nextEvent t] := by
  have hany : (c.dag.parentVertices v).any c.dag.isFailed = false :=
    List.any_eq_false.mpr fun u hu => by simp [hp u hu]
  simp only [handover, hv, hs, ht, hany, Bool.or_self, Bool.false_eq_true, if_false]

end Context

/-- Where parents that are not over are running, their events are waited for. -/
theorem Scheduler.waitsFor_eq {d : Dag} {v : VertexId} {t : StreamId} {ps : List VertexId}
    {waits : List EventId}
    (hrunning : ∀ p ∈ ps, ∀ x, d.element? p = some x → x.isTerminal = false → x.state = .running)
    (hw : waitsFor d v t ps = .ok waits) :
    (∀ p ∈ ps, d.isFailed p = false) ∧
      waits = ps.filterMap fun p => (d.element? p).bind fun x =>
        if x.state = .running ∧ x.stream ≠ some t then x.event else none := by
  induction ps generalizing waits with
  | nil =>
      obtain rfl : [] = waits := Except.ok.inj hw
      exact ⟨by simp, rfl⟩
  | cons p rest ih =>
      have hrest : ∀ p ∈ rest, ∀ x, d.element? p = some x → x.isTerminal = false →
          x.state = .running := fun p hp => hrunning p (List.mem_cons_of_mem _ hp)
      rw [waitsFor] at hw
      cases hx : d.element? p with
      | none =>
          rw [hx] at hw
          obtain ⟨hfailed, rfl⟩ := ih hrest hw
          refine ⟨?_, by simp [hx]⟩
          simpa [Dag.isFailed, hx] using hfailed
      | some x =>
          simp only [hx] at hw
          by_cases hf : x.isFailed = true
          · simp [hf] at hw
          rw [if_neg hf] at hw
          have hnotfailed : d.isFailed p = false := by simpa [Dag.isFailed, hx] using hf
          by_cases hover : (x.isTerminal || x.stream == some t) = true
          · -- over, or on the same stream: not waited for
            rw [if_pos hover] at hw
            obtain ⟨hfailed, rfl⟩ := ih hrest hw
            refine ⟨by simpa [hnotfailed] using hfailed, ?_⟩
            have hskip : ¬ (x.state = .running ∧ x.stream ≠ some t) := by
              rintro ⟨hr, hs⟩
              simp [Element.isTerminal_of_running hr, hs] at hover
            rw [List.filterMap_cons_none (by simp [hx, hskip])]
          · rw [if_neg hover] at hw
            simp only [Bool.or_eq_true, beq_iff_eq, not_or, Bool.not_eq_true] at hover
            have hr := hrunning p List.mem_cons_self x hx hover.1
            cases he : x.event with
            | none => simp [he] at hw
            | some e =>
                simp only [he] at hw
                cases hmore : waitsFor d v t rest with
                | error error => simp [hmore] at hw
                | ok more =>
                    simp only [hmore, Except.ok.injEq] at hw
                    obtain ⟨hfailed, rfl⟩ := ih hrest hmore
                    refine ⟨by simpa [hnotfailed] using hfailed, ?_⟩
                    rw [List.filterMap_cons_some (b := e) (by simp [hx, hr, hover.2, he]), hw]

namespace Stage

variable {s : Stage}

/-- **What a vertex that is due waits for**: the events of its parents that are running on other
streams, and none of its parents has failed. -/
theorem Coherent.waits_eq_awaited (h : s.Coherent) {v : VertexId} {rest : List VertexId}
    {t : StreamId} {waits : List EventId} (hd : s.due = v :: rest)
    (hw : Scheduler.waitsFor s.dag v t (s.dag.parentVertices v) = .ok waits) :
    (∀ u ∈ s.dag.parentVertices v, s.dag.isFailed u = false) ∧ waits = s.dag.awaited v t := by
  refine Scheduler.waitsFor_eq (fun p hp x hx ht => ?_) hw
  have hlt := h.linked.lt_of_hasEdge (h.linked.mem_parentVertices.mp hp)
  exact Element.running_of_started (h.started_of_lt hd hlt.1 hx) ht

/-- The calls of a vertex that the device refuses. -/
theorem Coherent.handover_rejected (h : s.Coherent) {v : VertexId} {rest : List VertexId}
    {el : Element} {t : StreamId} {waits : List EventId} (hd : s.due = v :: rest)
    (hv : s.dag.element? v = some el) (ht : el.isTerminal = false) (hs : el.stream = some t)
    (hw : Scheduler.waitsFor s.dag v t (s.dag.parentVertices v) = .ok waits)
    (hr : s.machine.Refuses el) : launchCalls t waits el = s.toContext.handover v := by
  obtain ⟨hp, rfl⟩ := h.waits_eq_awaited hd hw
  rw [Context.handover_of_stream hv ht hs hp, if_pos hr, launchCalls]

/-- The calls of a vertex that the device accepts. -/
theorem Coherent.handover_issued (h : s.Coherent) {v : VertexId} {rest : List VertexId}
    {el : Element} {t : StreamId} {waits : List EventId} (hd : s.due = v :: rest)
    (hv : s.dag.element? v = some el) (ht : el.isTerminal = false) (hs : el.stream = some t)
    (hw : Scheduler.waitsFor s.dag v t (s.dag.parentVertices v) = .ok waits)
    (hr : ¬ s.machine.Refuses el) :
    launchCalls t waits el ++ [.createEvent, .recordEvent s.machine.nextEvent t] =
      s.toContext.handover v := by
  obtain ⟨hp, rfl⟩ := h.waits_eq_awaited hd hw
  rw [Context.handover_of_stream hv ht hs hp, if_neg hr, launchCalls, List.append_assoc]
  rfl

end Stage

end LaunchGraph
