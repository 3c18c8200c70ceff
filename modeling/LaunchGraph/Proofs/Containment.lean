import LaunchGraph.Proofs.Poison
import LaunchGraph.Proofs.Runs

/-!
# Containment — how far a failure goes

A vertex that has failed got no stream, or its launch was refused, or it was bound to fail when it
was handed to the device, or one of its ancestors has failed; or it was handed over behind a wait
that the launch of another vertex had left on its stream when it was refused (`Stage.Cause`).

The last case is the gap in the containment of failures: a stream is given to others while the
waits of a refused launch are queued on it, so the failure of a vertex can reach a vertex that does
not depend on it.
-/

namespace LaunchGraph

namespace Stage

/-- Why vertex `v` has failed. -/
inductive Cause (P : Rules) (d : Dag) (v : VertexId) : Prop where
  /-- The device was out of streams. -/
  | unplaced (h : d.Unplaced v)
  /-- The device refused its launch. -/
  | refused {t : StreamId} (hr : d.Refused v t) (h : P.Handed v fun s el => s.machine.Refuses el)
  /-- Its launch was bound to fail. -/
  | condemned (h : P.Handed v Condemns)
  /-- An ancestor of it has failed. -/
  | ancestor {u : VertexId} (hp : d.Path u v) (hu : d.isFailed u = true)
  /-- It was handed over behind a wait on a stream where an earlier vertex was refused, and an
  ancestor of that one has failed. -/
  | stray {t : StreamId} {r u : VertexId} (h : P.Handed v (BehindWait t)) (hlt : r < v)
      (hr : d.Refused r t) (hp : d.Path u r) (hu : d.isFailed u = true)

variable {P : Rules} {s t : Stage} {v : VertexId}

/-- A cause remains a cause. -/
theorem Cause.move (hcause : Cause P s.dag v) (h : s.Coherent) (hm : Move P s t) :
    Cause P t.dag v := by
  have he := h.extends hm
  cases hcause with
  | unplaced hu => exact .unplaced (h.unplaced hm hu)
  | refused hr hhanded => exact .refused (h.refused hm hr) hhanded
  | condemned hhanded => exact .condemned hhanded
  | ancestor hp hu => exact .ancestor (he.path hp) (h.isFailed hm hu)
  | stray hhanded hlt hr hp hu =>
      exact .stray hhanded hlt (h.refused hm hr) (he.path hp) (h.isFailed hm hu)

/-! ### From the device to the graph -/

/-- Every vertex before `v` that has not been seen to be over has a pending event. -/
def ObservedBefore (s : Stage) (v : VertexId) : Prop :=
  ∀ u x a, u < v → s.dag.element? u = some x → x.state = .running → x.event = some a →
    s.machine.events.get? a = some .pending

/-- A vertex whose end is recorded on the device is known to be over, as far as the graph has
looked. -/
theorem Coherent.isTerminal_of_ran (h : s.Coherent) (ho : s.ObservedBefore v) {k : Ticket}
    (hk : k ∈ s.tickets) (hlt : k.vertex < v) {f : Bool} (hran : k.Ran f s.machine.history) :
    s.dag.isTerminal k.vertex = true := by
  have hledger := h.timeline.ledger
  obtain ⟨el, hel, hstarted⟩ := h.timeline.started k hk
  rw [Dag.isTerminal_eq hel]
  by_contra ht
  have hstate := Element.running_of_started hstarted (by simpa using ht)
  -- its event would be pending, but it has been recorded
  obtain ⟨e, he, -⟩ := h.timeline.event_of_running _ el hel hstate
  obtain ⟨r, -, hticket⟩ := h.timeline.ticket _ el e hel he
  obtain rfl : k.event = e := congrArg Ticket.event (hledger.vertex_inj k hk _ hticket rfl)
  obtain ⟨entry, hmem, hop⟩ := hran.recorded
  exact hledger.not_recorded k hk (ho _ el _ hlt hel hstate he) entry hmem hop

/-- A failure that is recorded on the device is known to the graph, as far as that has looked. -/
theorem Coherent.isFailed_of_recorded (h : s.Coherent) (ho : s.ObservedBefore v) {u : VertexId}
    (huv : u < v) (hu : s.FailureRecorded u) : s.dag.isFailed u = true := by
  obtain ⟨k, hk, rfl, hran⟩ := hu
  by_contra hf
  have hfinished :=
    Dag.isFinished_of_terminal (h.isTerminal_of_ran ho hk huv hran) (by simpa using hf)
  obtain ⟨k', hk', hkv, hran'⟩ := h.timeline.ran_of_finished _ hfinished
  obtain rfl := h.timeline.ledger.vertex_inj k' hk' k hk hkv
  cases h.timeline.ledger.ran_unique hran hran'

/-- When a launch has run, the failures of its ancestors are recorded. -/
theorem Coherent.failureRecorded_of_path (h : s.Coherent) {u : VertexId} (hp : s.dag.Path u v)
    (hu : s.machine.LaunchFailed u) {r : Retired} {job : Job} (hr : r ∈ s.machine.history)
    (hop : r.op = .launch job) (hj : job.vertex = some v) : s.FailureRecorded u := by
  obtain ⟨before, after, hh⟩ := List.append_of_mem hr
  obtain ⟨k, hk, rfl, f, hran⟩ := h.timeline.ran_of_path hp hh hop hj
  have hran : k.Ran f s.machine.history := hh ▸ hran.append _
  obtain ⟨entry, hentry, hfailed, job₁, hop₁, hj₁⟩ := hu
  obtain ⟨job₂, hlaunched, hj₂⟩ := hran.launched
  obtain rfl := Machine.eq_of_launchedVertices h.timeline.ledger.launched_nodup hentry hlaunched
    hop₁ hj₁ rfl hj₂
  obtain rfl : f = true := hfailed
  exact ⟨k, hk, rfl, hran⟩

/-- **Why a vertex fails whose event has failed.** -/
theorem Guarded.cause (hg : s.Guarded P) (h : s.Coherent) {el : Element} {e : EventId}
    (hv : s.dag.element? v = some el) (he : el.event = some e)
    (hc : s.machine.events.get? e = some .failed) (ho : s.ObservedBefore v) : Cause P s.dag v := by
  obtain ⟨t, -, hticket⟩ := h.timeline.ticket v el e hv he
  obtain ⟨job, hmem, hj⟩ := (h.timeline.ledger.ran _ hticket true (by simpa using hc)).launched
  rcases hg.ran _ hmem rfl job v rfl hj with
    hhanded | ⟨u, hp, hu⟩ | ⟨hhanded, r, hlt, hr, u, hp, hu⟩
  · exact .condemned hhanded
  · -- an ancestor that failed has recorded that before the launch ran
    have hrecorded := h.failureRecorded_of_path hp hu hmem rfl hj
    exact .ancestor hp (h.isFailed_of_recorded ho (h.linked.lt_of_path hp).1 hrecorded)
  · have hlt' := Nat.lt_trans (h.linked.lt_of_path hp).1 hlt
    exact .stray hhanded hlt hr hp (h.isFailed_of_recorded ho hlt' hu)

/-! ### Every run -/

/-- There is a cause for every failure, and the streams are such that there will be. -/
structure Explained (P : Rules) (s : Stage) : Prop where
  listed : s.Listed
  placement : s.Placement
  guarded : s.Guarded P
  cause : ∀ v, s.dag.isFailed v = true → Cause P s.dag v

theorem Explained.initial {options : ContextOptions} (h : options.maxStreams = none) :
    Explained P (.initial options) where
  listed := .initial options
  placement := .initial h
  guarded := .initial options
  cause v hv := by simp [Stage.initial, Context.new, Dag.isFailed, Dag.element?] at hv

theorem Explained.disturbance (hs : Explained P s) (hd : Disturbance s t) : Explained P t where
  listed := hs.listed.congr hd.dag hd.pool
  placement := hs.placement.disturbance hd
  guarded := hs.guarded.disturbance hd
  cause := hd.dag ▸ hs.cause

/-- **Every move leaves a cause for every failure.** -/
theorem Explained.move (hs : Explained P s) (h : s.Coherent) (hm : Move P s t) :
    Explained P t where
  listed := h.listed hs.listed hm
  placement := h.placement hs.listed hs.placement hm
  guarded := h.guarded hs.placement hs.guarded hm
  cause v hv := by
    rcases h.failed_cases hm hv with hv | hfails
    · exact (hs.cause v hv).move h hm
    · cases hfails with
      | unplaced hu => exact .unplaced hu
      | @refused u hr =>
          rcases h.refused_cases hm hr with hold | ⟨-, -, hP, el, hel, hrefuses⟩
          · obtain ⟨el, -, hel, -, hstate, -⟩ := hold
            have hv := Dag.isFailed_iff.mpr (Dag.state?_eq_some.mpr ⟨el, hel, hstate⟩)
            exact (hs.cause v hv).move h hm
          · exact .refused hr ⟨s, el, hP, hel, hrefuses⟩
      | parent huv hu => exact (Cause.ancestor (.single huv) hu).move h hm
      | crashed hv _ he hc hp => exact (hs.guarded.cause h hv he hc hp).move h hm

theorem explained_steps {options : ContextOptions} (hmax : options.maxStreams = none)
    (hm : Steps P (.initial options) s) : Explained P s :=
  (Coherent.initial options).invariant (I := Explained P) (fun _ _ h hs hm => hs.move h hm)
    (fun _ _ hs hd => hs.disturbance hd) (.initial hmax) hm

end Stage

namespace Context

/-- In the run of some commands, vertex `v` is put to the device at context `c`. -/
def Offers (options : ContextOptions) (commands : List Command) (v : VertexId) (c : Context) :
    Prop :=
  ∃ earlier command later, commands = earlier ++ command :: later ∧
    IssuePoint (ran options earlier) command v c

/-- **How far failures go.**  In a contained run with any number of streams, a vertex has failed
only if it got no stream; or it was put to the device, which refused it, or which was set to let
it fail; or an ancestor of it has failed; or the last operation on its stream was a wait when it was
put to the device, an earlier vertex was refused on that stream, and an ancestor of that vertex has
failed. -/
theorem failures_contained (options : ContextOptions) (hmax : options.maxStreams = none)
    (commands : List Command) (hc : ∀ x ∈ commands, x.Contained) (v : VertexId)
    (hv : (ran options commands).dag.isFailed v = true) :
    (ran options commands).dag.Unplaced v ∨
    (∃ c el t, Offers options commands v c ∧ c.dag.element? v = some el ∧
      c.device.machine.Refuses el ∧ (ran options commands).dag.Refused v t) ∨
    (∃ c el, Offers options commands v c ∧ c.dag.element? v = some el ∧
      c.device.machine.failing.contains el.label = true) ∨
    (∃ u, (ran options commands).dag.Path u v ∧ (ran options commands).dag.isFailed u = true) ∨
    ∃ c el t lane, Offers options commands v c ∧ c.dag.element? v = some el ∧
      el.stream = some t ∧ c.device.machine.streams.get? t = some lane ∧
      Machine.EndsInWait lane.ops ∧ ∃ r u, r < v ∧ (ran options commands).dag.Refused r t ∧
        (ran options commands).dag.Path u r ∧ (ran options commands).dag.isFailed u = true := by
  obtain ⟨s, hs, hsteps, -⟩ := (Stage.Coherent.initial options).after_ruled rfl hc
    (P := { admits := fun _ _ => True
            hands := fun s v => Offers options commands v s.toContext })
    (fun _ _ _ _ _ _ => trivial)
    fun earlier command later heq v t hpoint => ⟨earlier, command, later, heq, hpoint⟩
  have hran : ran options commands = s.toContext := hs.symm
  rw [hran] at hv ⊢
  cases (Stage.explained_steps hmax hsteps).cause v hv with
  | unplaced hu => exact .inl hu
  | @refused t hr hhanded =>
      obtain ⟨s₀, el, hoffers, hel, hrefuses⟩ := hhanded
      exact .inr (.inl ⟨s₀.toContext, el, t, hoffers, hel, hrefuses, hr⟩)
  | condemned hhanded =>
      obtain ⟨s₀, el, hoffers, hel, hfails⟩ := hhanded
      exact .inr (.inr (.inl ⟨s₀.toContext, el, hoffers, hel, hfails⟩))
  | ancestor hp hu => exact .inr (.inr (.inr (.inl ⟨_, hp, hu⟩)))
  | @stray t r u hhanded hlt hr hp hu =>
      obtain ⟨s₀, el, hoffers, hel, hstream, lane, hlane, hends⟩ := hhanded
      exact .inr (.inr (.inr (.inr ⟨s₀.toContext, el, t, lane, hoffers, hel, hstream, hlane, hends,
        r, u, hlt, hr, hp, hu⟩)))

/-- A launch that is going to fail, one that is not, and one that depends on both and is refused:
its waits stay on its stream. -/
def leftWaits : List Command :=
  [.device (.allocate 4), .device (.allocate 4), .device (.allocate 4),
   .device (.failExecutions "bad"), .device (.rejectLaunches "turned"),
   .register (.new (.launch 1 "bad" {}) [.array .float 0 false]),
   .register (.new (.launch 2 "good" {}) [.array .float 1 false]),
   .register (.new (.launch 3 "turned" {}) [.array .float 0 false, .array .float 1 false])]

/-- A launch on an array of its own. -/
def bystander : Command := .register (.new (.launch 4 "apart" {}) [.array .float 2 false])

/-- The launch on an array of its own comes last. -/
def escape : List Command := leftWaits ++ [bystander, .synchronize]

theorem contained_escape : ∀ x ∈ escape, x.Contained := by
  simp only [escape, leftWaits, bystander, List.cons_append, List.nil_append, List.forall_mem_cons]
  exact ⟨rfl, rfl, rfl, rfl, rfl, (contained_new _ _).1, (contained_new _ _).1,
    (contained_new _ _).1, (contained_new _ _).1, trivial, by simp⟩

theorem not_path_escape (u : VertexId) : ¬ (ran {} escape).dag.Path u 3 := by
  intro hp
  have htargets : (ran {} escape).dag.edges.map Edge.target = [2, 2] := by decide +kernel
  obtain ⟨w, -, edge, hedge, -, htarget⟩ := Relation.TransGen.tail'_iff.mp hp
  have hmem := List.mem_map_of_mem (f := Edge.target) hedge
  simp [htargets, htarget] at hmem

/-- The launch that depends on nobody has failed: it was bound to fail, or there was a wait behind
which it was put to the device. -/
theorem failures_contained_escape :
    ∃ c el, Offers {} escape 3 c ∧ c.dag.element? 3 = some el ∧
      (c.device.machine.failing.contains el.label = true ∨ ∃ t lane, el.stream = some t ∧
        c.device.machine.streams.get? t = some lane ∧ Machine.EndsInWait lane.ops) := by
  have hv : (ran {} escape).dag.isFailed 3 = true := by decide +kernel
  have hfacts : ((ran {} escape).dag.element? 3).map (fun el => (el.stream, el.event)) =
      some (some 2, some 2) := by decide +kernel
  obtain ⟨el, hel, heq⟩ := Option.map_eq_some_iff.mp hfacts
  obtain ⟨hstream, hevent⟩ := Prod.mk.inj heq
  rcases failures_contained {} rfl escape contained_escape 3 hv with
    ⟨x, n, hx, hnone, -⟩ | ⟨c, _, t, -, -, -, x, reason, hx, -, -, hnone, -⟩ |
    ⟨c, x, hoffers, hx, hfails⟩ | ⟨u, hp, -⟩ |
    ⟨c, x, t, lane, hoffers, hx, ht, hlane, hends, -⟩
  · obtain rfl : el = x := Option.some.inj (hel.symm.trans hx)
    simp [hstream] at hnone
  · obtain rfl : el = x := Option.some.inj (hel.symm.trans hx)
    simp [hevent] at hnone
  · exact ⟨c, x, hoffers, hx, .inl hfails⟩
  · exact absurd hp (not_path_escape u)
  · exact ⟨c, x, hoffers, hx, .inr ⟨t, lane, ht, hlane, hends⟩⟩

/-- **A failure that escapes.**  The launch with number 3 has a stream, the device does not refuse
it and is not set to let it fail, and it depends on nobody; yet it fails. -/
theorem failure_escapes :
    (∀ x ∈ escape, x.Contained) ∧
    (∃ c el, IssuePoint (ran {} leftWaits) bystander 3 c ∧ c.dag.element? 3 = some el ∧
      el.stream.isSome ∧ ¬ c.device.machine.Refuses el ∧
      c.device.machine.failing.contains el.label = false) ∧
    (ran {} escape).dag.isFailed 3 = true ∧ ∀ u, ¬ (ran {} escape).dag.Path u 3 := by
  have hready : readyVertices ((prepare bystander).run (ran {} leftWaits)).1 = [3] := by
    decide +kernel
  have hfacts : (fun c : Context => (c.dag.element? 3).map fun el =>
      (el.stream.isSome, decide (c.device.machine.Refuses el),
        c.device.machine.failing.contains el.label))
      ((prepare bystander).run (ran {} leftWaits)).2 = some (true, false, false) := by
    decide +kernel
  obtain ⟨el, hel, heq⟩ := Option.map_eq_some_iff.mp hfacts
  simp only [Prod.mk.injEq, decide_eq_false_iff_not] at heq
  exact ⟨contained_escape, ⟨_, el, issuePoint_of_ready hready, hel, heq⟩, by decide +kernel,
    not_path_escape⟩

end Context

end LaunchGraph
