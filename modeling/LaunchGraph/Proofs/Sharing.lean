import LaunchGraph.Proofs.Bookkeeping
import LaunchGraph.Proofs.Placement

/-!
# Sharing — work on one stream is ordered by the graph

A stream runs its work in order, so two vertices that share one are ordered on the device whether or
not one depends on the other.  Where the number of streams is not limited, no order is added in this
way: the vertices that are under way on a stream are ordered by the graph already
(`Context.sharing_ordered`).

The placement of vertices (`Stage.Placement`) is kept by every move, given that the pool lists
everyone who is not over, so it holds after every contained run.  When a stream is chosen for a new
vertex, between two moves, it holds of the graph without that vertex; the choice continues behind a
parent or takes a stream with nobody on it (`Scheduler.placed_of_assign`).
-/

namespace LaunchGraph

namespace Context

/-- An element becomes a vertex, after a look at the device. -/
def enter (e : Element) : Action Context VertexId := do
  observe
  onScheduler (Scheduler.append e)

/-- What a command does up to the moment when a stream is chosen for its new vertex. -/
def approach : Command → Option (Action Context VertexId)
  | .register e => some (enter e)
  | .launch id config values => some do
      match ← Action.gets fun c => c.kernels.get? id with
      | none => Action.fail (.unknownKernel s!"#{id}")
      | some k =>
          let (e, k) ← Action.ofExcept (k.launch config values)
          Action.modify fun c => { c with kernels := c.kernels.insert id k }
          enter e
  | .access a write => some do
      Action.modify fun c => c.registerArray a
      enter (.ofAccess a.buffer a.type write)
  | _ => none

/-- On its way from context `c₀`, the command is at context `c` and about to choose a stream for its
new vertex `v`. -/
def AssignPoint (c₀ : Context) (command : Command) (v : VertexId) (c : Context) : Prop :=
  ∃ x, approach command = some x ∧ x.run c₀ = (.ok v, c)

theorem AssignPoint.of_run {c₀ : Context} {command : Command} {x : Action Context VertexId}
    {v : VertexId} (hx : approach command = some x) (h : (x.run c₀).1 = .ok v) :
    AssignPoint c₀ command v (x.run c₀).2 :=
  ⟨x, hx, Prod.ext h rfl⟩

/-- The command has an element enter the graph, from a context that differs from the first one at
most in the arrays and kernels it knows. -/
theorem AssignPoint.entered {c₀ c : Context} {command : Command} {v : VertexId}
    (h : AssignPoint c₀ command v c) (hc : command.Contained) :
    ∃ e arrays kernels, (e.Unused ∨ e.id.isSome = true) ∧
      (enter e).run { c₀ with arrays, kernels } = (.ok v, c) ∧
      (perform command).run c₀ =
        (do let v ← register e; pure (.vertex v) : Action Context Reply).run
          { c₀ with arrays, kernels } := by
  obtain ⟨x, hx, hrun⟩ := h
  cases command with
  | register e =>
      obtain rfl := Option.some.inj hx
      exact ⟨e, c₀.arrays, c₀.kernels, hc, hrun, rfl⟩
  | launch id config values =>
      obtain rfl := Option.some.inj hx
      rw [Action.run_gets_bind] at hrun
      simp only [perform, launch, bind_assoc, Action.run_gets_bind]
      cases hk : c₀.kernels.get? id with
      | none =>
          simp only [hk] at hrun
          cases hrun
      | some k =>
          simp only [hk] at hrun ⊢
          cases hl : k.launch config values with
          | error error =>
              simp only [hl] at hrun
              cases hrun
          | ok out =>
              simp only [hl] at hrun ⊢
              have hu : out.1.Unused := Kernel.launch_new hl ▸ Element.unused_new _ _
              exact ⟨out.1, c₀.arrays, c₀.kernels.insert id out.2, .inl hu, hrun, rfl⟩
  | access a write =>
      obtain rfl := Option.some.inj hx
      exact ⟨_, c₀.arrays.insertNew a.buffer a, c₀.kernels, .inl (Element.unused_new _ _), hrun,
        rfl⟩
  | _ => cases hx

/-- The command goes on from there by choosing a stream. -/
theorem AssignPoint.run {c₀ c : Context} {command : Command} {v : VertexId}
    (h : AssignPoint c₀ command v c) (hc : command.Contained) :
    ∃ rest : Except Error StreamId → Action Context Reply, (perform command).run c₀ =
      (do let r ← Action.attempt (onScheduler (Scheduler.assign v)); rest r).run c := by
  obtain ⟨e, arrays, kernels, -, henter, hperform⟩ := h.entered hc
  obtain ⟨_, c₁, hobserve, happend⟩ := Action.exists_run_of_bind henter
  rw [hperform, register]
  simp only [bind_assoc]
  rw [Action.run_bind_ok hobserve, Action.run_bind_ok happend]
  exact ⟨_, rfl⟩

end Context

namespace Stage

variable {P : Rules} {s : Stage}

/-- Vertices are placed in order at every stage. -/
theorem placement_steps {options : ContextOptions} (hmax : options.maxStreams = none)
    (hm : Steps P (.initial options) s) : s.Placement ∧ s.Listed :=
  (Coherent.initial options).invariant (I := fun s => s.Placement ∧ s.Listed)
    (fun _ _ h hs hm => ⟨h.placement hs.2 hs.1 hm, h.listed hs.2 hm⟩)
    (fun _ _ hs hd => ⟨hs.1.disturbance hd, hs.2.congr hd.dag hd.pool⟩)
    ⟨.initial hmax, .initial options⟩ hm

theorem Placement.path_of_underWay (hs : s.Placement) {t : StreamId} {u v : VertexId} (huv : u < v)
    (hu : s.dag.UnderWay t u) (hv : s.dag.UnderWay t v) : s.dag.Path u v := by
  obtain ⟨x, hx, hopen, hxt⟩ := hu
  obtain ⟨y, hy, -, hyt⟩ := hv
  exact hs.path u v x y t huv hx hy hxt hyt hopen

/-- **Where a stream is to be chosen**, a new element has been appended to the graph of a stage that
moves lead to. -/
theorem Coherent.assignPoint (h : s.Coherent) {command : Context.Command}
    (hc : command.Contained) {v : VertexId} {c : Context}
    (hp : Context.AssignPoint s.toContext command v c) :
    ∃ (t : Stage) (e : Element) (d : Dag), Moves P s t ∧ e.Unused ∧ t.dag.append e = .ok d ∧
      v = t.dag.vertices.length ∧ c = { t.toContext with dag := d } := by
  obtain ⟨e, arrays, kernels, he, henter, -⟩ := hp.entered hc
  obtain ⟨_, c₁, hobserve, happend⟩ := Action.exists_run_of_bind henter
  have hadjust : Moves P s { s with arrays, kernels } := moves_adjust (adjusts_registry s _ _ _)
  obtain ⟨_, t, hrun, hmoves, -⟩ := leads_observe (P := P) (h.moves hadjust)
  obtain rfl : c₁ = t.toContext := (Prod.mk.inj (hobserve.symm.trans hrun)).2
  have hmoves := hadjust.trans hmoves
  rcases he with hu | hid
  · obtain ⟨d, hd, -⟩ := Dag.append_eq (h.moves hmoves).linked hu.id
    rw [run_append hd] at happend
    obtain ⟨hv, rfl⟩ := Prod.mk.inj happend
    exact ⟨t, e, d, hmoves, hu, hd, (Except.ok.inj hv).symm, rfl⟩
  · rw [run_append_error hid] at happend
    cases happend

/-- **Whoever is under way on the stream that is chosen for a new vertex has a path to it.** -/
theorem Placement.path_of_assign (hs : s.Placement) (hl : s.Listed) (h : s.Coherent) {e : Element}
    {d : Dag} (hu : e.Unused) (hd : s.dag.append e = .ok d) {t : StreamId} {sch : Scheduler}
    (ha : (Scheduler.assign s.dag.vertices.length).run { s.toScheduler with dag := d } =
      (.ok t, sch)) {u : VertexId} (hway : d.UnderWay t u) : d.Path u s.dag.vertices.length := by
  obtain ⟨happ, -⟩ := h.assigned hu hd ha
  have hplaced := Scheduler.placed_of_assign (s := { s.toScheduler with dag := d }) h.faults
    happ.element?_new hs.unlimited h.slots_nextStream ha
  obtain ⟨x, hx, hopen, hstream⟩ := hway
  rcases happ.element?_cases hx with ⟨-, rfl⟩ | ⟨-, z, active, hz, rfl⟩
  · -- the new vertex has no stream yet
    cases hu.stream.symm.trans hstream
  · exact hs.path_new hl happ hplaced hz hopen hstream

end Stage

namespace Context

/-- **Independent work never shares a busy stream.**  In a contained run with any number of streams,
of two vertices that are under way on one stream the later one depends on the earlier one.  When a
command that follows is about to choose a stream for its new vertex, the vertex depends on everyone
who is under way on the stream that is chosen. -/
theorem sharing_ordered (options : ContextOptions) (hmax : options.maxStreams = none)
    (commands : List Command) (hc : ∀ x ∈ commands, x.Contained) :
    (∀ t u v, u < v → (ran options commands).dag.UnderWay t u →
      (ran options commands).dag.UnderWay t v → (ran options commands).dag.Path u v) ∧
    ∀ command v c, command.Contained → AssignPoint (ran options commands) command v c →
      (∃ rest : Except Error StreamId → Action Context Reply,
        (perform command).run (ran options commands) =
          (do let r ← Action.attempt (onScheduler (Scheduler.assign v)); rest r).run c) ∧
      ∀ t s, (Scheduler.assign v).run c.toScheduler = (.ok t, s) →
        ∀ u, c.dag.UnderWay t u → c.dag.Path u v := by
  obtain ⟨s, hs, hsteps, h, -⟩ := Stage.exists_stage_ran (P := fun _ _ => True) options hc
    fun _ _ _ _ _ _ => trivial
  rw [← hs]
  refine ⟨fun t u v huv hu hv =>
    (Stage.placement_steps hmax hsteps).1.path_of_underWay huv hu hv, ?_⟩
  intro command v c hcommand hpoint
  refine ⟨hpoint.run hcommand, fun t sch ha u hu => ?_⟩
  obtain ⟨w, e, d, hmoves, hunused, hd, rfl, rfl⟩ := h.assignPoint hcommand hpoint
  obtain ⟨hplacement, hlisted⟩ := Stage.placement_steps hmax (hsteps.trans hmoves.steps)
  exact hplacement.path_of_assign hlisted (h.moves hmoves) hunused hd ha hu

/-- Launches on one array, of which the first has run by the time the last comes, and one on another
array that fails. -/
def relay : List Command :=
  [.device (.allocate 4), .device (.allocate 4), .device (.failExecutions "bad"),
   .register (.new (.launch 1 "first" {}) [.array .float 0 false]),
   .register (.new (.launch 2 "second" {}) [.array .float 0 false]),
   .register (.new (.launch 3 "bad" {}) [.array .float 1 false]),
   .device .step, .device .step,
   .register (.new (.launch 4 "third" {}) [.array .float 0 false])]

/-- A launch on both arrays. -/
def follower : Element :=
  .new (.launch 5 "fourth" {}) [.array .float 0 false, .array .float 1 false]

/-- The context that is about to choose a stream for it. -/
def choosing : Context := ((enter follower).run (ran {} relay)).2

theorem assignPoint_choosing : AssignPoint (ran {} relay) (.register follower) 4 choosing :=
  .of_run rfl (by decide +kernel)

/-- The second and the third launch share a stream, in order, and the launch that comes next is put
behind both. -/
theorem sharing_ordered_relay :
    (ran {} relay).dag.UnderWay 0 1 ∧ (ran {} relay).dag.UnderWay 0 3 ∧
    (ran {} relay).dag.Path 1 3 ∧ ∃ c s, AssignPoint (ran {} relay) (.register follower) 4 c ∧
      (Scheduler.assign 4).run c.toScheduler = (.ok 0, s) ∧
      c.dag.UnderWay 0 1 ∧ c.dag.UnderWay 0 3 ∧ c.dag.Path 1 4 ∧ c.dag.Path 3 4 := by
  have hcontained : ∀ x ∈ relay, x.Contained := by
    simp only [relay, List.forall_mem_cons]
    exact ⟨rfl, rfl, rfl, (contained_new _ _).1, (contained_new _ _).1, (contained_new _ _).1,
      rfl, rfl, (contained_new _ _).1, by simp⟩
  obtain ⟨hordered, hassign⟩ := sharing_ordered {} rfl relay hcontained
  have hfirst : (ran {} relay).dag.UnderWay 0 1 := by decide +kernel
  have hlast : (ran {} relay).dag.UnderWay 0 3 := by decide +kernel
  have hfirst' : choosing.dag.UnderWay 0 1 := by decide +kernel
  have hlast' : choosing.dag.UnderWay 0 3 := by decide +kernel
  have hstream : ((Scheduler.assign 4).run choosing.toScheduler).1 = .ok 0 := by decide +kernel
  obtain ⟨⟨r, s⟩, hrun⟩ : ∃ p, (Scheduler.assign 4).run choosing.toScheduler = p := ⟨_, rfl⟩
  rw [hrun] at hstream
  obtain rfl : r = .ok 0 := hstream
  have hpath := (hassign (.register follower) 4 choosing (contained_new _ _).1
    assignPoint_choosing).2 0 s hrun
  exact ⟨hfirst, hlast, hordered 0 1 3 (by decide) hfirst hlast, choosing, s,
    assignPoint_choosing, hrun, hfirst', hlast', hpath 1 hfirst', hpath 3 hlast'⟩

end Context

end LaunchGraph
