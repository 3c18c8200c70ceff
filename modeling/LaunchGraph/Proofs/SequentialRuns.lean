import Mathlib.Data.List.TakeWhile
import LaunchGraph.Proofs.SafeRuns
import LaunchGraph.Proofs.Semantics
import LaunchGraph.Proofs.Succession

/-!
# Runs have the meaning of their launches in order

The device runs launches in an order of its own.  As long as nothing fails, that order is faithful
(`Dag.IsFaithful`): of two vertices that conflict, the one that was registered first is launched
first.  `Stage.Sequenced` carries this through a run.  When a vertex is issued, an earlier one
that it conflicts with is over, and has been launched, or it has a path to it, and the path
remains; the device respects paths.

So whatever the launches do to memory, after a run without failures that ends with `synchronize`
every vertex has been launched exactly once, has found the inputs it would have found had the
launches been carried out one after the other as they were registered, and the memory is the same
(`Context.sequential_semantics`).
-/

namespace LaunchGraph

theorem Element.Continues.conflict {p : DependencyPolicy} {x y x' y' : Element} {b : BufferId}
    (hx : x.Continues x') (hy : y.Continues y') (h : p.Conflict x' y' b) : p.Conflict x y b := by
  simpa [DependencyPolicy.Conflict, Element.touches, Element.writes, hx.arguments, hy.arguments]
    using h

/-- What has not failed now had not failed before. -/
theorem Dag.Grows.not_failed {d d' : Dag} (h : d.Grows d') {v : VertexId}
    (hv : d'.isFailed v = false) : d.isFailed v = false := by
  refine Bool.eq_false_iff.mpr fun hfailed => ?_
  obtain ⟨x, hx, hstate⟩ := state?_eq_some.mp (isFailed_iff.mp hfailed)
  obtain ⟨x', hx', hcontinues⟩ := h.element v x hx
  have hstate' : x'.state = .failed := by
    rw [hcontinues.state (by simp [Element.isTerminal, hstate, Lifecycle.isTerminal]), hstate]
  simp [isFailed_eq hx', Element.isFailed, hstate'] at hv

namespace Stage

variable {P : Rules} {s t : Stage}

/-- What has been launched before vertex `v`; everything so far, if `v` has not been launched. -/
def launchedBefore (s : Stage) (v : VertexId) : List VertexId :=
  (Machine.launchedVertices s.machine.history).takeWhile (· ≠ v)

theorem launchedBefore_eq {v : VertexId}
    (hv : v ∉ Machine.launchedVertices s.machine.history) :
    s.launchedBefore v = Machine.launchedVertices s.machine.history := by
  refine List.takeWhile_eq_self_iff.mpr fun u hu => ?_
  simpa using fun heq : u = v => hv (heq ▸ hu)

theorem Grows.launchedBefore (hg : s.Grows t) {u v : VertexId} (h : u ∈ s.launchedBefore v) :
    u ∈ t.launchedBefore v := by
  obtain ⟨l, hl⟩ := hg.history
  rw [Stage.launchedBefore, hl, Machine.launchedVertices_append, List.takeWhile_append]
  split
  · exact List.mem_append_left _ ((List.takeWhile_prefix _).subset h)
  · exact h

/-- Every vertex that was handed to the device comes after the earlier ones it conflicts with:
they have a path to it, or were launched before it. -/
def Sequenced (s : Stage) : Prop :=
  ∀ k ∈ s.tickets, ∀ u x y b, u < k.vertex → s.dag.element? u = some x →
    s.dag.element? k.vertex = some y → s.dag.policy.Conflict x y b →
    s.dag.Path u k.vertex ∨ u ∈ s.launchedBefore k.vertex

theorem Sequenced.initial (options : ContextOptions) : (Stage.initial options).Sequenced := by
  intro k hk
  cases hk

/-- Only issuing a vertex makes a ticket. -/
theorem Move.tickets_cases (hm : Move P s t) : t.tickets = s.tickets ∨
    ∃ k rest x, t.tickets = s.tickets ++ [k] ∧ s.due = k.vertex :: rest ∧
      s.dag.element? k.vertex = some x ∧ x.isTerminal = false := by
  cases hm with
  | adjust ha => exact .inl ha.tickets
  | issue _ hd hv hs => exact .inr ⟨_, _, _, rfl, hd, hv, hs⟩
  | _ => exact .inl rfl

/-- Where nothing has failed, an earlier vertex that conflicts with the next one to be issued has a
path to it, or has been launched. -/
theorem Coherent.sequenced_due (h : s.Coherent) (hs : s.Successive)
    (hfree : ∀ v, s.dag.isFailed v = false) {v : VertexId} {rest : List VertexId}
    (hd : s.due = v :: rest) {u : VertexId} {x y : Element} {b : BufferId} (huv : u < v)
    (hx : s.dag.element? u = some x) (hy : s.dag.element? v = some y)
    (ht : y.isTerminal = false) (hc : s.dag.policy.Conflict x y b) :
    s.dag.Path u v ∨ u ∈ s.launchedBefore v := by
  cases hover : x.isTerminal with
  | false =>
      refine (hs.succession.linked u v x y b hx hy huv hover hc).imp_right ?_
      rintro ⟨k, z, -, -, hz, -, hfailed⟩
      simp [← Dag.isFailed_eq hz, hfree] at hfailed
  | true =>
      have hfinished := Dag.isFinished_of_terminal ((Dag.isTerminal_eq hx).trans hover) (hfree u)
      obtain ⟨k, -, rfl, hran⟩ := h.timeline.ran_of_finished u hfinished
      rw [launchedBefore_eq (h.not_launched_of_due hd ((Dag.isTerminal_eq hy).trans ht))]
      exact .inr (Machine.mem_launchedVertices_of_ran hran)

/-- What grows stays sequenced, if what is handed to the device in between was so before. -/
theorem Sequenced.grows (h : s.Sequenced) (hs : s.Coherent) (hg : s.Grows t)
    (hnew : ∀ k ∈ t.tickets, k ∈ s.tickets ∨ ∃ y, s.dag.element? k.vertex = some y ∧
      ∀ u x b, u < k.vertex → s.dag.element? u = some x → s.dag.policy.Conflict x y b →
        s.dag.Path u k.vertex ∨ u ∈ s.launchedBefore k.vertex) : t.Sequenced := by
  intro k hk u x' y' b hlt hx' hy' hc
  obtain ⟨y, hy, hold⟩ : ∃ y, s.dag.element? k.vertex = some y ∧
      ∀ u x b, u < k.vertex → s.dag.element? u = some x → s.dag.policy.Conflict x y b →
        s.dag.Path u k.vertex ∨ u ∈ s.launchedBefore k.vertex := by
    rcases hnew k hk with hk | hk
    · obtain ⟨y, hy, -⟩ := hs.timeline.started k hk
      exact ⟨y, hy, fun u x b hlt hx hc => h k hk u x y b hlt hx hy hc⟩
    · exact hk
  obtain ⟨x, hx⟩ := Dag.exists_element? (Nat.lt_trans hlt (Dag.lt_of_element? hy))
  obtain ⟨x'', hx'', hxc⟩ := hg.dag.element u x hx
  obtain rfl : x' = x'' := Option.some.inj (hx'.symm.trans hx'')
  obtain ⟨y'', hy'', hyc⟩ := hg.dag.element _ y hy
  obtain rfl : y' = y'' := Option.some.inj (hy'.symm.trans hy'')
  rw [hg.dag.policy] at hc
  exact (hold u x b hlt hx (hxc.conflict hyc hc)).imp (hg.dag.path_mono hs.linked)
    hg.launchedBefore

theorem Coherent.sequenced (h : s.Coherent) (hs : s.Successive)
    (hfree : ∀ v, s.dag.isFailed v = false) (hseq : s.Sequenced) (hm : Move P s t) :
    t.Sequenced := by
  refine hseq.grows h (h.grows hm) fun k hk => ?_
  obtain heq | ⟨k', rest, y, heq, hd, hy, ht⟩ := hm.tickets_cases
  · exact .inl (heq ▸ hk)
  · rw [heq] at hk
    refine (List.mem_append.mp hk).imp_right fun hk => ?_
    obtain rfl := List.mem_singleton.mp hk
    exact ⟨y, hy, fun u x b hlt hx hc => h.sequenced_due hs hfree hd hlt hx hy ht hc⟩

/-- **Conflicting vertices are kept in order** in every run at whose end nothing has failed. -/
theorem Coherent.sequenced_steps (h : s.Coherent) (hs : s.Successive)
    (hP : ∀ s e, P.admits s e → e.active = e.accesses) (hseq : s.Sequenced) (hm : Steps P s t)
    (hfree : ∀ v, t.dag.isFailed v = false) : t.Sequenced := by
  induction hm with
  | refl => exact hseq
  | @tail t u hm hstep ih =>
      have ht := h.steps hm
      have hg : t.Grows u := ht.grows_steps (.single hstep)
      have hfree' : ∀ v, t.dag.isFailed v = false := fun v => hg.dag.not_failed (hfree v)
      rcases hstep with hstep | hd
      · exact ht.sequenced (h.successive_steps hs hP hm) hfree' (ih hfree') hstep
      · exact (ih hfree').grows ht hg fun k hk => .inl (hd.tickets ▸ hk)

/-- Where nothing is due, held back or running and nothing has failed, everything has finished. -/
theorem Coherent.finished_of_rest (h : s.Coherent) (hd : s.due = []) (hq : s.queue.pending = [])
    (hr : s.running = []) (hfree : ∀ v, s.dag.isFailed v = false) {v : VertexId}
    (hv : v < s.dag.vertices.length) : s.dag.IsFinished v := by
  obtain ⟨x, hx⟩ := Dag.exists_element? hv
  have hover := (Dag.isTerminal_eq hx).trans (h.terminal_of_rest hd hq hr hx)
  exact Dag.isFinished_of_terminal hover (hfree v)

/-- Where everything has finished, everything was launched. -/
theorem Coherent.mem_launched (h : s.Coherent)
    (hfinished : ∀ v < s.dag.vertices.length, s.dag.IsFinished v) (v : VertexId) :
    v ∈ Machine.launchedVertices s.machine.history ↔ v < s.dag.vertices.length := by
  constructor
  · intro hmem
    obtain ⟨k, hk, rfl⟩ := h.timeline.ledger.ticket_of_launched hmem
    obtain ⟨x, hx, -⟩ := h.timeline.started k hk
    exact Dag.lt_of_element? hx
  · intro hlt
    obtain ⟨k, -, rfl, hran⟩ := h.timeline.ran_of_finished v (hfinished v hlt)
    exact Machine.mem_launchedVertices_of_ran hran

/-- Where everything has finished, the order of the launches is faithful. -/
theorem Coherent.isFaithful (h : s.Coherent) (hseq : s.Sequenced)
    (hfinished : ∀ v < s.dag.vertices.length, s.dag.IsFinished v) :
    s.dag.IsFaithful (Machine.launchedVertices s.machine.history) where
  nodup := h.timeline.ledger.launched_nodup
  mem_iff := h.mem_launched hfinished
  before u v b huv hu hv hw earlier later horder := by
    obtain ⟨k, hk, rfl⟩ := h.timeline.ledger.ticket_of_launched (v := v) (by simp [horder])
    obtain ⟨x, hx, hux⟩ := (Option.any_eq_true _ _).mp hu
    obtain ⟨y, hy, hvy⟩ := (Option.any_eq_true _ _).mp hv
    have hconflict : s.dag.policy.Conflict x y b :=
      ⟨hux, hvy, fun _ => by simpa [Dag.writes, hx, hy] using hw⟩
    rcases hseq k hk u x y b huv hx hy hconflict with hp | hmem
    · -- the launch itself is an entry of the history, and the device respects paths
      obtain ⟨before, r, after, job, hh, hr, hj, rfl⟩ := Machine.launchedVertices_split horder
      obtain ⟨l, -, rfl, f, hran⟩ := h.timeline.ran_of_path hp hh hr hj
      exact Machine.mem_launchedVertices_of_ran hran
    · have hnodup := h.timeline.ledger.launched_nodup
      rw [horder, List.nodup_append] at hnodup
      have hne : ∀ w ∈ earlier, w ≠ k.vertex := fun w hw => hnodup.2.2 w hw _ List.mem_cons_self
      rw [launchedBefore, horder, List.takeWhile_append_of_pos (by simpa using hne)] at hmem
      simpa using hmem

end Stage

namespace Context

/-- **Scheduling preserves the meaning of the launches.**  Take a contained run that ends with
`synchronize`, which succeeds.  If the run is safe, nothing fails.  If nothing has failed, every
registered vertex is finished and was launched exactly once; and whatever the vertices do to the
buffers they write, given the buffers they touch, the order in which the device has launched them
leaves the same memory as the order in which they were registered, and every vertex finds the
same inputs. -/
theorem sequential_semantics (options : ContextOptions) (commands : List Command)
    (hc : ∀ command ∈ commands, command.Contained ∧ command.IsFresh) (α : Type*) :
    let c := ran options (commands ++ [.synchronize])
    let order := Machine.launchedVertices c.device.machine.history
    let registered := List.range c.dag.vertices.length
    ((perform .synchronize).run (ran options commands)).1 = .ok .done ∧
    ((new options {}).Safe commands → ∀ v, c.dag.isFailed v = false) ∧
    ((∀ v, c.dag.isFailed v = false) →
      (∀ v ∈ registered, c.dag.IsFinished v) ∧ order.Perm registered ∧
      ∀ (I : c.dag.Interpretation α) (m : BufferId → α),
        I.carryOut order m = I.carryOut registered m ∧
        ∀ v earlier later, order = earlier ++ v :: later → ∀ b, c.dag.touches v b = true →
          I.carryOut earlier m b = I.carryOut (List.range v) m b) := by
  intro c order registered
  obtain ⟨s, hs, hsteps, hcoherent, hdue⟩ := Stage.exists_stage_ran options
    (P := fun _ e => e.active = e.accesses) (fun x hx => (hc x hx).1)
    fun x hx c e he _ => (hc x hx).2.active he
  obtain ⟨r, t, hrun, hmoves, rfl, hdue', hpending, hrunning⟩ :=
    hcoherent.synchronize (P := fun _ e => e.active = e.accesses) hdue
  have hperform : (perform .synchronize).run (ran options commands) =
      (.ok .done, Stage.toContext t) := by
    rw [← hs]
    exact Action.run_bind_ok hrun
  have ht : Stage.toContext t = c := by
    simp only [c, ran, after_append]
    rw [← ran]
    simp [after, hperform]
  refine ⟨congrArg Prod.fst hperform, fun hsafe => ?_, fun hfree => ?_⟩
  · refine Safe.not_failed (safe_append.mpr ⟨hsafe, rfl, fun e he => he.elim, trivial⟩) ?_
    simp only [List.mem_append, List.mem_singleton]
    rintro command (hmem | rfl)
    · exact (hc command hmem).1
    · trivial
  · have hcoherent' := hcoherent.moves hmoves
    have hsequenced : t.Sequenced :=
      (Stage.Coherent.initial options).sequenced_steps (.initial options) (fun _ _ h => h)
        (.initial options) (hsteps.trans hmoves.steps) (ht ▸ hfree)
    have hfinished : ∀ v < c.dag.vertices.length, c.dag.IsFinished v := by
      rw [← ht] at hfree ⊢
      exact fun v hv => hcoherent'.finished_of_rest hdue' hpending hrunning hfree hv
    have hfaithful : c.dag.IsFaithful order := by
      simp only [order, ← ht] at hfinished ⊢
      exact hcoherent'.isFaithful hsequenced hfinished
    refine ⟨fun v hv => hfinished v (List.mem_range.mp hv), ?_,
      fun I m => ⟨I.carryOut_eq hfaithful m, I.inputs_eq hfaithful m⟩⟩
    refine (List.perm_ext_iff_of_nodup hfaithful.nodup List.nodup_range).mpr fun v => ?_
    rw [List.mem_range]
    exact hfaithful.mem_iff v

/-- Two launches on one array, and one on another. -/
def overlap : List Command :=
  [.device (.allocate 4), .device (.allocate 4),
   .register (.new (.launch 1 "first" {}) [.array .float 0 false]),
   .register (.new (.launch 2 "second" {}) [.array .float 0 false]),
   .register (.new (.launch 3 "other" {}) [.array .float 1 false])]

theorem safe_overlap : (new {} {}).Safe overlap := by
  have hallocated : ∀ {c : Context} {work : Work} {n : BufferId}, n ∈ c.device.machine.buffers →
      ∀ e, (Command.register (.new work [.array .float n false])).Submits c e →
        ∀ b, e.touches b = true → b ∈ c.device.machine.buffers := by
    rintro c work n hn e ⟨rfl, -⟩ b hb
    obtain rfl : n = b := by simpa [Element.touches, touchesIn, Element.new, Argument.buffer?] using hb
    exact hn
  refine ⟨rfl, fun _ he => he.elim, rfl, fun _ he => he.elim, rfl, hallocated ?_, rfl,
    hallocated ?_, rfl, hallocated ?_, trivial⟩
  · decide_cbv
  · decide_cbv
  · decide_cbv

/-- The last of three launches overtakes the second, which has to wait for the first; the memory
is as if it had not. -/
theorem sequential_semantics_overlap :
    Machine.launchedVertices (ran {} (overlap ++ [.synchronize])).device.machine.history =
      [0, 2, 1] ∧
    ∀ (I : (ran {} (overlap ++ [.synchronize])).dag.Interpretation ℕ) (m : BufferId → ℕ),
      I.carryOut [0, 2, 1] m = I.carryOut [0, 1, 2] m := by
  have horder : Machine.launchedVertices
      (ran {} (overlap ++ [.synchronize])).device.machine.history = [0, 2, 1] := by decide_cbv
  have hlength : (ran {} (overlap ++ [.synchronize])).dag.vertices.length = 3 := by decide_cbv
  have hc : ∀ command ∈ overlap, command.Contained ∧ command.IsFresh := by
    simp only [overlap, List.forall_mem_cons]
    exact ⟨⟨rfl, trivial⟩, ⟨rfl, trivial⟩, contained_new _ _, contained_new _ _, contained_new _ _,
      by simp⟩
  obtain ⟨-, hsafe, hmain⟩ := sequential_semantics {} overlap hc ℕ
  refine ⟨horder, fun I m => ?_⟩
  have hmemory := ((hmain (hsafe safe_overlap)).2.2 I m).1
  rw [horder, hlength] at hmemory
  exact hmemory

end Context

end LaunchGraph
