import LaunchGraph.Proofs.Runs
import LaunchGraph.Proofs.Succession

/-!
# Which conflicts are kept in order

When a vertex is handed to the device, which of the earlier vertices that it conflicts with does
it wait for?  Not all of them: a vertex that took over a buffer and failed before it was issued is
dropped from the frontier, and with it the order between those it stood for and those that come
later.  `Dag.Link` describes the order that remains.  Two vertices are linked if they conflict on
a buffer, and nobody between them took over the buffer and failed.

At the point where a vertex is handed over, an earlier vertex that is not over has a path to it
exactly if a chain of links leads to it (`Context.path_iff_links`), and then the device does not
run the two in the wrong order.  `Context.conflict_overtaken` is a run in which a failure opens a
gap, and the device runs two writes of one buffer in the wrong order.
-/

namespace LaunchGraph

namespace Dag

/-- The two vertices conflict on a buffer, the first has not failed, and nobody between them took
over the buffer and failed. -/
def Link (d : Dag) (u v : VertexId) : Prop :=
  u < v ∧ d.isFailed u = false ∧ ∃ x y b, d.element? u = some x ∧ d.element? v = some y ∧
    d.policy.Conflict x y b ∧ ∀ k z, u < k → k < v → d.element? k = some z →
      d.policy.takesOver z b = true → z.isFailed = false

theorem isFailed_of_all {d : Dag} (h : (d.vertices.all fun v => !v.element.isFailed) = true)
    (v : VertexId) : d.isFailed v = false := by
  cases hx : d.vertices[v]? with
  | none => simp [isFailed, element?, hx]
  | some x => simpa [isFailed, element?, hx] using List.all_eq_true.mp h x (List.mem_of_getElem? hx)

namespace Succession

variable {d : Dag}

/-- A link from a vertex that is not over is a path. -/
theorem path_of_link (h : d.Succession) {u v : VertexId} (ht : d.isTerminal u = false)
    (hl : d.Link u v) : d.Path u v := by
  obtain ⟨huv, -, x, y, b, hx, hy, hc, hbetween⟩ := hl
  rw [isTerminal_eq hx] at ht
  obtain hp | ⟨k, z, huk, hkv, hz, htakes, hf⟩ := h.linked u v x y b hx hy huv ht hc
  · exact hp
  · simp [hbetween k z huk hkv hz htakes] at hf

/-- A chain of links from a vertex that is not over is a path. -/
theorem path_of_links (h : d.Succession)
    (hfin : ∀ u v, d.HasEdge u v → d.IsFinished v → d.IsFinished u) {u v : VertexId}
    (ht : d.isTerminal u = false) (hl : Relation.TransGen d.Link u v) : d.Path u v := by
  induction hl with
  | single hl => exact h.path_of_link ht hl
  | @tail k v _ hl ih =>
      -- a vertex on the way has not failed, and has not finished before its ancestor
      have hk : d.isTerminal k = false := by
        by_contra hover
        have hfinished := isFinished_of_terminal (by simpa using hover) hl.2.1
        exact not_isFinished ht (isFinished_of_path hfin ih hfinished)
      exact ih.trans (h.path_of_link hk hl)

/-- An edge from a vertex that is not over is a link. -/
theorem link_of_edge (h : d.Succession) (hl : d.Linked) {u v : VertexId} (huv : d.HasEdge u v)
    (ht : d.isTerminal u = false) : d.Link u v := by
  have hlt := hl.lt_of_hasEdge huv
  obtain ⟨x, hx⟩ := exists_element? (Nat.lt_trans hlt.1 hlt.2)
  obtain ⟨y, hy⟩ := exists_element? hlt.2
  rw [isTerminal_eq hx] at ht
  obtain ⟨b, hc, hbetween⟩ := h.edge u v x y huv hx hy ht
  refine ⟨hlt.1, ?_, x, y, b, hx, hy, hc, fun k z huk hkv hz htakes => ?_⟩
  · rw [isFailed_eq hx]
    cases hstate : x.state <;>
      simp_all [Element.isTerminal, Lifecycle.isTerminal, Element.isFailed]
  · simp [hbetween k z huk hkv hz] at htakes

end Succession

end Dag

/-- Once vertex `v` has been launched, vertex `u` is not launched any more, and it is not queued. -/
def Machine.Precedes (m : Machine) (u v : VertexId) : Prop :=
  ∀ before r after job, m.history = before ++ r :: after → r.op = .launch job →
    job.vertex = some v → u ∉ launchedVertices after ∧
      ∀ t lane job', m.streams.get? t = some lane → .launch job' ∈ lane.ops → job'.vertex ≠ some u

namespace Stage

variable {s : Stage}

/-- Where the context has looked, a vertex that is running has not run to its end. -/
theorem Coherent.not_ran (h : s.Coherent) (ho : s.Observed) {v : VertexId} {x : Element}
    (hx : s.dag.element? v = some x) (hr : x.state = .running) {k : Ticket} (hk : k ∈ s.tickets)
    (hkv : k.vertex = v) (f : Bool) : ¬ k.Ran f s.machine.history := by
  intro hran
  obtain ⟨x', e, hx', he, hpending⟩ := ho v ((h.mem_running hx).mpr hr)
  obtain rfl : x = x' := Option.some.inj (hx.symm.trans hx')
  obtain ⟨t, -, hticket⟩ := h.timeline.ticket v x e hx he
  obtain rfl := h.timeline.ledger.vertex_inj _ hticket k hk hkv.symm
  obtain ⟨r, hmem, hop⟩ := hran.recorded
  exact h.timeline.ledger.not_recorded _ hticket hpending r hmem hop

/-- A vertex before the next one to be issued is running, unless it is over. -/
theorem Coherent.running_of_lt (h : s.Coherent) {v : VertexId} {rest : List VertexId}
    (hd : s.due = v :: rest) {u : VertexId} (hlt : u < v) (hu : s.dag.isTerminal u = false) :
    ∃ x, s.dag.element? u = some x ∧ x.state = .running := by
  obtain ⟨y, hy⟩ := h.element_of_due hd
  obtain ⟨x, hx⟩ := Dag.exists_element? (Nat.lt_trans hlt (Dag.lt_of_element? hy))
  rw [Dag.isTerminal_eq hx] at hu
  exact ⟨x, hx, Element.running_of_started (h.started_of_lt hd hlt hx) hu⟩

/-- With a vertex that was handed to the device, all its ancestors were. -/
theorem Successive.ticket_of_path (hs : s.Successive) {u v : VertexId} (p : s.dag.Path u v)
    (hv : ∃ k ∈ s.tickets, k.vertex = v) : ∃ k ∈ s.tickets, k.vertex = u := by
  induction p using Relation.TransGen.head_induction_on with
  | single huv =>
      obtain ⟨k, hk, rfl⟩ := hv
      exact hs.parent_ticket k hk _ huv
  | head huw _ ih =>
      obtain ⟨k, hk, rfl⟩ := ih
      exact hs.parent_ticket k hk _ huw

/-- Everything on a path from a vertex that is not over to the next one to be issued is not over
either: it cannot have finished before its ancestor, nor have failed on the device before its
ancestor has run, and if it had failed before it was issued, so would all that comes after it. -/
theorem Coherent.not_terminal_between (h : s.Coherent) (hs : s.Successive) (ho : s.Observed)
    {v : VertexId} {rest : List VertexId} (hd : s.due = v :: rest)
    (hparents : ∀ u, s.dag.HasEdge u v → s.dag.isFailed u = false) {u w : VertexId}
    (hu : s.dag.isTerminal u = false) (huw : s.dag.Path u w) (hwv : s.dag.Path w v) :
    s.dag.isTerminal w = false := by
  by_contra hover
  have hterminal : s.dag.isTerminal w = true := by simpa using hover
  have hfin := h.timeline.finished_of_child
  cases hfailed : s.dag.isFailed w with
  | false =>
      exact Dag.not_isFinished hu (Dag.isFinished_of_path hfin huw
        (Dag.isFinished_of_terminal hterminal hfailed))
  | true =>
      -- `w` was handed over, since a parent of `v` was that is `w` or a descendant of it
      obtain ⟨k, hk, rfl⟩ : ∃ k ∈ s.tickets, k.vertex = w := by
        obtain ⟨p, hwp, hpv⟩ := Relation.TransGen.tail'_iff.mp hwv
        have hp := h.ticket_of_parent hd hpv (hparents p hpv)
        rcases Relation.reflTransGen_iff_eq_or_transGen.mp hwp with rfl | hpath
        · exact hp
        · exact hs.ticket_of_path hpath hp
      -- it failed on the device, so its ancestor has run, although it was not seen to be over
      obtain ⟨x, hx, hstate⟩ := Dag.state?_eq_some.mp (Dag.isFailed_iff.mp hfailed)
      obtain ⟨job, hmem, hj⟩ := (h.timeline.ran_of_failed k hk x hx hstate).launched
      obtain ⟨before, after, hh⟩ := List.append_of_mem hmem
      obtain ⟨l, hl, hlu, f, hran⟩ := h.timeline.ran_of_path huw hh rfl hj
      have hlt : u < v := (h.linked.lt_of_path (huw.trans hwv)).1
      obtain ⟨y, hy, hrunning⟩ := h.running_of_lt hd hlt hu
      refine h.not_ran ho hy hrunning hl hlu f ?_
      rw [hh]
      exact hran.append _

/-- **What remains of the order**: an earlier vertex that is not over has a path to the next one
to be issued if a chain of links leads there, and only then. -/
theorem Coherent.path_iff_chain (h : s.Coherent) (hs : s.Successive) (ho : s.Observed)
    {v : VertexId} {rest : List VertexId} (hd : s.due = v :: rest)
    (hparents : ∀ u, s.dag.HasEdge u v → s.dag.isFailed u = false) {u : VertexId}
    (hu : s.dag.isTerminal u = false) :
    s.dag.Path u v ↔ Relation.TransGen s.dag.Link u v := by
  refine ⟨fun p => ?_, hs.succession.path_of_links h.timeline.finished_of_child hu⟩
  -- from the end of the path to its start, each edge is a link, as its source is not over
  have hlinks : ∀ {w}, s.dag.Path w v → w = u ∨ s.dag.Path u w →
      Relation.TransGen s.dag.Link w v := by
    intro w q
    induction q using Relation.TransGen.head_induction_on with
    | single hwv =>
        intro hw
        refine .single (hs.succession.link_of_edge h.linked hwv ?_)
        rcases hw with rfl | hw
        · exact hu
        · exact h.not_terminal_between hs ho hd hparents hu hw (.single hwv)
    | @head w x hwx hxv ih =>
        intro hw
        have hux : s.dag.Path u x := by
          rcases hw with rfl | hw
          · exact .single hwx
          · exact hw.tail hwx
        refine .head (hs.succession.link_of_edge h.linked hwx ?_) (ih (.inr hux))
        rcases hw with rfl | hw
        · exact hu
        · exact h.not_terminal_between hs ho hd hparents hu hw (.head hwx hxv)
  exact hlinks p (.inl rfl)

/-! ### On the device -/

/-- What was over at some point has run by then, or is never handed to the device. -/
theorem Coherent.launched_or_never (h : s.Coherent) {t : Stage} (hg : s.Grows t) {u : VertexId}
    (hu : s.dag.isTerminal u = true) : u ∈ Machine.launchedVertices s.machine.history ∨
      ∀ k ∈ t.tickets, k.vertex ≠ u := by
  cases hfailed : s.dag.isFailed u with
  | false =>
      obtain ⟨k, -, rfl, hran⟩ :=
        h.timeline.ran_of_finished u (Dag.isFinished_of_terminal hu hfailed)
      exact .inl (Machine.mem_launchedVertices_of_ran hran)
  | true =>
      by_cases hticket : ∃ k ∈ s.tickets, k.vertex = u
      · obtain ⟨k, hk, rfl⟩ := hticket
        obtain ⟨x, hx, hstate⟩ := Dag.state?_eq_some.mp (Dag.isFailed_iff.mp hfailed)
        exact .inl (Machine.mem_launchedVertices_of_ran (h.timeline.ran_of_failed k hk x hx hstate))
      · refine .inr fun k hk hku => ?_
        rcases hg.tickets k hk with hk | hk
        · exact hticket ⟨k, hk, hku⟩
        · rw [hku, hu] at hk
          cases hk

/-- **Order on the device**: a vertex that is over, or has a path to the next one to be issued, is
not overtaken by it. -/
theorem Coherent.precedes (h : s.Coherent) {t : Stage} (ht : t.Coherent) (hg : s.Grows t)
    {u v : VertexId} {rest : List VertexId} (hd : s.due = v :: rest)
    (hv : s.dag.isTerminal v = false) (hu : s.dag.isTerminal u = true ∨ s.dag.Path u v) :
    t.machine.Precedes u v := by
  intro before r after job hh hr hj
  have hledger := ht.timeline.ledger
  obtain hbefore | hnever : u ∈ Machine.launchedVertices before ∨ ∀ k ∈ t.tickets, k.vertex ≠ u := by
    rcases hu with hu | hp
    · refine (h.launched_or_never hg hu).imp_left fun hmem => ?_
      -- `v` had not been launched then, so all that had run comes before its launch
      obtain ⟨l, hl⟩ := hg.history
      rcases List.append_eq_append_iff.mp (hl.symm.trans hh) with ⟨c, rfl, -⟩ | ⟨c, hc, hc'⟩
      · rw [Machine.launchedVertices_append]
        exact List.mem_append_left _ hmem
      · cases c with
        | nil => simpa [hc] using hmem
        | cons r' c =>
            obtain ⟨rfl, -⟩ := List.cons.inj hc'
            refine absurd ?_ (h.not_launched_of_due hd hv)
            exact Machine.mem_launchedVertices.mpr ⟨r, by simp [hc], job, hr, hj⟩
    · obtain ⟨k, -, rfl, f, hran⟩ :=
        ht.timeline.ran_of_path (hg.dag.path_mono h.linked hp) hh hr hj
      exact .inl (Machine.mem_launchedVertices_of_ran hran)
  · have hall : u ∈ Machine.launchedVertices t.machine.history := by
      rw [hh, Machine.launchedVertices_append]
      exact List.mem_append_left _ hbefore
    refine ⟨fun hafter => ?_, fun t' lane job' hlane hmem hj' => ?_⟩
    · have hnodup := hledger.launched_nodup
      rw [hh, Machine.launchedVertices_append] at hnodup
      refine (List.nodup_append.mp hnodup).2.2 u hbefore u ?_ rfl
      rw [← List.singleton_append, Machine.launchedVertices_append]
      exact List.mem_append_right _ hafter
    · exact hledger.not_launched_of_queued hj' hlane hmem hall
  · refine ⟨fun hafter => ?_, fun t' lane job' hlane hmem hj' => ?_⟩
    · obtain ⟨k, hk, hku⟩ := hledger.ticket_of_launched (v := u) <| by
        rw [hh, ← List.singleton_append, ← List.append_assoc, Machine.launchedVertices_append]
        exact List.mem_append_right _ hafter
      exact hnever k hk hku
    · obtain ⟨k, hk, -, hjk, -⟩ := (hledger.shape t' lane hlane).ticket_of_launch hmem
      exact hnever k hk (Option.some.inj (hjk.symm.trans hj'))

end Stage

namespace Context

/-- **Which conflicts are kept in order.**  Where vertex `j` is put to the device in a contained
run, an earlier vertex `i` is over or has a path to `j` exactly if it is over or a chain of links
leads from it to `j`; and then `j` does not overtake `i` on the device, however the run goes on.
In particular this holds if `i` and `j` conflict on a buffer and nobody between them took over
that buffer and failed. -/
theorem path_iff_links (options : ContextOptions) (earlier later : List Command)
    (command : Command)
    (hc : ∀ x ∈ earlier ++ command :: later, x.Contained ∧ x.IsFresh) {c : Context}
    {i j : VertexId} (hpoint : IssuePoint (ran options earlier) command j c)
    (hj : c.dag.isTerminal j = false)
    (hparents : ∀ u, c.dag.HasEdge u j → c.dag.isFailed u = false) :
    (c.dag.isTerminal i = true ∨ c.dag.Path i j ↔
      c.dag.isTerminal i = true ∨ Relation.TransGen c.dag.Link i j) ∧
    (c.dag.isTerminal i = true ∨ c.dag.Path i j →
      (ran options (earlier ++ command :: later)).device.machine.Precedes i j) := by
  have hP : ∀ x ∈ earlier ++ command :: later, ∀ c e, x.Submits c e → ∀ _ : Stage,
      e.active = e.accesses := fun x hx c e he _ => (hc x hx).2.active he
  have hearlier : ∀ x ∈ earlier, x ∈ earlier ++ command :: later := fun x hx => by simp [hx]
  have hlater : ∀ x ∈ later, x ∈ earlier ++ command :: later := fun x hx => by simp [hx]
  obtain ⟨s, hs, hsteps, hcoherent, hdue⟩ := Stage.exists_stage_ran options
    (P := fun _ e => e.active = e.accesses) (fun x hx => (hc x (hearlier x hx)).1)
    fun x hx => hP x (hearlier x hx)
  have hsuccessive := (Stage.Coherent.initial options).successive_steps (.initial options)
    (fun _ _ h => h) hsteps
  rw [← hs] at hpoint
  obtain ⟨t, rest, rfl, hmoves, hd, ho, r, u, hrun, hmoves', hdue'⟩ := hcoherent.issuePoint
    (P := fun _ e => e.active = e.accesses) hdue (hc command (by simp)).1
    (fun e he t _ => hP command (by simp) _ e he t) hpoint
  have ht := hcoherent.moves hmoves
  refine ⟨?_, fun hi => ?_⟩
  · cases hi : t.dag.isTerminal i with
    | true => simp
    | false =>
        have ht' := hcoherent.successive_steps hsuccessive (fun _ _ h => h) hmoves.steps
        simp [ht.path_iff_chain ht' ho hd hparents hi]
  · have hu := ht.moves hmoves'
    obtain ⟨w, hw, hsteps', -⟩ := hu.after_steps hdue' (fun x hx => (hc x (hlater x hx)).1)
      fun x hx => hP x (hlater x hx)
    have hfinal : ran options (earlier ++ command :: later) = Stage.toContext w := by
      rw [ran, after_append, hw, ← ran, ← hs]
      simp only [after, List.foldl_cons, hrun]
    rw [hfinal]
    exact ht.precedes (hu.steps hsteps') (ht.grows_steps (hmoves'.steps.trans hsteps')) hd hj hi

/-- A launch that waits for another does not overtake it. -/
theorem path_iff_links_forkJoin :
    (ran {} (fork ++ [join, .device .runUntilIdle])).device.machine.Precedes 0 2 := by
  have hc : ∀ x ∈ fork ++ [join, .device .runUntilIdle], x.Contained ∧ x.IsFresh :=
    contained_forkJoin [.runUntilIdle] (by simp [Device.Command.isContained])
  have hready : readyVertices ((prepare join).run (ran {} fork)).1 = [2] := by decide_cbv
  have hpoint := issuePoint_of_ready hready
  have hedge : ((prepare join).run (ran {} fork)).2.dag.HasEdge 0 2 := by decide_cbv
  have hparents : ∀ u, ((prepare join).run (ran {} fork)).2.dag.HasEdge u 2 →
      ((prepare join).run (ran {} fork)).2.dag.isFailed u = false :=
    fun u _ => Dag.isFailed_of_all (by decide_cbv) u
  exact (path_iff_links {} fork [.device .runUntilIdle] join hc hpoint (by decide_cbv)
    hparents).2 (.inr (.single hedge))

/-- A launch fails on the device.  Another one, which has taken over an array from work that is
still queued, depends on the failed launch, so it fails before it is issued. -/
def takeoverFails : List Command :=
  [.device (.allocate 4), .device (.allocate 4), .device (.failExecutions "bad"),
   .register (.new (.launch 1 "bad" {}) [.array .float 0 false]),
   .register (.new (.launch 2 "first" {}) [.array .float 1 false]),
   .register (.new (.launch 3 "second" {}) [.array .float 1 false]),
   .device .step, .device .step,
   .register (.new (.launch 4 "both" {}) [.array .float 0 false, .array .float 1 false]),
   .register (.new (.launch 5 "other" {}) [.array .float 0 false])]

/-- A later launch on the array that was taken over. -/
def overtaker : Command := .register (.new (.launch 6 "third" {}) [.array .float 1 false])

/-- **A conflict that is not kept in order.**  The launches with numbers 2 and 5 write the same
array.  When 5 is put to the device, 2 is queued there, and no path leads from 2 to 5; the device
runs 5 first. -/
theorem conflict_overtaken :
    (∀ x ∈ takeoverFails ++ [overtaker, .device .step], x.Contained ∧ x.IsFresh) ∧
    ∃ c, IssuePoint (ran {} takeoverFails) overtaker 5 c ∧
      c.dag.isTerminal 5 = false ∧ (∀ u, ¬ c.dag.HasEdge u 5) ∧
      (∃ x y, c.dag.element? 2 = some x ∧ c.dag.element? 5 = some y ∧
        c.dag.policy.Conflict x y 1) ∧
      c.dag.isTerminal 2 = false ∧ ¬ c.dag.Path 2 5 ∧
      Machine.launchedVertices (ran {} (takeoverFails ++
        [overtaker, .device .step])).device.machine.history = [0, 1, 5, 2] := by
  have hpoint : (fun out : Except Halt (List VertexId × Action Context Reply) × Context =>
      (readyVertices out.1, out.2.dag.isTerminal 5, out.2.dag.isTerminal 2,
        out.2.dag.edges.map Edge.target, (out.2.dag.element? 2).map Element.arguments,
        (out.2.dag.element? 5).map Element.arguments))
      ((prepare overtaker).run (ran {} takeoverFails)) =
      ([5], false, false, [2, 3, 3, 4], some [.array .float 1 false],
        some [.array .float 1 false]) := by cbv
  simp only [Prod.mk.injEq] at hpoint
  obtain ⟨hready, h₅, h₂, htargets, hargs₂, hargs₅⟩ := hpoint
  obtain ⟨x, hx, hx₂⟩ := Option.map_eq_some_iff.mp hargs₂
  obtain ⟨y, hy, hy₅⟩ := Option.map_eq_some_iff.mp hargs₅
  have hnone : ∀ u, ¬ ((prepare overtaker).run (ran {} takeoverFails)).2.dag.HasEdge u 5 := by
    rintro u ⟨edge, hedge, -, htarget⟩
    have hmem := List.mem_map_of_mem (f := Edge.target) hedge
    simp [htargets, htarget] at hmem
  refine ⟨?_, _, issuePoint_of_ready hready, h₅, hnone, ⟨x, y, hx, hy, ?_⟩, h₂, ?_, by decide_cbv⟩
  · simp only [takeoverFails, overtaker, List.cons_append, List.nil_append, List.forall_mem_cons]
    exact ⟨⟨rfl, trivial⟩, ⟨rfl, trivial⟩, ⟨rfl, trivial⟩, contained_new _ _, contained_new _ _,
      contained_new _ _, ⟨rfl, trivial⟩, ⟨rfl, trivial⟩, contained_new _ _, contained_new _ _,
      contained_new _ _, ⟨rfl, trivial⟩, by simp⟩
  · simp [DependencyPolicy.Conflict, Element.touches, Element.writes, hx₂, hy₅, touchesIn,
      writesIn, Argument.buffer?, Argument.isConst]
  · intro hp
    obtain ⟨u, -, hu⟩ := Relation.TransGen.tail'_iff.mp hp
    exact hnone u hu

end Context

end LaunchGraph
