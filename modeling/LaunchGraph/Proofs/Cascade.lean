import LaunchGraph.Proofs.Bookkeeping
import LaunchGraph.Proofs.GraphSteps

/-!
# The cascade — how far a failure spreads at once

A vertex that fails takes with it what has not been issued: the vertices that can be reached from it
along paths on which every later vertex is unissued (`Dag.Cone`).  They are found by a walk that goes
breadth first, and fails the unissued children of each vertex it visits.

What the walk does to the state is to strike vertices, one after the other (`Scheduler.strikeAll`),
and no vertex twice, since a vertex that has been struck counts as issued.  Which vertices it strikes
is a matter of the graph before the failure alone: the vertices struck so far, of which those in the
queue are still to be visited, are a growing part of the cone (`Dag.Spread`).  It is all of the cone
when the queue is empty, and that is the case before as many vertices have been visited as there are
(`Scheduler.walks_failFrom`).
-/

namespace LaunchGraph

namespace Dag

/-- Vertex `v` has not been handed to the device, and is not over. -/
def Unissued (d : Dag) (v : VertexId) : Prop :=
  d.state? v = some .created ∨ d.state? v = some .scheduled

/-- Vertex `w` is `v`, or there is a path from `v` to `w` on which every vertex after `v` is
unissued. -/
def Cone (d : Dag) (v : VertexId) : VertexId → Prop :=
  Relation.ReflTransGen (fun u w => d.HasEdge u w ∧ d.Unissued w) v

theorem unissued_iff {d : Dag} {v : VertexId} :
    d.Unissued v ↔ ∃ el, d.element? v = some el ∧ el.isStarted = false := by
  simp only [Unissued, state?_eq_some, ← exists_or, ← and_or_left]
  refine exists_congr fun el => and_congr_right fun _ => ?_
  cases hstate : el.state <;> simp [Element.isStarted, hstate, Lifecycle.isStarted]

/-! ### How far a failure has spread -/

/-- How far the failure of vertex `v` for reason `cause` has spread in graph `d`: the vertices that
are hit, in order and each with its cause, have been visited or are in the queue. -/
structure Spread (d : Dag) (v : VertexId) (cause : FailureCause)
    (hits : List (VertexId × FailureCause)) (visited queue : List VertexId) : Prop where
  order : hits.map Prod.fst = visited ++ queue
  nodup : (hits.map Prod.fst).Nodup
  source : (v, cause) ∈ hits
  cone : ∀ w ∈ hits.map Prod.fst, d.Cone v w
  caught : ∀ w c, (w, c) ∈ hits → w ≠ v →
    d.Unissued w ∧ ∃ p ∈ hits.map Prod.fst, d.HasEdge p w ∧ c = .parent p
  closed : ∀ u ∈ visited, ∀ w, d.HasEdge u w → d.Unissued w → w ∈ hits.map Prod.fst

namespace Spread

variable {d : Dag} {v : VertexId} {cause : FailureCause} {hits : List (VertexId × FailureCause)}
  {visited queue : List VertexId}

/-- At first, only the vertex itself is hit. -/
theorem initial (d : Dag) (v : VertexId) (cause : FailureCause) :
    d.Spread v cause [(v, cause)] [] [v] where
  order := rfl
  nodup := List.nodup_singleton v
  source := List.mem_singleton_self _
  cone w hw := by
    rw [List.mem_singleton.mp hw]
    exact .refl
  caught w c hw hne := absurd (congrArg Prod.fst (List.mem_singleton.mp hw)) hne
  closed := by simp

/-- A visit hits the unissued children that have not been hit. -/
theorem visit {p : VertexId} (h : d.Spread v cause hits visited (p :: queue))
    {new : List VertexId} (hnodup : new.Nodup)
    (hnew : ∀ w, w ∈ new ↔ d.HasEdge p w ∧ d.Unissued w ∧ w ∉ hits.map Prod.fst) :
    d.Spread v cause (hits ++ new.map fun w => (w, .parent p)) (visited ++ [p]) (queue ++ new) := by
  have hmap : (hits ++ new.map fun w => (w, FailureCause.parent p)).map Prod.fst =
      hits.map Prod.fst ++ new := by simp [Function.comp_def]
  have hp : p ∈ hits.map Prod.fst := by simp [h.order]
  refine ⟨?_, ?_, List.mem_append_left _ h.source, fun w hw => ?_, fun w c hw hne => ?_,
    fun u hu w huw hw => ?_⟩
  · rw [hmap, h.order]
    simp
  · rw [hmap]
    refine List.nodup_append.mpr ⟨h.nodup, hnodup, ?_⟩
    rintro a ha b hb rfl
    exact ((hnew a).mp hb).2.2 ha
  · rw [hmap] at hw
    rcases List.mem_append.mp hw with hw | hw
    · exact h.cone w hw
    · obtain ⟨hedge, hunissued, -⟩ := (hnew w).mp hw
      exact (h.cone p hp).tail ⟨hedge, hunissued⟩
  · rw [hmap]
    rcases List.mem_append.mp hw with hw | hw
    · obtain ⟨hunissued, q, hq, hedge, hc⟩ := h.caught w c hw hne
      exact ⟨hunissued, q, List.mem_append_left _ hq, hedge, hc⟩
    · obtain ⟨x, hx, heq⟩ := List.mem_map.mp hw
      obtain ⟨rfl, rfl⟩ := Prod.mk.inj heq
      obtain ⟨hedge, hunissued, -⟩ := (hnew x).mp hx
      exact ⟨hunissued, p, List.mem_append_left _ hp, hedge, rfl⟩
  · rw [hmap, List.mem_append]
    rcases List.mem_append.mp hu with hu | hu
    · exact .inl (h.closed u hu w huw hw)
    · obtain rfl := List.mem_singleton.mp hu
      by_cases hhit : w ∈ hits.map Prod.fst
      · exact .inl hhit
      · exact .inr ((hnew w).mpr ⟨huw, hw, hhit⟩)

/-- When nothing is left to visit, the cone has been hit. -/
theorem mem_iff (h : d.Spread v cause hits visited []) {w : VertexId} :
    w ∈ hits.map Prod.fst ↔ d.Cone v w := by
  refine ⟨h.cone w, fun hcone => ?_⟩
  induction hcone with
  | refl => exact List.mem_map_of_mem h.source
  | tail _ hstep ih =>
      have hvisited := h.order ▸ ih
      rw [List.append_nil] at hvisited
      exact h.closed _ hvisited _ hstep.1 hstep.2

/-- No more vertices are visited than there are. -/
theorem length_le (h : d.Spread v cause hits visited queue) (hv : v < d.vertices.length) :
    visited.length + queue.length ≤ d.vertices.length := by
  have hlt : ∀ w ∈ hits.map Prod.fst, w < d.vertices.length := by
    intro w hw
    obtain ⟨⟨w, c⟩, hmem, rfl⟩ := List.mem_map.mp hw
    by_cases hne : w = v
    · exact hne ▸ hv
    · obtain ⟨el, hel, -⟩ := unissued_iff.mp (h.caught w c hmem hne).1
      exact lt_of_element? hel
  have hsub : (hits.map Prod.fst).Subperm (List.range d.vertices.length) :=
    List.subperm_of_subset h.nodup fun w hw => List.mem_range.mpr (hlt w hw)
  simpa [h.order] using hsub.length_le

end Spread

end Dag

/-! ### Striking vertices -/

namespace Slot

variable (slot : Slot) {gone gone' : VertexId → Prop} [DecidablePred gone] [DecidablePred gone']

/-- The slot without some vertices. -/
def without (slot : Slot) (gone : VertexId → Prop) [DecidablePred gone] : Slot :=
  { slot with active := slot.active.filter fun w => ¬ gone w }

theorem without_congr (h : ∀ w, gone w ↔ gone' w) : slot.without gone = slot.without gone' := by
  simp only [without, h]

theorem map_without_eq_self {o : Option Slot} (h : ∀ w, ¬ gone w) :
    o.map (fun slot => slot.without gone) = o := by
  cases o with
  | none => rfl
  | some slot => simp [without, h]

theorem without_without :
    (slot.without gone).without gone' = slot.without fun w => gone w ∨ gone' w := by
  simp only [without, List.filter_filter, not_or, Bool.decide_and, Bool.and_comm]

end Slot

namespace Scheduler

/-- Fails a vertex, and releases its stream. -/
def strike (s : Scheduler) (v : VertexId) (cause : FailureCause) : Scheduler :=
  match s.dag.element? v with
  | some e => { s with
      dag := s.dag.modifyElement v fun e => e.fail cause
      pool := s.pool.releaseElement e v }
  | none => s

/-- Strikes vertices, each for a reason, one after the other. -/
def strikeAll (s : Scheduler) (hits : List (VertexId × FailureCause)) : Scheduler :=
  hits.foldl (fun s hit => s.strike hit.1 hit.2) s

variable {s : Scheduler} {v w : VertexId} {cause : FailureCause}

theorem strike_eq {e : Element} (he : s.dag.element? v = some e) : s.strike v cause = { s with
    dag := s.dag.modifyElement v fun e => e.fail cause
    pool := s.pool.releaseElement e v } := by
  simp only [strike, he]

theorem strikeAll_cons (s : Scheduler) (hit : VertexId × FailureCause)
    (hits : List (VertexId × FailureCause)) :
    s.strikeAll (hit :: hits) = (s.strike hit.1 hit.2).strikeAll hits := rfl

theorem strikeAll_append (s : Scheduler) (hits more : List (VertexId × FailureCause)) :
    s.strikeAll (hits ++ more) = (s.strikeAll hits).strikeAll more :=
  List.foldl_append

theorem element?_strike (s : Scheduler) (v w : VertexId) (cause : FailureCause) :
    (s.strike v cause).dag.element? w =
      if v = w then (s.dag.element? w).map fun e => e.fail cause else s.dag.element? w := by
  cases he : s.dag.element? v with
  | some e => simp [strike_eq he]
  | none =>
      simp only [strike, he]
      split
      · next heq => simp [← heq, he]
      · rfl

theorem unissued_strike : (s.strike v cause).dag.Unissued w ↔ s.dag.Unissued w ∧ w ≠ v := by
  simp only [Dag.unissued_iff, element?_strike]
  by_cases hvw : v = w
  · simp [hvw, Element.fail, Element.isStarted, Lifecycle.isStarted]
  · simp [hvw, Ne.symm hvw]

theorem unissued_strikeAll {hits : List (VertexId × FailureCause)} :
    (s.strikeAll hits).dag.Unissued w ↔ s.dag.Unissued w ∧ w ∉ hits.map Prod.fst := by
  induction hits generalizing s with
  | nil => simp [strikeAll]
  | cons hit rest ih =>
      rw [strikeAll_cons, ih, unissued_strike, and_assoc]
      simp

theorem element?_strikeAll_of_not_mem {hits : List (VertexId × FailureCause)}
    (hw : w ∉ hits.map Prod.fst) : (s.strikeAll hits).dag.element? w = s.dag.element? w := by
  induction hits generalizing s with
  | nil => rfl
  | cons hit rest ih =>
      rw [List.map_cons, List.mem_cons, not_or] at hw
      rw [strikeAll_cons, ih hw.2, element?_strike, if_neg (Ne.symm hw.1)]

/-- A vertex that is hit once fails for that reason. -/
theorem element?_strikeAll {hits : List (VertexId × FailureCause)}
    (hnodup : (hits.map Prod.fst).Nodup) (hw : (w, cause) ∈ hits) :
    (s.strikeAll hits).dag.element? w = (s.dag.element? w).map fun e => e.fail cause := by
  induction hits generalizing s with
  | nil => cases hw
  | cons hit rest ih =>
      obtain ⟨hnot, hnodup⟩ := List.nodup_cons.mp hnodup
      rw [strikeAll_cons]
      rcases List.mem_cons.mp hw with rfl | hw
      · rw [element?_strikeAll_of_not_mem hnot, element?_strike, if_pos rfl]
      · have hne : hit.1 ≠ w := fun heq => hnot (heq ▸ List.mem_map_of_mem hw)
        rw [ih hnodup hw, element?_strike, if_neg hne]

/-! ### What striking leaves as it is -/

/-- Nothing is different but elements, the slots of streams, and which streams are free. -/
structure Untouched (s t : Scheduler) : Prop where
  dag : t.dag = { s.dag with vertices := t.dag.vertices }
  parents : t.dag.parentVertices = s.dag.parentVertices
  children : t.dag.childVertices = s.dag.childVertices
  pool : t.pool = { s.pool with slots := t.pool.slots, free := t.pool.free }
  device : t.device = s.device

theorem Untouched.refl (s : Scheduler) : s.Untouched s := ⟨rfl, rfl, rfl, rfl, rfl⟩

theorem Untouched.trans {t u : Scheduler} (h : s.Untouched t) (h' : t.Untouched u) :
    s.Untouched u where
  dag := by rw [h'.dag, h.dag]
  parents := h'.parents.trans h.parents
  children := h'.children.trans h.children
  pool := by rw [h'.pool, h.pool]
  device := h'.device.trans h.device

theorem untouched_strike (s : Scheduler) (v : VertexId) (cause : FailureCause) :
    s.Untouched (s.strike v cause) := by
  cases he : s.dag.element? v with
  | none => simpa only [strike, he] using .refl s
  | some e =>
      rw [strike_eq he]
      refine ⟨rfl, funext fun w => by simp, funext fun w => by simp, ?_, rfl⟩
      unfold StreamPool.releaseElement StreamPool.release
      split
      · split <;> rfl
      · rfl

theorem untouched_strikeAll (s : Scheduler) (hits : List (VertexId × FailureCause)) :
    s.Untouched (s.strikeAll hits) := by
  induction hits generalizing s with
  | nil => exact .refl s
  | cons hit rest ih => exact (untouched_strike s hit.1 hit.2).trans (ih _)

theorem stream?_strike (s : Scheduler) (v : VertexId) (cause : FailureCause) :
    (s.strike v cause).dag.stream? = s.dag.stream? := by
  cases he : s.dag.element? v with
  | none => simp only [strike, he]
  | some e =>
      rw [strike_eq he]
      exact Dag.stream?_modifyElement he rfl

/-- A vertex that is struck leaves the slot of its stream. -/
theorem get?_strike (s : Scheduler) (v : VertexId) (cause : FailureCause) (t : StreamId) :
    (s.strike v cause).pool.slots.get? t = (s.pool.slots.get? t).map fun slot =>
      slot.without fun w => w = v ∧ s.dag.stream? w = some t := by
  have hsame : s.dag.stream? v ≠ some t → (s.pool.slots.get? t).map (fun slot =>
      slot.without fun w => w = v ∧ s.dag.stream? w = some t) = s.pool.slots.get? t := by
    intro hne
    refine Slot.map_without_eq_self ?_
    rintro w ⟨rfl, heq⟩
    exact hne heq
  cases he : s.dag.element? v with
  | none =>
      rw [hsame (by simp [Dag.stream?, he])]
      simp only [strike, he]
  | some e =>
      have hstream : s.dag.stream? v = e.stream := by simp [Dag.stream?, he]
      rw [strike_eq he]
      dsimp only [StreamPool.releaseElement]
      split
      · next u hu =>
        rw [StreamPool.get?_release]
        split
        · next heq =>
          subst heq
          refine congrArg (fun f => (s.pool.slots.get? u).map f) (funext fun slot => ?_)
          refine slot.without_congr fun w => ⟨fun hw => ⟨hw, ?_⟩, And.left⟩
          rw [hw, hstream, hu]
        · next hne => exact (hsame (by simpa [hstream, hu] using hne)).symm
      · next hnone => exact (hsame (by simp [hstream, hnone])).symm

theorem get?_strikeAll (s : Scheduler) (hits : List (VertexId × FailureCause)) (t : StreamId) :
    (s.strikeAll hits).pool.slots.get? t = (s.pool.slots.get? t).map fun slot =>
      slot.without fun w => w ∈ hits.map Prod.fst ∧ s.dag.stream? w = some t := by
  induction hits generalizing s with
  | nil => exact (Slot.map_without_eq_self (by simp)).symm
  | cons hit rest ih =>
      rw [strikeAll_cons, ih, get?_strike, stream?_strike, Option.map_map]
      refine congrArg (fun f => (s.pool.slots.get? t).map f) (funext fun slot => ?_)
      rw [Function.comp_apply, Slot.without_without]
      exact slot.without_congr fun w => by rw [List.map_cons, List.mem_cons, or_and_right]

/-! ### The walk -/

/-- The walk of `failFrom` without a bound: it visits the first vertex of the queue, fails the
children that are unissued and puts them last, and ends when nothing is left to visit. -/
inductive Walks : Scheduler → List VertexId → Scheduler → Prop where
  | done {s : Scheduler} : Walks s [] s
  | visit {s t u : Scheduler} {parent : VertexId} {queue failed : List VertexId}
      (h : failUnissued parent (s.dag.childVertices parent) s = (failed, t))
      (hrest : Walks t (queue ++ failed) u) : Walks s (parent :: queue) u

/-- Failing children strikes those that are unissued. -/
theorem failUnissued_eq (parent : VertexId) (children : List VertexId) (s : Scheduler) :
    ∃ new : List VertexId,
      failUnissued parent children s = (new, s.strikeAll (new.map fun w => (w, .parent parent))) ∧
      new.Nodup ∧ ∀ w, w ∈ new ↔ w ∈ children ∧ s.dag.Unissued w := by
  induction children generalizing s with
  | nil => exact ⟨[], rfl, .nil, by simp⟩
  | cons child rest ih =>
      by_cases hunissued : s.dag.Unissued child
      · obtain ⟨e, he, hs⟩ := Dag.unissued_iff.mp hunissued
        obtain ⟨new, heq, hnodup, hnew⟩ := ih (s.strike child (.parent parent))
        simp only [unissued_strike] at hnew
        refine ⟨child :: new, ?_, List.nodup_cons.mpr ⟨?_, hnodup⟩, fun w => ?_⟩
        · rw [strike_eq he] at heq
          simp only [failUnissued, he, hs, Bool.false_eq_true, if_false, heq, List.map_cons,
            strikeAll_cons, strike_eq he]
        · exact fun hmem => ((hnew child).mp hmem).2.2 rfl
        · rw [List.mem_cons, List.mem_cons, hnew]
          by_cases hw : w = child
          · simp [hw, hunissued]
          · simp [hw]
      · obtain ⟨new, heq, hnodup, hnew⟩ := ih s
        refine ⟨new, ?_, hnodup, fun w => ?_⟩
        · rw [← heq, failUnissued]
          cases he : s.dag.element? child with
          | none => rfl
          | some e =>
              have hs : e.isStarted = true := by
                by_contra hs
                exact hunissued (Dag.unissued_iff.mpr ⟨e, he, by simpa using hs⟩)
              simp only [hs, if_true]
        · rw [hnew, List.mem_cons]
          constructor
          · rintro ⟨hmem, hw⟩
            exact ⟨.inr hmem, hw⟩
          · rintro ⟨rfl | hmem, hw⟩
            · exact absurd hw hunissued
            · exact ⟨hmem, hw⟩

/-- **The walk ends within its bound**, and strikes the cone. -/
theorem walks_failFrom (hl : s.dag.Linked) (hv : v < s.dag.vertices.length)
    {hits : List (VertexId × FailureCause)} {visited queue : List VertexId}
    (h : s.dag.Spread v cause hits visited queue) (bound : Nat)
    (hb : s.dag.vertices.length ≤ visited.length + bound) :
    ∃ hits' visited', s.dag.Spread v cause hits' visited' [] ∧
      (s.strikeAll hits).failFrom bound queue = s.strikeAll hits' ∧
      Walks (s.strikeAll hits) queue (s.strikeAll hits') := by
  induction bound generalizing hits visited queue with
  | zero =>
      have hle := h.length_le hv
      obtain rfl : queue = [] := List.eq_nil_of_length_eq_zero (by lia)
      exact ⟨hits, visited, h, rfl, .done⟩
  | succ bound ih =>
      cases queue with
      | nil => exact ⟨hits, visited, h, rfl, .done⟩
      | cons p rest =>
          obtain ⟨new, heq, hnodup, hnew⟩ := failUnissued_eq p
            ((s.strikeAll hits).dag.childVertices p) (s.strikeAll hits)
          have hvisit := h.visit hnodup fun w => by
            rw [hnew, (untouched_strikeAll s hits).children, hl.mem_childVertices,
              unissued_strikeAll]
          rw [← strikeAll_append] at heq
          obtain ⟨hits', visited', hend, hrun, hwalk⟩ := ih hvisit (by simp; lia)
          refine ⟨hits', visited', hend, ?_, .visit heq hwalk⟩
          rw [failFrom, heq]
          exact hrun

end Scheduler

namespace Context

/-- What the failure of vertex `v`, for reason `cause`, makes of context `c`. -/
structure Cascades (c : Context) (v : VertexId) (cause : FailureCause) (c' : Context) : Prop where
  /-- The walk from `v` comes to an end. -/
  ends : Scheduler.Walks (c.toScheduler.strike v cause) [v] c'.toScheduler
  /-- The elements of the cone change, and no others. -/
  changed : ∀ w, c'.dag.element? w ≠ c.dag.element? w ↔ c.dag.Cone v w
  source : c'.dag.element? v = (c.dag.element? v).map fun e => e.fail cause
  /-- The others fail on account of a parent in the cone. -/
  caught : ∀ w, c.dag.Cone v w → w ≠ v → ∃ e p, c.dag.element? w = some e ∧
    c.dag.HasEdge p w ∧ c.dag.Cone v p ∧ c'.dag.element? w = some (e.fail (.parent p))
  /-- Who is hit is not under way on its stream any more, and whoever else was still is. -/
  slots : ∀ t slot, c.pool.slots.get? t = some slot → ∃ active,
    c'.pool.slots.get? t = some { slot with active } ∧ active.Sublist slot.active ∧
      ∀ w, w ∈ active ↔ w ∈ slot.active ∧ ¬ (c.dag.Cone v w ∧ c.dag.stream? w = some t)
  streams : ∀ t, c'.pool.slots.contains t = c.pool.slots.contains t
  /-- The edges, the frontier, the events and the device are as they were. -/
  untouched : c.toScheduler.Untouched c'.toScheduler
  /-- So is the rest, the issue queue too, but that `v` is not running. -/
  rest : c' = { c with toScheduler := c'.toScheduler, running := c.running.filter (· ≠ v) }

/-- Where the edges are linked, the failure of a vertex that is not over hits the cone. -/
theorem cascades_failVertex {c : Context} (hl : c.dag.Linked) {v : VertexId} {el : Element}
    (hv : c.dag.element? v = some el) (ht : el.isTerminal = false) (cause : FailureCause) :
    c.Cascades v cause (c.failVertex v cause) := by
  obtain ⟨hits, visited, hspread, hrun, hwalk⟩ := Scheduler.walks_failFrom (s := c.toScheduler)
    hl (Dag.lt_of_element? hv) (.initial c.dag v cause) c.dag.vertices.length (by simp)
  have hfail : c.failVertex v cause = { c with
      toScheduler := c.toScheduler.strikeAll hits
      running := c.running.filter (· ≠ v) } := by
    rw [← hrun, Scheduler.strikeAll_cons, Scheduler.strike_eq hv]
    simp [failVertex, hv, ht, Scheduler.failDescendants, Scheduler.strikeAll]
  have hmem : ∀ {w}, w ∈ hits.map Prod.fst ↔ c.dag.Cone v w := hspread.mem_iff
  have hopen : ∀ {w cause'}, (w, cause') ∈ hits →
      ∃ e, c.dag.element? w = some e ∧ e.isTerminal = false := by
    intro w cause' hhit
    by_cases hne : w = v
    · exact ⟨el, hne ▸ hv, ht⟩
    · obtain ⟨e, he, hs⟩ := Dag.unissued_iff.mp (hspread.caught w cause' hhit hne).1
      exact ⟨e, he, Element.isTerminal_of_unstarted hs⟩
  have hslot := Scheduler.get?_strikeAll c.toScheduler hits
  rw [hfail]
  refine ⟨hwalk, fun w => ?_, Scheduler.element?_strikeAll hspread.nodup hspread.source,
    fun w hw hne => ?_, fun t slot ht => ?_, fun t => ?_, Scheduler.untouched_strikeAll _ _, rfl⟩
  · rw [← hmem]
    refine ⟨fun hne => ?_, fun hw heq => ?_⟩
    · by_contra hw
      exact hne (Scheduler.element?_strikeAll_of_not_mem hw)
    · obtain ⟨⟨w, cause'⟩, hhit, rfl⟩ := List.mem_map.mp hw
      obtain ⟨e, he, hterminal⟩ := hopen hhit
      rw [Scheduler.element?_strikeAll hspread.nodup hhit, he] at heq
      -- an element that has failed is over
      have hfailed : e.fail cause' = e := Option.some.inj heq
      rw [← hfailed] at hterminal
      cases hterminal
  · obtain ⟨⟨w, cause'⟩, hhit, rfl⟩ := List.mem_map.mp (hmem.mpr hw)
    obtain ⟨hunissued, p, hp, hedge, rfl⟩ := hspread.caught w _ hhit hne
    obtain ⟨e, he, -⟩ := Dag.unissued_iff.mp hunissued
    refine ⟨e, p, he, hedge, hmem.mp hp, ?_⟩
    rw [Scheduler.element?_strikeAll hspread.nodup hhit, he]
    rfl
  · refine ⟨_, by rw [hslot, ht]; rfl, List.filter_sublist, fun w => ?_⟩
    simp only [List.mem_filter, decide_eq_true_eq, hmem]
  · simp only [Table.contains, hslot, Option.isSome_map]

/-- **A failure hits exactly the unissued cone.**  Whatever was done to a context and to its device,
when a vertex that is not over fails, the walk through its descendants ends; the elements that change
are those of the cone, they fail, the vertex for the given reason and each other one on account of a
parent in the cone, and they leave their streams; and all else is as it was. -/
theorem failure_hits_cone (options : ContextOptions) (commands : List Command) (v : VertexId)
    (el : Element) (hv : (ran options commands).dag.element? v = some el)
    (ht : el.isTerminal = false) (cause : FailureCause) :
    (ran options commands).Cascades v cause ((ran options commands).failVertex v cause) :=
  cascades_failVertex (linked_ran options commands) hv ht cause

/-- A launch that is issued, and two that depend on it, one after the other, and are held back. -/
def heldChain : List Command :=
  [.device (.allocate 4), .register (.new (.launch 1 "first" {}) [.array .float 0 false]), .flush,
   .register (.new (.launch 2 "next" {}) [.array .float 0 false]),
   .register (.new (.launch 3 "last" {}) [.array .float 0 false])]

/-- The last launch fails with the first, on account of a vertex that fails with it. -/
theorem failure_hits_cone_heldChain :
    ∃ el, (ran { issue := .deferred } heldChain).dag.element? 0 = some el ∧
      el.isTerminal = false ∧ (ran { issue := .deferred } heldChain).dag.Cone 0 2 ∧
      ∃ (e : Element) (p : VertexId),
        ((ran { issue := .deferred } heldChain).failVertex 0 (.launch "lost")).dag.element? 2 =
          some (e.fail (.parent p)) ∧ (ran { issue := .deferred } heldChain).dag.HasEdge p 2 ∧
        (ran { issue := .deferred } heldChain).dag.Cone 0 p := by
  have hfacts : ((ran { issue := .deferred } heldChain).dag.element? 0).map Element.isTerminal =
      some false := by decide +kernel
  obtain ⟨el, hel, ht⟩ := Option.map_eq_some_iff.mp hfacts
  have hcone : (ran { issue := .deferred } heldChain).dag.Cone 0 2 :=
    (Relation.ReflTransGen.single ⟨by decide +kernel, .inr (by decide +kernel)⟩).tail
      (b := 1) ⟨by decide +kernel, .inr (by decide +kernel)⟩
  obtain ⟨e, p, -, hedge, hp, hfailed⟩ :=
    (failure_hits_cone { issue := .deferred } heldChain 0 el hel ht (.launch "lost")).caught 2 hcone
      (by decide)
  exact ⟨el, hel, ht, hcone, e, p, hfailed, hedge, hp⟩

end Context

end LaunchGraph
