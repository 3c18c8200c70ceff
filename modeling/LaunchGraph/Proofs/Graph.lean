import Mathlib.Logic.Relation
import Mathlib.Tactic.Common
import LaunchGraph.Dag

/-!
# The graph — edges, paths and what an append does

The edges of a graph are kept in one list and, as positions in that list, at both their ends.
`Dag.Linked` says that the three agree: the parents and the children of a vertex are what the list
of edges says.  With it, an append is described by the list of edges it adds (`Dag.edgesTo`) and
the elements it leaves behind (`Dag.append_eq`), and never breaches a rule of the graph.
-/

namespace LaunchGraph.Dag

/-- There is an edge from `u` to `v`. -/
def HasEdge (d : Dag) (u v : VertexId) : Prop := ∃ e ∈ d.edges, e.source = u ∧ e.target = v

theorem hasEdge_iff_mem {d : Dag} {u v : VertexId} :
    d.HasEdge u v ↔ (u, v) ∈ d.edges.map fun e => (e.source, e.target) := by
  simp [HasEdge]

instance (d : Dag) (u v : VertexId) : Decidable (d.HasEdge u v) :=
  decidable_of_iff _ hasEdge_iff_mem.symm

/-- There is a path of at least one edge from `u` to `v`. -/
def Path (d : Dag) : VertexId → VertexId → Prop := Relation.TransGen d.HasEdge

/-- Vertex `v` is over and did not fail. -/
def IsFinished (d : Dag) (v : VertexId) : Prop :=
  ∃ el, d.element? v = some el ∧ el.state = .finished

/-! ### Elements of a changed graph -/

theorem element?_eq_some {d : Dag} {v : VertexId} {e : Element} :
    d.element? v = some e ↔ ∃ x, d.vertices[v]? = some x ∧ x.element = e := by
  simp [element?]

theorem lt_of_element? {d : Dag} {v : VertexId} {e : Element} (h : d.element? v = some e) :
    v < d.vertices.length := by
  obtain ⟨x, hx, -⟩ := element?_eq_some.mp h
  exact (List.getElem?_eq_some_iff.mp hx).1

theorem exists_element? {d : Dag} {v : VertexId} (h : v < d.vertices.length) :
    ∃ e, d.element? v = some e :=
  ⟨d.vertices[v].element, by simp [element?, h]⟩

theorem isTerminal_eq {d : Dag} {v : VertexId} {x : Element} (hx : d.element? v = some x) :
    d.isTerminal v = x.isTerminal := by
  simp [isTerminal, hx]

theorem isFrontier_eq (d : Dag) (v : VertexId) :
    d.isFrontier v = ((d.element? v).any (fun x => !x.active.isEmpty) && !d.isTerminal v) := by
  cases hv : d.vertices[v]? <;> simp [isFrontier, isTerminal, element?, hv, Vertex.isFrontier]

theorem isFrontier_iff {d : Dag} {v : VertexId} : d.isFrontier v = true ↔
    ∃ el, d.element? v = some el ∧ el.active ≠ [] ∧ d.isTerminal v = false := by
  cases hv : d.element? v <;> simp [isFrontier_eq, hv]

theorem isFailed_eq {d : Dag} {v : VertexId} {x : Element} (hx : d.element? v = some x) :
    d.isFailed v = x.isFailed := by
  simp [isFailed, hx]

/-- A vertex that is over and has not failed is finished. -/
theorem isFinished_of_terminal {d : Dag} {v : VertexId} (ht : d.isTerminal v = true)
    (hf : d.isFailed v = false) : d.IsFinished v := by
  obtain ⟨x, hx, hterminal⟩ : ∃ x, d.element? v = some x ∧ x.isTerminal = true := by
    simpa [isTerminal, Option.any_eq_true] using ht
  rw [isFailed_eq hx] at hf
  refine ⟨x, hx, ?_⟩
  cases hstate : x.state <;>
    simp_all [Element.isTerminal, Lifecycle.isTerminal, Element.isFailed]

theorem not_isFinished {d : Dag} {v : VertexId} (ht : d.isTerminal v = false) :
    ¬ d.IsFinished v := by
  rintro ⟨x, hx, hstate⟩
  simp [isTerminal_eq hx, Element.isTerminal, hstate, Lifecycle.isTerminal] at ht

@[simp] theorem element?_modifyElement (d : Dag) (v w : VertexId) (f : Element → Element) :
    (d.modifyElement v f).element? w =
      if v = w then (d.element? w).map f else d.element? w := by
  simp only [element?, modifyElement, modifyVertex, List.getElem?_modify]
  split <;> cases d.vertices[w]? <;> simp

/-- The element of a vertex of a changed graph: the changed element, or another vertex's. -/
theorem element?_modifyElement_cases {d : Dag} {v w : VertexId} {f : Element → Element}
    {e : Element} (h : (d.modifyElement v f).element? w = some e) :
    (w = v ∧ ∃ old, d.element? v = some old ∧ e = f old) ∨ (w ≠ v ∧ d.element? w = some e) := by
  rw [element?_modifyElement] at h
  split at h
  · next heq =>
    subst heq
    obtain ⟨old, ho, rfl⟩ := Option.map_eq_some_iff.mp h
    exact .inl ⟨rfl, old, ho, rfl⟩
  · next hne => exact .inr ⟨fun h => hne h.symm, h⟩

theorem element?_modifyElement_inv {d : Dag} {v w : VertexId} {f : Element → Element}
    {el x : Element} (hv : d.element? v = some el)
    (hx : (d.modifyElement v f).element? w = some x) :
    (w = v ∧ x = f el) ∨ (w ≠ v ∧ d.element? w = some x) := by
  refine (element?_modifyElement_cases hx).imp_left ?_
  rintro ⟨rfl, old, hold, rfl⟩
  exact ⟨rfl, congrArg f (Option.some.inj (hold.symm.trans hv))⟩

/-- The way back: a vertex of the graph, in the changed graph. -/
theorem element?_modifyElement_of_some {d : Dag} {v w : VertexId} {el x : Element}
    (hv : d.element? v = some el) (hx : d.element? w = some x) (f : Element → Element) :
    (w = v ∧ x = el ∧ (d.modifyElement v f).element? w = some (f el)) ∨
      (w ≠ v ∧ (d.modifyElement v f).element? w = some x) := by
  by_cases hw : w = v
  · subst hw
    exact .inl ⟨rfl, Option.some.inj (hx.symm.trans hv), by simp [hv]⟩
  · exact .inr ⟨hw, by simp [Ne.symm hw, hx]⟩

@[simp] theorem edges_modifyElement (d : Dag) (v : VertexId) (f : Element → Element) :
    (d.modifyElement v f).edges = d.edges := rfl

@[simp] theorem frontier_modifyElement (d : Dag) (v : VertexId) (f : Element → Element) :
    (d.modifyElement v f).frontier = d.frontier := rfl

@[simp] theorem policy_modifyElement (d : Dag) (v : VertexId) (f : Element → Element) :
    (d.modifyElement v f).policy = d.policy := rfl

@[simp] theorem length_modifyElement (d : Dag) (v : VertexId) (f : Element → Element) :
    (d.modifyElement v f).vertices.length = d.vertices.length := by
  simp [modifyElement, modifyVertex]

@[simp] theorem parentVertices_modifyElement (d : Dag) (v w : VertexId) (f : Element → Element) :
    (d.modifyElement v f).parentVertices w = d.parentVertices w := by
  cases hw : d.vertices[w]? <;> by_cases h : v = w <;>
    simp [parentVertices, modifyElement, modifyVertex, hw, h]

@[simp] theorem childVertices_modifyElement (d : Dag) (v w : VertexId) (f : Element → Element) :
    (d.modifyElement v f).childVertices w = d.childVertices w := by
  cases hw : d.vertices[w]? <;> by_cases h : v = w <;>
    simp [childVertices, modifyElement, modifyVertex, hw, h]

theorem hasEdge_congr {d d' : Dag} (h : d'.edges = d.edges) : d'.HasEdge = d.HasEdge := by
  unfold HasEdge
  rw [h]

theorem Path.mono {d d' : Dag} (h : ∀ u v, d.HasEdge u v → d'.HasEdge u v) {u v : VertexId}
    (p : d.Path u v) : d'.Path u v :=
  Relation.TransGen.mono h _ _ p

/-- Where finished children have finished parents only, the same holds along every path. -/
theorem isFinished_of_path {d : Dag} (h : ∀ u v, d.HasEdge u v → d.IsFinished v → d.IsFinished u)
    {u w : VertexId} (p : d.Path u w) (hw : d.IsFinished w) : d.IsFinished u := by
  induction p with
  | single hedge => exact h u _ hedge hw
  | tail _ hedge ih => exact ih (h _ _ hedge hw)

/-! ### The three places where edges are kept -/

/-- The vertices know their edges, edges lead to later vertices, and the frontier lists vertices
in order. -/
structure Linked (d : Dag) : Prop where
  edge_lt : ∀ e ∈ d.edges, e.source < e.target ∧ e.target < d.vertices.length
  parent_lt : ∀ (v : VertexId) x, d.vertices[v]? = some x → ∀ e ∈ x.parents, e < d.edges.length
  child_lt : ∀ (v : VertexId) x, d.vertices[v]? = some x → ∀ e ∈ x.children, e < d.edges.length
  parents_eq : ∀ v, d.parentVertices v = (d.edges.filter (·.target = v)).map Edge.source
  children_eq : ∀ v, d.childVertices v = (d.edges.filter (·.source = v)).map Edge.target
  frontier_lt : ∀ v ∈ d.frontier, v < d.vertices.length
  frontier_sorted : d.frontier.Pairwise (· < ·)

theorem Linked.empty (p : DependencyPolicy) : Linked { policy := p } where
  edge_lt := by simp
  parent_lt := by simp
  child_lt := by simp
  parents_eq := by simp [parentVertices]
  children_eq := by simp [childVertices]
  frontier_lt := by simp
  frontier_sorted := .nil

namespace Linked

variable {d : Dag}

theorem mem_parentVertices (h : d.Linked) {u v : VertexId} :
    u ∈ d.parentVertices v ↔ d.HasEdge u v := by
  simp only [h.parents_eq, List.mem_map, List.mem_filter, decide_eq_true_eq, HasEdge]
  constructor
  · rintro ⟨e, ⟨he, ht⟩, hs⟩
    exact ⟨e, he, hs, ht⟩
  · rintro ⟨e, he, hs, ht⟩
    exact ⟨e, ⟨he, ht⟩, hs⟩

theorem mem_childVertices (h : d.Linked) {u v : VertexId} :
    v ∈ d.childVertices u ↔ d.HasEdge u v := by
  simp only [h.children_eq, List.mem_map, List.mem_filter, decide_eq_true_eq, HasEdge]
  constructor
  · rintro ⟨e, ⟨he, hs⟩, ht⟩
    exact ⟨e, he, hs, ht⟩
  · rintro ⟨e, he, hs, ht⟩
    exact ⟨e, ⟨he, hs⟩, ht⟩

theorem lt_of_hasEdge (h : d.Linked) {u v : VertexId} (he : d.HasEdge u v) :
    u < v ∧ v < d.vertices.length := by
  obtain ⟨e, he, rfl, rfl⟩ := he
  exact h.edge_lt e he

theorem lt_of_path (h : d.Linked) {u v : VertexId} (p : d.Path u v) :
    u < v ∧ v < d.vertices.length := by
  induction p with
  | single he => exact h.lt_of_hasEdge he
  | tail _ he ih =>
      have := h.lt_of_hasEdge he
      exact ⟨Nat.lt_trans ih.1 this.1, this.2⟩

/-- A vertex keeps its edges when its element changes. -/
theorem vertex_modifyElement {v w : VertexId} {f : Element → Element} {x : Vertex}
    (hx : (d.modifyElement v f).vertices[w]? = some x) :
    ∃ y, d.vertices[w]? = some y ∧ x.parents = y.parents ∧ x.children = y.children := by
  simp only [Dag.modifyElement, modifyVertex, List.getElem?_modify] at hx
  cases hw : d.vertices[w]? with
  | none => simp [hw] at hx
  | some y =>
      refine ⟨y, rfl, ?_⟩
      by_cases hvw : v = w <;> simp [hw, hvw] at hx <;> simp [← hx]

theorem modifyElement (h : d.Linked) (v : VertexId) (f : Element → Element) :
    (d.modifyElement v f).Linked where
  edge_lt := by simpa using h.edge_lt
  parent_lt := by
    intro w x hx e he
    obtain ⟨y, hy, hparents, -⟩ := vertex_modifyElement hx
    exact h.parent_lt w y hy e (hparents ▸ he)
  child_lt := by
    intro w x hx e he
    obtain ⟨y, hy, -, hchildren⟩ := vertex_modifyElement hx
    exact h.child_lt w y hy e (hchildren ▸ he)
  parents_eq := by simpa using h.parents_eq
  children_eq := by simpa using h.children_eq
  frontier_lt := by simpa using h.frontier_lt
  frontier_sorted := h.frontier_sorted

end Linked

/-! ### A new vertex, and one edge -/

@[simp] theorem edges_push (d : Dag) (e : Element) : (d.push e).edges = d.edges := rfl

@[simp] theorem frontier_push (d : Dag) (e : Element) : (d.push e).frontier = d.frontier := rfl

@[simp] theorem policy_push (d : Dag) (e : Element) : (d.push e).policy = d.policy := rfl

@[simp] theorem length_push (d : Dag) (e : Element) :
    (d.push e).vertices.length = d.vertices.length + 1 := by simp [push]

theorem getElem?_push {d : Dag} {e : Element} {v : VertexId} (hv : v ≠ d.vertices.length) :
    (d.push e).vertices[v]? = d.vertices[v]? := by
  simp only [push]
  rcases Nat.lt_or_gt_of_ne hv with hlt | hgt
  · rw [List.getElem?_append_left hlt]
  · rw [List.getElem?_eq_none (by simp; lia), List.getElem?_eq_none (by lia)]

theorem element?_push (d : Dag) (e : Element) (v : VertexId) :
    (d.push e).element? v =
      if v = d.vertices.length then some { e with id := some v } else d.element? v := by
  by_cases h : v = d.vertices.length
  · simp [element?, push, h]
  · simp only [element?, getElem?_push h, if_neg h]

/-- No edge has the next vertex as its end yet. -/
theorem filter_edges_eq_nil {d : Dag} {f : Edge → VertexId}
    (hf : ∀ edge ∈ d.edges, f edge < d.vertices.length) :
    d.edges.filter (fun edge => f edge = d.vertices.length) = [] := by
  refine List.filter_eq_nil_iff.mpr fun edge he => ?_
  simpa using Nat.ne_of_lt (hf edge he)

theorem Linked.push {d : Dag} (h : d.Linked) (e : Element) : (d.push e).Linked := by
  have hlast : ∃ x, (d.push e).vertices[d.vertices.length]? = some x ∧ x.parents = [] ∧
      x.children = [] := by
    simp [Dag.push]
  have hold : ∀ (v : VertexId) x, (d.push e).vertices[v]? = some x →
      d.vertices[v]? = some x ∨
        (v = d.vertices.length ∧ x.parents = [] ∧ x.children = []) := by
    intro v x hx
    by_cases hv : v = d.vertices.length
    · subst hv
      obtain ⟨y, hy, hedges⟩ := hlast
      obtain rfl : x = y := Option.some.inj (hx.symm.trans hy)
      exact .inr ⟨rfl, hedges⟩
    · exact .inl (by rwa [getElem?_push hv] at hx)
  refine ⟨fun edge he => ?_, fun v x hx edge he => ?_, fun v x hx edge he => ?_, fun v => ?_,
    fun v => ?_, fun v hv => ?_, h.frontier_sorted⟩
  · have := h.edge_lt edge he
    simp only [length_push]
    lia
  · rcases hold v x hx with hx | ⟨-, hp, -⟩
    · exact h.parent_lt v x hx edge he
    · simp [hp] at he
  · rcases hold v x hx with hx | ⟨-, -, hc⟩
    · exact h.child_lt v x hx edge he
    · simp [hc] at he
  · by_cases hv : v = d.vertices.length
    · subst hv
      obtain ⟨x, hx, hp, -⟩ := hlast
      have hnone := filter_edges_eq_nil fun edge he => (h.edge_lt edge he).2
      simp only [parentVertices, hx, hp, edges_push, hnone, List.filterMap_nil, List.map_nil]
    · have := h.parents_eq v
      simp only [parentVertices, getElem?_push hv, edges_push] at this ⊢
      exact this
  · by_cases hv : v = d.vertices.length
    · subst hv
      obtain ⟨x, hx, -, hc⟩ := hlast
      have hnone := filter_edges_eq_nil fun edge he =>
        Nat.lt_trans (h.edge_lt edge he).1 (h.edge_lt edge he).2
      simp only [childVertices, hx, hc, edges_push, hnone, List.filterMap_nil, List.map_nil]
    · have := h.children_eq v
      simp only [childVertices, getElem?_push hv, edges_push] at this ⊢
      exact this
  · have := h.frontier_lt v hv
    simp only [length_push]
    lia

@[simp] theorem length_insertEdge (d : Dag) (s t : VertexId) (deps : List Argument) :
    (d.insertEdge s t deps).vertices.length = d.vertices.length := by simp [insertEdge]

@[simp] theorem edges_insertEdge (d : Dag) (s t : VertexId) (deps : List Argument) :
    (d.insertEdge s t deps).edges = d.edges ++ [⟨d.edges.length, s, t, deps⟩] := rfl

@[simp] theorem frontier_insertEdge (d : Dag) (s t : VertexId) (deps : List Argument) :
    (d.insertEdge s t deps).frontier = d.frontier := rfl

@[simp] theorem policy_insertEdge (d : Dag) (s t : VertexId) (deps : List Argument) :
    (d.insertEdge s t deps).policy = d.policy := rfl

/-- What an added edge does to a vertex. -/
def withEdge (edge : EdgeId) (s t v : VertexId) (x : Vertex) : Vertex :=
  { x with
    children := if s = v then x.children ++ [edge] else x.children
    parents := if t = v then x.parents ++ [edge] else x.parents
    isStart := if t = v then false else x.isStart }

theorem getElem?_insertEdge (d : Dag) (s t v : VertexId) (deps : List Argument) :
    (d.insertEdge s t deps).vertices[v]? = d.vertices[v]?.map (withEdge d.edges.length s t v) := by
  simp only [insertEdge, List.getElem?_modify]
  cases d.vertices[v]? with
  | none => rfl
  | some x => by_cases hs : s = v <;> by_cases ht : t = v <;> simp [withEdge, hs, ht]

@[simp] theorem element?_insertEdge (d : Dag) (s t v : VertexId) (deps : List Argument) :
    (d.insertEdge s t deps).element? v = d.element? v := by
  simp only [element?, getElem?_insertEdge]
  cases d.vertices[v]? <;> rfl

/-- Positions of edges that exist mean the same edge when one more is added. -/
theorem filterMap_edges_append {β : Type} {edges : List Edge} {ids : List EdgeId} (edge : Edge)
    (f : Edge → β) (h : ∀ e ∈ ids, e < edges.length) :
    ids.filterMap (fun e => (edges ++ [edge])[e]?.map f) =
      ids.filterMap (fun e => edges[e]?.map f) := by
  induction ids with
  | nil => rfl
  | cons e rest ih =>
      rw [List.filterMap_cons, List.filterMap_cons, List.getElem?_append_left (h e (by simp)),
        ih fun e he => h e (List.mem_cons_of_mem _ he)]

section InsertEdge

variable {p : Prop} [Decidable p] {ids : List EdgeId}

/-- The positions of the edges of a vertex that may have got one more. -/
theorem lt_of_mem_ite {n e : EdgeId} (h : ∀ e ∈ ids, e < n)
    (he : e ∈ if p then ids ++ [n] else ids) : e < n + 1 := by
  split at he
  · rcases List.mem_append.mp he with he | he
    · exact Nat.lt_succ_of_lt (h e he)
    · rw [List.mem_singleton.mp he]
      exact Nat.lt_succ_self n
  · exact Nat.lt_succ_of_lt (h e he)

/-- The ends of the edges of a vertex that may have got one more. -/
theorem filterMap_ite {β : Type} {edges : List Edge} (edge : Edge) (f : Edge → β)
    (h : ∀ e ∈ ids, e < edges.length) :
    (if p then ids ++ [edges.length] else ids).filterMap
        (fun e => (edges ++ [edge])[e]?.map f) =
      ids.filterMap (fun e => edges[e]?.map f) ++ if p then [f edge] else [] := by
  split
  · simp [List.filterMap_append, filterMap_edges_append edge f h]
  · simp [filterMap_edges_append edge f h]

end InsertEdge

theorem Linked.insertEdge {d : Dag} (h : d.Linked) {s t : VertexId} (hst : s < t)
    (ht : t < d.vertices.length) (deps : List Argument) : (d.insertEdge s t deps).Linked := by
  have hvertex : ∀ {v : VertexId} {x}, (d.insertEdge s t deps).vertices[v]? = some x →
      ∃ y, d.vertices[v]? = some y ∧ withEdge d.edges.length s t v y = x := by
    intro v x hx
    rw [getElem?_insertEdge] at hx
    exact Option.map_eq_some_iff.mp hx
  refine ⟨fun edge he => ?_, fun v x hx edge he => ?_, fun v x hx edge he => ?_, fun v => ?_,
    fun v => ?_, by simpa using h.frontier_lt, h.frontier_sorted⟩
  · simp only [edges_insertEdge, List.mem_append, List.mem_singleton] at he
    rcases he with he | rfl
    · simpa using h.edge_lt edge he
    · simpa using ⟨hst, ht⟩
  · obtain ⟨y, hy, rfl⟩ := hvertex hx
    simpa using lt_of_mem_ite (h.parent_lt v y hy) he
  · obtain ⟨y, hy, rfl⟩ := hvertex hx
    simpa using lt_of_mem_ite (h.child_lt v y hy) he
  · have hp := h.parents_eq v
    simp only [parentVertices, getElem?_insertEdge, edges_insertEdge, List.filter_append,
      List.map_append] at hp ⊢
    rw [← hp]
    cases hv : d.vertices[v]? with
    | none =>
        have htv : t ≠ v := fun htv => by simp [← htv, ht] at hv
        simp [htv]
    | some x =>
        simp only [Option.map_some, withEdge, filterMap_ite _ Edge.source (h.parent_lt v x hv)]
        by_cases htv : t = v <;> simp [htv]
  · have hc := h.children_eq v
    simp only [childVertices, getElem?_insertEdge, edges_insertEdge, List.filter_append,
      List.map_append] at hc ⊢
    rw [← hc]
    cases hv : d.vertices[v]? with
    | none =>
        have hsv : s ≠ v := fun hsv => by simp [← hsv, Nat.lt_trans hst ht] at hv
        simp [hsv]
    | some x =>
        simp only [Option.map_some, withEdge, filterMap_ite _ Edge.target (h.child_lt v x hv)]
        by_cases hsv : s = v <;> simp [hsv]

/-! ### Appending -/

/-- The accesses of vertex `v` that a later element has to wait for. -/
def dependenciesOn (d : Dag) (later : Element) (v : VertexId) : List Argument :=
  match d.element? v with
  | some e => e.dependencies d.policy later
  | none => []

/-- The edges from those of a list of vertices that a later element depends on, numbered from
`id` on. -/
def edgesTo (d : Dag) (later : Element) (target : VertexId) : EdgeId → List VertexId → List Edge
  | _, [] => []
  | id, s :: rest =>
      if (d.dependenciesOn later s).isEmpty then d.edgesTo later target id rest
      else ⟨id, s, target, d.dependenciesOn later s⟩ :: d.edgesTo later target (id + 1) rest

theorem edgesTo_congr {d d' : Dag} {later later' : Element} {target : VertexId} {id : EdgeId}
    {l : List VertexId} (h : ∀ v ∈ l, d'.dependenciesOn later' v = d.dependenciesOn later v) :
    d'.edgesTo later' target id l = d.edgesTo later target id l := by
  induction l generalizing id with
  | nil => rfl
  | cons s rest ih =>
      have hrest : ∀ v ∈ rest, d'.dependenciesOn later' v = d.dependenciesOn later v :=
        fun v hv => h v (List.mem_cons_of_mem _ hv)
      simp only [edgesTo, h s List.mem_cons_self, ih hrest]

theorem mem_edgesTo {d : Dag} {later : Element} {target : VertexId} {id : EdgeId}
    {l : List VertexId} {edge : Edge} (h : edge ∈ d.edgesTo later target id l) :
    edge.source ∈ l ∧ edge.target = target ∧
      edge.dependencies = d.dependenciesOn later edge.source ∧ edge.dependencies ≠ [] := by
  induction l generalizing id with
  | nil => simp [edgesTo] at h
  | cons s rest ih =>
      simp only [edgesTo] at h
      split at h
      · obtain ⟨hs, h⟩ := ih h
        exact ⟨List.mem_cons_of_mem _ hs, h⟩
      · next hne =>
        rcases List.mem_cons.mp h with rfl | h
        · exact ⟨List.mem_cons_self, rfl, rfl, by simpa using hne⟩
        · obtain ⟨hs, h⟩ := ih h
          exact ⟨List.mem_cons_of_mem _ hs, h⟩

/-- The new edges come in the order of the vertices they start from. -/
theorem sources_edgesTo_sublist (d : Dag) (later : Element) (target : VertexId) (id : EdgeId)
    (l : List VertexId) : ((d.edgesTo later target id l).map Edge.source).Sublist l := by
  induction l generalizing id with
  | nil => simp [edgesTo]
  | cons s rest ih =>
      simp only [edgesTo]
      split
      · exact (ih _).cons _
      · exact (ih _).cons_cons s

theorem exists_mem_edgesTo {d : Dag} {later : Element} {target : VertexId} {id : EdgeId}
    {l : List VertexId} {s : VertexId} (hs : s ∈ l) (h : d.dependenciesOn later s ≠ []) :
    ∃ edge ∈ d.edgesTo later target id l, edge.source = s ∧ edge.target = target := by
  induction l generalizing id with
  | nil => cases hs
  | cons t rest ih =>
      simp only [edgesTo]
      rcases List.mem_cons.mp hs with rfl | hs
      · rw [if_neg (by simpa using h)]
        exact ⟨_, List.mem_cons_self, rfl, rfl⟩
      · split
        · exact ih hs
        · obtain ⟨edge, he, h⟩ := @ih (id + 1) hs
          exact ⟨edge, List.mem_cons_of_mem _ he, h⟩

/-- `d'` is `d` with `target`, which is `later`, connected to the vertices of a list. -/
structure Connected (d : Dag) (later : Element) (target : VertexId) (l : List VertexId)
    (d' : Dag) : Prop where
  linked : d'.Linked
  policy : d'.policy = d.policy
  frontier : d'.frontier = d.frontier
  length : d'.vertices.length = d.vertices.length
  element? : ∀ v, d'.element? v =
    if v ∈ l then (d.element? v).map fun e => e.supersededBy d.policy later else d.element? v
  edges : d'.edges = d.edges ++ d.edgesTo later target d.edges.length l

/-- Connecting with one vertex: its accesses are superseded, and an edge is added if the later
element depends on it. -/
theorem connect_eq {d : Dag} {frontier : List VertexId} {target s : VertexId} {later : Element}
    (h : d.Linked) (hl : d.element? target = some later) (hlt : s < target) (hmem : s ∈ frontier)
    (hnew : ¬ d.HasEdge s target) :
    ∃ d', d.connect frontier target s = .ok d' ∧ d.Connected later target [s] d' := by
  have htarget := lt_of_element? hl
  obtain ⟨earlier, he⟩ := exists_element? (Nat.lt_trans hlt htarget)
  have hdeps : d.dependenciesOn later s = earlier.dependencies d.policy later := by
    simp [dependenciesOn, he]
  have hd₁ := h.modifyElement s fun e => e.supersededBy d.policy later
  simp only [connect, he, hl]
  split
  · next hempty =>
    refine ⟨_, rfl, hd₁, rfl, rfl, by simp, fun v => ?_, ?_⟩
    · by_cases hv : s = v <;> simp [hv, eq_comm]
    · simp [edgesTo, hdeps, List.isEmpty_iff.mp hempty]
  · next hne =>
    have hp : s ∉ (d.modifyElement s fun e => e.supersededBy d.policy later).parentVertices
        target := by
      rw [parentVertices_modifyElement, h.mem_parentVertices]
      exact hnew
    have hadd : (d.modifyElement s fun e => e.supersededBy d.policy later).addEdge frontier s
        target (earlier.dependencies d.policy later) =
        .ok ((d.modifyElement s fun e => e.supersededBy d.policy later).insertEdge s target
          (earlier.dependencies d.policy later)) := by
      unfold addEdge
      rw [if_neg (by simpa using hlt), if_neg (by simpa using hmem), if_neg hp]
    refine ⟨_, hadd, hd₁.insertEdge hlt (by simpa using htarget) _, rfl, rfl, by simp,
      fun v => ?_, ?_⟩
    · by_cases hv : s = v <;> simp [hv, eq_comm]
    · simpa [edgesTo, hdeps] using hne

/-- Connecting with a list of vertices of the frontier, in order. -/
theorem connectAll_eq {d : Dag} {frontier l : List VertexId} {target : VertexId} {later : Element}
    (h : d.Linked) (hl : d.element? target = some later) (hlt : ∀ s ∈ l, s < target)
    (hmem : ∀ s ∈ l, s ∈ frontier) (hsorted : l.Pairwise (· < ·))
    (hnew : ∀ s ∈ l, ¬ d.HasEdge s target) :
    ∃ d', connectAll frontier target l d = .ok d' ∧ d.Connected later target l d' := by
  induction l generalizing d with
  | nil => exact ⟨d, rfl, h, rfl, rfl, rfl, by simp, by simp [edgesTo]⟩
  | cons s rest ih =>
      obtain ⟨hs, hrest⟩ := List.pairwise_cons.mp hsorted
      have hself : s ∉ rest := fun hin => Nat.lt_irrefl s (hs s hin)
      obtain ⟨d₁, hd₁, h₁⟩ := connect_eq h hl (hlt s List.mem_cons_self)
        (hmem s List.mem_cons_self) (hnew s List.mem_cons_self)
      have hne : target ≠ s := Nat.ne_of_gt (hlt s List.mem_cons_self)
      have hl₁ : d₁.element? target = some later := by rw [h₁.element?]; simpa [hne] using hl
      have hnew₁ : ∀ t ∈ rest, ¬ d₁.HasEdge t target := by
        rintro t ht ⟨edge, hedge, hsrc, htgt⟩
        rw [h₁.edges] at hedge
        rcases List.mem_append.mp hedge with hedge | hedge
        · exact hnew t (List.mem_cons_of_mem _ ht) ⟨edge, hedge, hsrc, htgt⟩
        · have := (mem_edgesTo hedge).1
          rw [List.mem_singleton, hsrc] at this
          exact hself (this ▸ ht)
      obtain ⟨d', hd', h'⟩ := ih h₁.linked hl₁ (fun t ht => hlt t (List.mem_cons_of_mem _ ht))
        (fun t ht => hmem t (List.mem_cons_of_mem _ ht)) hrest hnew₁
      have hdeps : ∀ t ∈ rest, d₁.dependenciesOn later t = d.dependenciesOn later t := by
        intro t ht
        have : t ≠ s := fun heq => hself (heq ▸ ht)
        simp [dependenciesOn, h₁.element?, h₁.policy, this]
      refine ⟨d', by simp only [connectAll, hd₁, hd'], h'.linked, h'.policy.trans h₁.policy,
        h'.frontier.trans h₁.frontier, h'.length.trans h₁.length, fun v => ?_, ?_⟩
      · rw [h'.element?, h₁.element?, h₁.policy]
        by_cases hv : v = s
        · simp [hv, hself]
        · simp [hv]
      · rw [h'.edges, h₁.edges, edgesTo_congr hdeps]
        by_cases hempty : (d.dependenciesOn later s).isEmpty <;> simp [edgesTo, hempty]

/-- `d'` is `d` with `e` appended. -/
structure Appended (d : Dag) (e : Element) (d' : Dag) : Prop where
  linked : d'.Linked
  policy : d'.policy = d.policy
  length : d'.vertices.length = d.vertices.length + 1
  element?_new : d'.element? d.vertices.length = some { e with id := some d.vertices.length }
  element?_old : ∀ v, v ≠ d.vertices.length → d'.element? v =
    if v ∈ d.frontier then (d.element? v).map fun x => x.supersededBy d.policy e
    else d.element? v
  edges : d'.edges = d.edges ++ d.edgesTo e d.vertices.length d.edges.length d.frontier
  frontier : d'.frontier = (d.frontier ++ [d.vertices.length]).filter d'.isFrontier

/-- **An append of an element that is not part of a graph succeeds.**  The new vertex has an edge
from each vertex of the frontier that it depends on, and the frontier is rebuilt. -/
theorem append_eq {d : Dag} {e : Element} (h : d.Linked) (he : e.id = none) :
    ∃ d', d.append e = .ok d' ∧ d.Appended e d' := by
  have hpush := h.push e
  have hnew : ∀ s ∈ d.frontier, ¬ (d.push e).HasEdge s d.vertices.length := by
    rintro s - ⟨edge, hedge, -, ht⟩
    have := (h.edge_lt edge hedge).2
    exact Nat.lt_irrefl _ (ht ▸ this)
  obtain ⟨d', hd', h'⟩ := connectAll_eq hpush (by rw [element?_push, if_pos rfl]) h.frontier_lt
    (fun _ hs => hs) h.frontier_sorted hnew
  have hdeps : ∀ v ∈ d.frontier, (d.push e).dependenciesOn
      { e with id := some d.vertices.length } v = d.dependenciesOn e v := by
    intro v hv
    have : v ≠ d.vertices.length := Nat.ne_of_lt (h.frontier_lt v hv)
    simp only [dependenciesOn, element?_push, if_neg this]
    rfl
  have hlast : d.vertices.length ∉ d.frontier := fun hin =>
    Nat.lt_irrefl _ (h.frontier_lt _ hin)
  refine ⟨{ d' with frontier := (d.frontier ++ [d.vertices.length]).filter d'.isFrontier },
    by simp only [append, he, Option.isSome_none, Bool.false_eq_true, if_false, hd'],
    ?_, h'.policy, by simpa using h'.length, ?_, fun v hv => ?_, ?_, rfl⟩
  · refine ⟨h'.linked.edge_lt, h'.linked.parent_lt, h'.linked.child_lt, h'.linked.parents_eq,
      h'.linked.children_eq, fun v hv => ?_, ?_⟩
    · have hlen : d'.vertices.length = d.vertices.length + 1 := by simpa using h'.length
      rcases List.mem_append.mp (List.mem_filter.mp hv).1 with hv | hv
      · have := h.frontier_lt v hv
        simp only [hlen]
        lia
      · rw [List.mem_singleton.mp hv]
        simp only [hlen]
        lia
    · refine List.Pairwise.filter _ (List.pairwise_append.mpr
        ⟨h.frontier_sorted, List.pairwise_singleton _ _, fun a ha b hb => ?_⟩)
      rw [List.mem_singleton.mp hb]
      exact h.frontier_lt a ha
  · exact (h'.element? _).trans (by rw [if_neg hlast, element?_push, if_pos rfl])
  · exact (h'.element? v).trans (by rw [element?_push, if_neg hv]; rfl)
  · exact h'.edges.trans (congrArg _ (edgesTo_congr hdeps))

/-- **What connecting with one vertex comes to** where no rule is breached: its accesses are
superseded, and if an edge is added, it leads to a later vertex and there was none. -/
theorem connect_cases {d d' : Dag} {frontier : List VertexId} {target s : VertexId}
    (h : d.connect frontier target s = .ok d') :
    ∃ later, d.element? target = some later ∧
      (d' = d.modifyElement s (fun e => e.supersededBy d.policy later) ∨
        ∃ deps, deps ≠ [] ∧ s < target ∧ s ∉ d.parentVertices target ∧
          d' = (d.modifyElement s fun e => e.supersededBy d.policy later).insertEdge s target
            deps) := by
  unfold connect at h
  split at h
  · next earlier later _ hl =>
    refine ⟨later, hl, ?_⟩
    dsimp only at h
    split at h
    · exact .inl (Except.ok.inj h).symm
    · next hne =>
      unfold addEdge at h
      split at h
      · cases h
      next hlt =>
      split at h
      · cases h
      split at h
      · cases h
      next hnew =>
      rw [parentVertices_modifyElement] at hnew
      exact .inr ⟨_, by simpa using hne, not_not.mp hlt, hnew, (Except.ok.inj h).symm⟩
  · cases h
  · cases h

/-- What connecting with one vertex keeps, connecting with many keeps. -/
theorem connectAll_invariant {I : Dag → Prop} {frontier l : List VertexId} {target : VertexId}
    {d d' : Dag} (h : connectAll frontier target l d = .ok d') (hd : I d)
    (hconnect : ∀ d₁ d₂ s, I d₁ → d₁.connect frontier target s = .ok d₂ → I d₂) : I d' := by
  induction l generalizing d with
  | nil => exact Except.ok.inj h ▸ hd
  | cons s rest ih =>
      simp only [connectAll] at h
      split at h
      · next d₁ hd₁ => exact ih h (hconnect d d₁ s hd hd₁)
      · cases h

/-- What holds of the graph with the new vertex, and is kept when that is connected with a vertex
and when the frontier changes, holds after an append. -/
theorem append_invariant {I : Dag → Prop} {d d' : Dag} {e : Element} (h : d.append e = .ok d')
    (hpush : I (d.push e))
    (hconnect : ∀ d₁ d₂ s, I d₁ → d₁.connect d.frontier d.vertices.length s = .ok d₂ → I d₂)
    (hfrontier : ∀ d₁ frontier, I d₁ → I { d₁ with frontier }) : I d' := by
  unfold append at h
  dsimp only at h
  split at h
  · cases h
  split at h
  · next d₁ hd₁ =>
    obtain rfl := Except.ok.inj h
    exact hfrontier _ _ (connectAll_invariant hd₁ hpush hconnect)
  · cases h

namespace Appended

variable {d d' : Dag} {e : Element}

/-- The edges of the new graph are the old ones, and those from the vertices of the frontier that
the new element depends on. -/
theorem hasEdge_iff (h : d.Appended e d') {u v : VertexId} :
    d'.HasEdge u v ↔ d.HasEdge u v ∨
      (v = d.vertices.length ∧ u ∈ d.frontier ∧ d.dependenciesOn e u ≠ []) := by
  simp only [HasEdge, h.edges, List.mem_append]
  constructor
  · rintro ⟨edge, hold | hnew, rfl, rfl⟩
    · exact .inl ⟨edge, hold, rfl, rfl⟩
    · obtain ⟨hs, ht, hdeps, hne⟩ := mem_edgesTo hnew
      exact .inr ⟨ht, hs, hdeps ▸ hne⟩
  · rintro (⟨edge, hold, rfl, rfl⟩ | ⟨rfl, hu, hne⟩)
    · exact ⟨edge, .inl hold, rfl, rfl⟩
    · obtain ⟨edge, hedge, hs, ht⟩ := exists_mem_edgesTo hu hne
      exact ⟨edge, .inr hedge, hs, ht⟩

/-- Old vertices get no new parents. -/
theorem hasEdge_old (h : d.Appended e d') {u v : VertexId} (hv : v ≠ d.vertices.length) :
    d'.HasEdge u v ↔ d.HasEdge u v := by
  simp [h.hasEdge_iff, hv]

theorem hasEdge_mono (h : d.Appended e d') {u v : VertexId} (huv : d.HasEdge u v) :
    d'.HasEdge u v :=
  h.hasEdge_iff.mpr (.inl huv)

/-- Of an old element, only the active accesses change. -/
theorem element?_of_old (h : d.Appended e d') {v : VertexId} {el : Element}
    (hv : d.element? v = some el) : ∃ active, d'.element? v = some { el with active } := by
  have hne : v ≠ d.vertices.length := Nat.ne_of_lt (lt_of_element? hv)
  rw [h.element?_old v hne, hv]
  split
  · exact ⟨_, rfl⟩
  · exact ⟨el.active, rfl⟩

/-- An element of the new graph is the new one, or an old one with other active accesses. -/
theorem element?_cases (h : d.Appended e d') {v : VertexId} {el' : Element}
    (hv : d'.element? v = some el') :
    (v = d.vertices.length ∧ el' = { e with id := some d.vertices.length }) ∨
      (v ≠ d.vertices.length ∧ ∃ el active, d.element? v = some el ∧ el' = { el with active }) := by
  by_cases hn : v = d.vertices.length
  · subst hn
    rw [h.element?_new] at hv
    exact .inl ⟨rfl, (Option.some.inj hv).symm⟩
  · have hlt := lt_of_element? hv
    rw [h.length] at hlt
    obtain ⟨el, hel⟩ := exists_element? (d := d) (v := v) (by lia)
    obtain ⟨active, hel'⟩ := h.element?_of_old hel
    rw [hv] at hel'
    exact .inr ⟨hn, el, active, hel, Option.some.inj hel'⟩

/-- No vertex comes to belong to the frontier because another one is appended. -/
theorem isFrontier_old (h : d.Appended e d') {v : VertexId} (hv : v ≠ d.vertices.length)
    (hf : d'.isFrontier v = true) : d.isFrontier v = true := by
  obtain ⟨el', hel', hactive, ht⟩ := isFrontier_iff.mp hf
  rw [isTerminal_eq hel'] at ht
  rw [h.element?_old v hv] at hel'
  split at hel'
  · -- the new element may have taken accesses over
    obtain ⟨el, hel, rfl⟩ := Option.map_eq_some_iff.mp hel'
    refine isFrontier_iff.mpr ⟨el, hel, fun hnil => hactive ?_, (isTerminal_eq hel).trans ht⟩
    simp [Element.supersededBy, hnil]
  · exact isFrontier_iff.mpr ⟨el', hel', hactive, (isTerminal_eq hel').trans ht⟩

end Appended

end LaunchGraph.Dag
