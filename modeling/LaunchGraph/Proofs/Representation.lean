import Mathlib.Algebra.BigOperators.Intervals
import LaunchGraph.Proofs.Graph

/-!
# The representation of a graph

A graph keeps its vertices and its edges in two lists, where each stands at its own number, and
every vertex lists the numbers of the edges that end and that start there.  `Dag.Consistent` says
that all of this agrees: the numbers are right, the two lists of a vertex are what the list of
edges says, in the same order, and no two vertices are joined twice.

Each of the small changes that graphs are made of keeps a graph consistent (`Consistent.push`,
`Consistent.modifyElement`, `Consistent.insertEdge`), so it is consistent at every moment of an
append, while the new vertex is being connected (`Consistent.connectAll`).  The checks of an append
therefore never fail, and none of its look-ups goes astray, however appends and changes to elements
are interleaved (`edited_consistent`).
-/

namespace LaunchGraph

/-- A change to an element that leaves it the vertex it is. -/
structure Element.Update where
  apply : Element → Element
  id_apply : ∀ e, (apply e).id = e.id

namespace Dag

/-- The list of vertices, the list of edges and the lists of edges at each vertex agree. -/
structure Consistent (d : Dag) : Prop where
  vertex_id : ∀ (v : VertexId) x, d.vertices[v]? = some x → x.id = v ∧ x.element.id = some v
  edge_id : ∀ (n : EdgeId) e, d.edges[n]? = some e → e.id = n
  edge_lt : ∀ e ∈ d.edges, e.source < e.target ∧ e.target < d.vertices.length
  dependencies_ne_nil : ∀ e ∈ d.edges, e.dependencies ≠ []
  /-- No two edges have the same ends. -/
  simple : (d.edges.map fun e => (e.source, e.target)).Nodup
  parents_eq : ∀ (v : VertexId) x, d.vertices[v]? = some x →
    x.parents = (d.edges.filter (·.target = v)).map Edge.id
  children_eq : ∀ (v : VertexId) x, d.vertices[v]? = some x →
    x.children = (d.edges.filter (·.source = v)).map Edge.id
  isStart_eq : ∀ (v : VertexId) x, d.vertices[v]? = some x → x.isStart = x.parents.isEmpty

namespace Consistent

variable {d d' : Dag}

theorem empty (p : DependencyPolicy) : Consistent { policy := p } := by
  constructor <;> simp

/-! ### What a consistent graph looks like -/

/-- An edge stands at the position that is its number. -/
theorem getElem?_id (h : d.Consistent) {e : Edge} (he : e ∈ d.edges) : d.edges[e.id]? = some e := by
  obtain ⟨n, hn⟩ := List.mem_iff_getElem?.mp he
  rwa [h.edge_id n e hn]

theorem ids_eq (h : d.Consistent) : d.edges.map Edge.id = List.range d.edges.length := by
  refine List.ext_getElem? fun n => ?_
  rw [List.getElem?_map]
  cases hn : d.edges[n]? with
  | none => simpa [eq_comm] using List.getElem?_eq_none_iff.mp hn
  | some e => simp [h.edge_id n e hn, List.getElem?_range (List.getElem?_eq_some_iff.mp hn).1]

/-- The numbers of some of the edges, in the order of the edges, are increasing. -/
theorem sorted_ids (h : d.Consistent) (p : Edge → Bool) :
    ((d.edges.filter p).map Edge.id).Pairwise (· < ·) := by
  refine List.Pairwise.sublist (List.filter_sublist.map Edge.id) ?_
  rw [h.ids_eq]
  exact List.pairwise_lt_range

/-- The number of an edge stands once among the numbers of the edges with a property, if it has
the property, and else not at all. -/
theorem count_ids (h : d.Consistent) (p : Edge → Bool) {e : Edge} (he : e ∈ d.edges) :
    ((d.edges.filter p).map Edge.id).count e.id = if p e then 1 else 0 := by
  have hnodup : ((d.edges.filter p).map Edge.id).Nodup :=
    (h.sorted_ids p).imp fun hlt => Nat.ne_of_lt hlt
  rw [hnodup.count]
  refine if_congr ?_ rfl rfl
  rw [List.mem_map]
  constructor
  · rintro ⟨e', he', hid⟩
    obtain ⟨hmem, hp⟩ := List.mem_filter.mp he'
    have heq := h.getElem?_id hmem
    rw [hid, h.getElem?_id he] at heq
    exact Option.some.inj heq ▸ hp
  · exact fun hp => ⟨e, List.mem_filter.mpr ⟨he, hp⟩, rfl⟩

theorem lt_of_mem_ids (h : d.Consistent) {p : Edge → Bool} {n : EdgeId}
    (hn : n ∈ (d.edges.filter p).map Edge.id) : n < d.edges.length := by
  obtain ⟨e, he, rfl⟩ := List.mem_map.mp hn
  exact (List.getElem?_eq_some_iff.mp (h.getElem?_id (List.mem_filter.mp he).1)).1

/-- The parents of a vertex are the sources of the edges that end there. -/
theorem mem_parentVertices (h : d.Consistent) {u v : VertexId} (hv : v < d.vertices.length) :
    u ∈ d.parentVertices v ↔ d.HasEdge u v := by
  have hx : d.vertices[v]? = some d.vertices[v] := by simp [hv]
  simp only [parentVertices, hx, h.parents_eq v _ hx, List.mem_filterMap, List.mem_map,
    List.mem_filter, decide_eq_true_eq, HasEdge]
  constructor
  · rintro ⟨_, ⟨e, ⟨he, ht⟩, rfl⟩, hs⟩
    rw [h.getElem?_id he] at hs
    exact ⟨e, he, Option.some.inj hs, ht⟩
  · rintro ⟨e, he, hs, ht⟩
    exact ⟨e.id, ⟨e, ⟨he, ht⟩, rfl⟩, by simp [h.getElem?_id he, hs]⟩

/-- Among `n` vertices there are at most as many edges as there are pairs. -/
theorem length_edges_le (h : d.Consistent) :
    d.edges.length ≤ d.vertices.length * (d.vertices.length - 1) / 2 := by
  let pair : VertexId × VertexId → (_ : VertexId) × VertexId := fun p => ⟨p.2, p.1⟩
  let pairs := ((d.edges.map fun e => (e.source, e.target)).map pair).toFinset
  have hinjective : Function.Injective pair := by
    rintro ⟨a, b⟩ ⟨a', b'⟩ heq
    cases heq
    rfl
  have hcard : pairs.card = d.edges.length := by
    rw [List.toFinset_card_of_nodup (h.simple.map hinjective)]
    simp
  have hsub : pairs ⊆ (Finset.range d.vertices.length).sigma fun v => Finset.range v := by
    intro p hp
    obtain ⟨e, he, rfl⟩ : ∃ e ∈ d.edges, pair (e.source, e.target) = p := by
      simpa [pairs] using hp
    simpa [pair] using ⟨(h.edge_lt e he).2, (h.edge_lt e he).1⟩
  calc d.edges.length = pairs.card := hcard.symm
    _ ≤ ((Finset.range d.vertices.length).sigma fun v => Finset.range v).card :=
        Finset.card_le_card hsub
    _ = d.vertices.length * (d.vertices.length - 1) / 2 := by
        simp only [Finset.card_sigma, Finset.card_range, Finset.sum_range_id]

/-! ### What keeps a graph consistent -/

theorem modifyElement (h : d.Consistent) (v : VertexId) {g : Element → Element}
    (hg : ∀ e, (g e).id = e.id) : (d.modifyElement v g).Consistent := by
  have hold : ∀ {w : VertexId} {x}, (d.modifyElement v g).vertices[w]? = some x →
      ∃ y, d.vertices[w]? = some y ∧ x.id = y.id ∧ x.element.id = y.element.id ∧
        x.parents = y.parents ∧ x.children = y.children ∧ x.isStart = y.isStart := by
    intro w x hx
    simp only [Dag.modifyElement, modifyVertex, List.getElem?_modify] at hx
    cases hw : d.vertices[w]? with
    | none => simp [hw] at hx
    | some y =>
        refine ⟨y, rfl, ?_⟩
        by_cases hvw : v = w <;> simp [hw, hvw] at hx <;> simp [← hx, hg]
  refine ⟨fun w x hx => ?_, h.edge_id, by simpa using h.edge_lt, h.dependencies_ne_nil, h.simple,
    fun w x hx => ?_, fun w x hx => ?_, fun w x hx => ?_⟩ <;>
    obtain ⟨y, hy, hid, helement, hparents, hchildren, hstart⟩ := hold hx
  · rw [hid, helement]
    exact h.vertex_id w y hy
  · exact hparents.trans (h.parents_eq w y hy)
  · exact hchildren.trans (h.children_eq w y hy)
  · rw [hstart, hparents]
    exact h.isStart_eq w y hy

theorem push (h : d.Consistent) (e : Element) : (d.push e).Consistent := by
  have hnone : ∀ f : Edge → VertexId, (∀ edge ∈ d.edges, f edge < d.vertices.length) →
      d.edges.filter (fun edge => f edge = d.vertices.length) = [] := fun _ => filter_edges_eq_nil
  have hcases : ∀ {v : VertexId} {x}, (d.push e).vertices[v]? = some x → d.vertices[v]? = some x ∨
      (v = d.vertices.length ∧ x = { id := v, element := { e with id := some v } }) := by
    intro v x hx
    by_cases hv : v = d.vertices.length
    · subst hv
      simp only [Dag.push, List.getElem?_concat_length, Option.some.injEq] at hx
      exact .inr ⟨rfl, hx.symm⟩
    · exact .inl (by rwa [getElem?_push hv] at hx)
  refine ⟨fun v x hx => ?_, h.edge_id, fun edge he => ?_, h.dependencies_ne_nil, h.simple,
    fun v x hx => ?_, fun v x hx => ?_, fun v x hx => ?_⟩
  · rcases hcases hx with hx | ⟨rfl, rfl⟩
    · exact h.vertex_id v x hx
    · exact ⟨rfl, rfl⟩
  · have hlt := h.edge_lt edge he
    exact ⟨hlt.1, by simpa using Nat.lt_succ_of_lt hlt.2⟩
  · rcases hcases hx with hx | ⟨rfl, rfl⟩
    · exact h.parents_eq v x hx
    · rw [edges_push, hnone Edge.target fun edge he => (h.edge_lt edge he).2]
      rfl
  · rcases hcases hx with hx | ⟨rfl, rfl⟩
    · exact h.children_eq v x hx
    · rw [edges_push, hnone Edge.source fun edge he =>
        Nat.lt_trans (h.edge_lt edge he).1 (h.edge_lt edge he).2]
      rfl
  · rcases hcases hx with hx | ⟨rfl, rfl⟩
    · exact h.isStart_eq v x hx
    · rfl

theorem insertEdge (h : d.Consistent) {s t : VertexId} (hst : s < t)
    (ht : t < d.vertices.length) (hnew : ¬ d.HasEdge s t) {deps : List Argument}
    (hdeps : deps ≠ []) : (d.insertEdge s t deps).Consistent := by
  have hvertex : ∀ {v : VertexId} {x}, (d.insertEdge s t deps).vertices[v]? = some x →
      ∃ y, d.vertices[v]? = some y ∧ withEdge d.edges.length s t v y = x := by
    intro v x hx
    rw [getElem?_insertEdge] at hx
    exact Option.map_eq_some_iff.mp hx
  refine ⟨fun v x hx => ?_, fun n e he => ?_, fun e he => ?_, fun e he => ?_, ?_,
    fun v x hx => ?_, fun v x hx => ?_, fun v x hx => ?_⟩
  · obtain ⟨y, hy, rfl⟩ := hvertex hx
    exact h.vertex_id v y hy
  · rw [edges_insertEdge] at he
    rcases Nat.lt_trichotomy n d.edges.length with hlt | rfl | hgt
    · rw [List.getElem?_append_left hlt] at he
      exact h.edge_id n e he
    · rw [List.getElem?_concat_length] at he
      rw [← Option.some.inj he]
    · rw [List.getElem?_eq_none (by simpa using hgt)] at he
      cases he
  · rw [edges_insertEdge, List.mem_append, List.mem_singleton] at he
    rw [length_insertEdge]
    rcases he with he | rfl
    · exact h.edge_lt e he
    · exact ⟨hst, ht⟩
  · rw [edges_insertEdge, List.mem_append, List.mem_singleton] at he
    rcases he with he | rfl
    · exact h.dependencies_ne_nil e he
    · exact hdeps
  · rw [hasEdge_iff_mem] at hnew
    rw [edges_insertEdge, List.map_append]
    exact h.simple.append (List.nodup_singleton _) (by simpa using hnew)
  · obtain ⟨y, hy, rfl⟩ := hvertex hx
    rw [edges_insertEdge, List.filter_append, List.map_append, ← h.parents_eq v y hy]
    by_cases htv : t = v <;> simp [withEdge, htv]
  · obtain ⟨y, hy, rfl⟩ := hvertex hx
    rw [edges_insertEdge, List.filter_append, List.map_append, ← h.children_eq v y hy]
    by_cases hsv : s = v <;> simp [withEdge, hsv]
  · obtain ⟨y, hy, rfl⟩ := hvertex hx
    by_cases htv : t = v <;> simp [withEdge, htv, h.isStart_eq v y hy]

/-- Connecting the newest vertex with another one, where that breaches no rule. -/
theorem connect (h : d.Consistent) {frontier : List VertexId} {s t : VertexId}
    (hc : d.connect frontier t s = .ok d') : d'.Consistent := by
  obtain ⟨later, hl, hcases⟩ := connect_cases hc
  have hd₁ := h.modifyElement s (g := fun e => e.supersededBy d.policy later) fun _ => rfl
  rcases hcases with rfl | ⟨deps, hdeps, hst, hnew, rfl⟩
  · exact hd₁
  · have ht := lt_of_element? hl
    rw [h.mem_parentVertices ht] at hnew
    exact hd₁.insertEdge hst (by simpa using ht) hnew hdeps

theorem connectAll (h : d.Consistent) {frontier l : List VertexId} {t : VertexId}
    (hc : connectAll frontier t l d = .ok d') : d'.Consistent :=
  connectAll_invariant hc h fun _ _ _ h₁ hc => h₁.connect hc

theorem append (h : d.Consistent) {e : Element} (ha : d.append e = .ok d') : d'.Consistent :=
  append_invariant ha (h.push e) (fun _ _ _ h₁ hc => h₁.connect hc) fun _ _ h₁ =>
    ⟨h₁.vertex_id, h₁.edge_id, h₁.edge_lt, h₁.dependencies_ne_nil, h₁.simple, h₁.parents_eq,
      h₁.children_eq, h₁.isStart_eq⟩

end Consistent

/-- Vertex `v`, which is `x`, lists the edges that end there and those that start there, each once
and in order, and no others. -/
structure Indexes (d : Dag) (v : VertexId) (x : Vertex) : Prop where
  parents_sorted : x.parents.Pairwise (· < ·)
  children_sorted : x.children.Pairwise (· < ·)
  parents_lt : ∀ n ∈ x.parents, n < d.edges.length
  children_lt : ∀ n ∈ x.children, n < d.edges.length
  count_parents : ∀ e ∈ d.edges, x.parents.count e.id = if e.target = v then 1 else 0
  count_children : ∀ e ∈ d.edges, x.children.count e.id = if e.source = v then 1 else 0
  isStart : x.isStart = true ↔ x.parents = []

theorem Consistent.indexes {d : Dag} (h : d.Consistent) {v : VertexId} {x : Vertex}
    (hx : d.vertices[v]? = some x) : d.Indexes v x where
  parents_sorted := h.parents_eq v x hx ▸ h.sorted_ids _
  children_sorted := h.children_eq v x hx ▸ h.sorted_ids _
  parents_lt n hn := h.lt_of_mem_ids (h.parents_eq v x hx ▸ hn)
  children_lt n hn := h.lt_of_mem_ids (h.children_eq v x hx ▸ hn)
  count_parents e he := by simpa [h.parents_eq v x hx] using h.count_ids (·.target = v) he
  count_children e he := by simpa [h.children_eq v x hx] using h.count_ids (·.source = v) he
  isStart := by rw [h.isStart_eq v x hx, List.isEmpty_iff]

/-! ### Every history -/

/-- What happens to a graph: a new element comes in, or the element of a vertex changes. -/
inductive Edit where
  | append (work : Work) (arguments : List Argument)
  | update (v : VertexId) (u : Element.Update)

/-- The graph after an edit. Only a vertex that is there can change. -/
def edit (d : Dag) : Edit → Except Breach Dag
  | .append work arguments => d.append (.new work arguments)
  | .update v u =>
      if v < d.vertices.length then .ok (d.modifyElement v u.apply) else .error (.noVertex v)

/-- The graph that a list of edits leads to from an empty one. -/
def edited (p : DependencyPolicy) (edits : List Edit) : Except Breach Dag :=
  edits.foldlM edit { policy := p }

/-- In edits of a graph with `count` vertices, whoever changes is there by then. -/
def Addressed : (count : Nat) → List Edit → Prop
  | _, [] => True
  | count, .append _ _ :: rest => Addressed (count + 1) rest
  | count, .update v _ :: rest => v < count ∧ Addressed count rest

/-- Edits of a graph that is consistent and linked succeed, and leave it so. -/
theorem Consistent.edits {d : Dag} (h : d.Consistent) (hl : d.Linked) {edits : List Edit}
    (ha : Addressed d.vertices.length edits) :
    ∃ d', edits.foldlM edit d = .ok d' ∧ d'.Consistent ∧ d'.Linked := by
  induction edits generalizing d with
  | nil => exact ⟨d, rfl, h, hl⟩
  | cons e rest ih =>
      cases e with
      | append work arguments =>
          obtain ⟨d₁, hd₁, happ⟩ := append_eq (e := .new work arguments) hl rfl
          obtain ⟨d', hd', h'⟩ := ih (h.append hd₁) happ.linked (happ.length ▸ ha)
          exact ⟨d', by rw [List.foldlM_cons, edit, hd₁]; exact hd', h'⟩
      | update v u =>
          obtain ⟨hv, hrest⟩ := ha
          obtain ⟨d', hd', h'⟩ := ih (h.modifyElement v u.id_apply) (hl.modifyElement v u.apply)
            (by rwa [length_modifyElement])
          exact ⟨d', by rw [List.foldlM_cons, edit, if_pos hv]; exact hd', h'⟩

/-- While a new vertex is being connected with the frontier, the graph is consistent. -/
theorem Consistent.connecting {d : Dag} (h : d.Consistent) (hl : d.Linked) (work : Work)
    (arguments : List Argument) {l : List VertexId} (hpre : l <+: d.frontier) :
    ∃ d', Dag.connectAll d.frontier d.vertices.length l (d.push (.new work arguments)) = .ok d' ∧
      d'.Consistent ∧ d'.vertices.length = d.vertices.length + 1 := by
  have hnew : ∀ s ∈ l, ¬ (d.push (.new work arguments)).HasEdge s d.vertices.length := by
    rintro s - ⟨edge, hedge, -, ht⟩
    exact Nat.lt_irrefl _ (ht ▸ (h.edge_lt edge hedge).2)
  obtain ⟨d', hd', hc⟩ := connectAll_eq (hl.push (.new work arguments))
    (by rw [element?_push, if_pos rfl]) (fun s hs => hl.frontier_lt s (hpre.subset hs))
    (fun _ hs => hpre.subset hs) (hl.frontier_sorted.sublist hpre.sublist) hnew
  exact ⟨d', hd', (h.push _).connectAll hd', by simpa using hc.length⟩

/-- **The representation of a graph.**  Whatever elements come in and however the elements of
vertices change in between, no rule of the graph is breached.  In the graph that this leads to, all
numbers are right, edges lead from earlier to later vertices, wait for something, and do not join
two vertices twice; every vertex lists its edges, each once and in order; and there are no more
edges than pairs of vertices.  When yet another element comes in, the same holds at every moment
while it is being connected, so that whatever is looked up on the way is there. -/
theorem edited_consistent (p : DependencyPolicy) (edits : List Edit) (h : Addressed 0 edits) :
    ∃ d, edited p edits = .ok d ∧ d.Consistent ∧
      (∀ (v : VertexId) x, d.vertices[v]? = some x → d.Indexes v x) ∧
      d.edges.length ≤ d.vertices.length * (d.vertices.length - 1) / 2 ∧
      (∀ v ∈ d.frontier, v < d.vertices.length) ∧
      ∀ work arguments l, l <+: d.frontier → ∃ d',
        connectAll d.frontier d.vertices.length l (d.push (.new work arguments)) = .ok d' ∧
        d'.Consistent ∧ d'.vertices.length = d.vertices.length + 1 ∧
        ∀ (v : VertexId) x, d'.vertices[v]? = some x → d'.Indexes v x := by
  obtain ⟨d, hd, hc, hl⟩ := (Consistent.empty p).edits (.empty p) h
  refine ⟨d, hd, hc, fun v x hx => hc.indexes hx, hc.length_edges_le, hl.frontier_lt, ?_⟩
  intro work arguments l hpre
  obtain ⟨d', hd', hc', hlength⟩ := hc.connecting hl work arguments hpre
  exact ⟨d', hd', hc', hlength, fun v x hx => hc'.indexes hx⟩

/-- Launches that come in while earlier ones are bound, run, finish and fail. -/
def overlapping : List Edit :=
  [.append (.launch 1 "first" {}) [.array .float 0 false],
   .update 0 ⟨fun e => e.bind 0, fun _ => rfl⟩,
   .append (.launch 2 "second" {}) [.array .float 0 true, .array .float 1 false],
   .update 0 ⟨fun e => e.start 0, fun _ => rfl⟩,
   .append (.launch 3 "third" {}) [.array .float 0 false, .array .float 1 false],
   .update 0 ⟨Element.finish, fun _ => rfl⟩,
   .update 1 ⟨fun e => e.fail (.launch "lost"), fun _ => rfl⟩,
   .append (.launch 4 "fourth" {}) [.array .float 1 true, .array .float 1 false]]

/-- The third launch waits for the two before it.  The edge that leads there from the first one has
number 1, and stands once in a list of either and nowhere else. -/
theorem edited_consistent_overlapping :
    Addressed 0 overlapping ∧ ∃ d, edited .withConst overlapping = .ok d ∧
      (d.edges.map fun e => (e.source, e.target)) = [(0, 1), (0, 2), (1, 2), (2, 3)] ∧
      ∀ (v : VertexId) x, d.vertices[v]? = some x →
        x.parents.count 1 = (if v = 2 then 1 else 0) ∧
        x.children.count 1 = (if v = 0 then 1 else 0) := by
  have haddressed : Addressed 0 overlapping := by simp [overlapping, Addressed]
  obtain ⟨d, hd, hc, hindexes, -⟩ := edited_consistent .withConst overlapping haddressed
  have hends : (edited .withConst overlapping).toOption.map
      (fun d => d.edges.map fun e => (e.source, e.target)) =
        some [(0, 1), (0, 2), (1, 2), (2, 3)] := by decide_cbv
  simp only [hd, Except.toOption, Option.map_some, Option.some.injEq] at hends
  refine ⟨haddressed, d, hd, hends, fun v x hx => ?_⟩
  have hedge : (d.edges.map fun e => (e.source, e.target))[1]? = some (0, 2) := by rw [hends]; rfl
  obtain ⟨e, he, hpair⟩ : ∃ e, d.edges[1]? = some e ∧ (e.source, e.target) = (0, 2) := by
    simpa using hedge
  obtain ⟨hsource, htarget⟩ := Prod.mk.inj hpair
  have hx := hindexes v x hx
  have hmem := List.mem_of_getElem? he
  have hparents := hx.count_parents e hmem
  have hchildren := hx.count_children e hmem
  rw [hc.edge_id 1 e he] at hparents hchildren
  simpa [hsource, htarget, eq_comm] using And.intro hparents hchildren

end Dag

end LaunchGraph
