import LaunchGraph.Proofs.GraphSteps

/-!
# Persistence — graphs only grow, and lives only go forward

Nothing that has entered a graph is ever taken back.  `Dag.Evolves` says what a later graph has in
common with an earlier one: the edges of the earlier one come first, and every vertex of it is there
as it was, except that it may have got children, dropped active accesses, and gone on in its life.
A life goes from one state to the next, or ends in failure (`Lifecycle.Next`), and does not go on
from its end.

This is transitive, and every step of a graph is of that kind (`Dag.Evolves.of_step`).  So it holds
over any operations (`Context.history_persists`).
-/

namespace LaunchGraph

/-! ### Lives -/

namespace Lifecycle

/-- One step in a life. -/
inductive Next : Lifecycle → Lifecycle → Prop where
  | bind : Next .created .scheduled
  | start : Next .scheduled .running
  | finish : Next .running .finished
  | fail {x : Lifecycle} (h : x.isTerminal = false) : Next x .failed

/-- The second state is the first one, or comes after it. -/
def Reaches : Lifecycle → Lifecycle → Prop := Relation.ReflTransGen Next

variable {x y : Lifecycle}

theorem reaches_running (h : x.isTerminal = false) : Reaches x .running := by
  cases x with
  | created => exact .head .bind (.single .start)
  | scheduled => exact .single .start
  | running => exact .refl
  | finished | failed => cases h

theorem reaches_finished (h : x.isTerminal = false) : Reaches x .finished :=
  (reaches_running h).tail .finish

theorem reaches_failed (h : x.isTerminal = false) : Reaches x .failed := .single (.fail h)

/-- Nothing comes after the end. -/
theorem Reaches.eq_of_isTerminal (h : Reaches x y) (hx : x.isTerminal = true) : y = x := by
  induction h with
  | refl => rfl
  | tail _ hnext ih =>
      subst ih
      cases hnext with
      | bind | start | finish => cases hx
      | fail hopen => cases hopen.symm.trans hx

end Lifecycle

namespace Element

/-- What an element has in common with the same element at an earlier time, `e`. -/
structure Evolves (e e' : Element) : Prop where
  id : e'.id = e.id
  work : e'.work = e.work
  arguments : e'.arguments = e.arguments
  active : e'.active.Sublist e.active
  stream : ∀ t, e.stream = some t → e'.stream = some t
  state : e.state.Reaches e'.state
  failure : e.isTerminal = true → e'.failure = e.failure

namespace Evolves

variable {e e' e'' : Element}

theorem refl (e : Element) : e.Evolves e :=
  ⟨rfl, rfl, rfl, .refl _, fun _ ht => ht, .refl, fun _ => rfl⟩

theorem isTerminal (h : e.Evolves e') (ht : e.isTerminal = true) : e'.isTerminal = true := by
  rw [Element.isTerminal, h.state.eq_of_isTerminal ht]
  exact ht

theorem trans (h : e.Evolves e') (h' : e'.Evolves e'') : e.Evolves e'' where
  id := h'.id.trans h.id
  work := h'.work.trans h.work
  arguments := h'.arguments.trans h.arguments
  active := h'.active.trans h.active
  stream t ht := h'.stream t (h.stream t ht)
  state := Relation.ReflTransGen.trans h.state h'.state
  failure ht := (h'.failure (h.isTerminal ht)).trans (h.failure ht)

theorem supersededBy (p : DependencyPolicy) (e later : Element) :
    e.Evolves (e.supersededBy p later) :=
  ⟨rfl, rfl, rfl, List.filter_sublist, fun _ ht => ht, .refl, fun _ => rfl⟩

/-- An element that is not over goes on. -/
theorem advance (ht : e.isTerminal = false) {state : Lifecycle} (hs : e.state.Reaches state)
    (event : Option EventId) (failure : Option FailureCause) :
    e.Evolves { e with state, event, failure } :=
  ⟨rfl, rfl, rfl, .refl _, fun _ h => h, hs, fun h => nomatch ht.symm.trans h⟩

theorem start (ht : e.isTerminal = false) (event : EventId) : e.Evolves (e.start event) :=
  advance ht (Lifecycle.reaches_running ht) _ _

theorem finish (ht : e.isTerminal = false) : e.Evolves e.finish :=
  advance ht (Lifecycle.reaches_finished ht) _ _

theorem fail (ht : e.isTerminal = false) (cause : FailureCause) : e.Evolves (e.fail cause) :=
  advance ht (Lifecycle.reaches_failed ht) _ _

end Evolves

end Element

/-! ### Graphs -/

/-- What a vertex has in common with the same vertex at an earlier time, `x`. -/
structure Vertex.Evolves (x x' : Vertex) : Prop where
  id : x'.id = x.id
  isStart : x'.isStart = x.isStart
  parents : x'.parents = x.parents
  children : x.children <+: x'.children
  element : x.element.Evolves x'.element

namespace Vertex.Evolves

variable {x x' x'' : Vertex}

theorem refl (x : Vertex) : x.Evolves x := ⟨rfl, rfl, rfl, List.prefix_rfl, .refl _⟩

theorem trans (h : x.Evolves x') (h' : x'.Evolves x'') : x.Evolves x'' where
  id := h'.id.trans h.id
  isStart := h'.isStart.trans h.isStart
  parents := h'.parents.trans h.parents
  children := h.children.trans h'.children
  element := h.element.trans h'.element

end Vertex.Evolves

namespace Dag

/-- What a graph has in common with the same graph at an earlier time, `d`. -/
structure Evolves (d d' : Dag) : Prop where
  edges : d.edges <+: d'.edges
  vertex : ∀ (v : VertexId) x, d.vertices[v]? = some x →
    ∃ x', d'.vertices[v]? = some x' ∧ x.Evolves x'

namespace Evolves

variable {d d' d'' : Dag}

theorem refl (d : Dag) : d.Evolves d := ⟨List.prefix_rfl, fun _ x hx => ⟨x, hx, .refl x⟩⟩

theorem trans (h : d.Evolves d') (h' : d'.Evolves d'') : d.Evolves d'' := by
  refine ⟨h.edges.trans h'.edges, fun v x hx => ?_⟩
  obtain ⟨x', hx', hevolves⟩ := h.vertex v x hx
  obtain ⟨x'', hx'', hevolves'⟩ := h'.vertex v x' hx'
  exact ⟨x'', hx'', hevolves.trans hevolves'⟩

/-- The element of a vertex changes, which is new or goes on. -/
theorem modifyElement (h : d.Evolves d') {v : VertexId} {g : Element → Element}
    (hg : v < d.vertices.length → ∀ e, d'.element? v = some e → e.Evolves (g e)) :
    d.Evolves (d'.modifyElement v g) := by
  refine ⟨by simpa using h.edges, fun w x hx => ?_⟩
  obtain ⟨x', hx', hevolves⟩ := h.vertex w x hx
  simp only [Dag.modifyElement, modifyVertex, List.getElem?_modify, hx']
  by_cases hvw : v = w
  · subst hvw
    have hlt := (List.getElem?_eq_some_iff.mp hx).1
    have hgoes := hg hlt x'.element (element?_eq_some.mpr ⟨x', hx', rfl⟩)
    exact ⟨{ x' with element := g x'.element }, by simp,
      hevolves.trans ⟨rfl, rfl, rfl, List.prefix_rfl, hgoes⟩⟩
  · exact ⟨x', by simp [hvw], hevolves⟩

/-- The element of a vertex goes on. -/
theorem change {v : VertexId} {e : Element} (he : d.element? v = some e) {g : Element → Element}
    (hg : e.Evolves (g e)) : d.Evolves (d.modifyElement v g) :=
  (refl d).modifyElement fun _ _ hx => Option.some.inj (he.symm.trans hx) ▸ hg

theorem push (d : Dag) (e : Element) : d.Evolves (d.push e) := by
  refine ⟨List.prefix_rfl, fun v x hx => ⟨x, ?_, .refl x⟩⟩
  rwa [getElem?_push (Nat.ne_of_lt (List.getElem?_eq_some_iff.mp hx).1)]

/-- An edge is added that ends in a new vertex. -/
theorem insertEdge (h : d.Evolves d') {s t : VertexId} (ht : d.vertices.length ≤ t)
    (deps : List Argument) : d.Evolves (d'.insertEdge s t deps) := by
  refine ⟨h.edges.trans (by simp), fun v x hx => ?_⟩
  obtain ⟨x', hx', hevolves⟩ := h.vertex v x hx
  have htv : t ≠ v := fun heq =>
    Nat.not_le.mpr (List.getElem?_eq_some_iff.mp hx).1 (heq ▸ ht)
  refine ⟨withEdge d'.edges.length s t v x', by rw [getElem?_insertEdge, hx']; rfl,
    hevolves.trans ⟨rfl, ?_, ?_, ?_, .refl _⟩⟩
  · simp [withEdge, htv]
  · simp [withEdge, htv]
  · by_cases hsv : s = v <;> simp [withEdge, hsv]

/-- The newest vertex is connected with another one. -/
theorem connect (h : d.Evolves d') {frontier : List VertexId} {s : VertexId}
    (hc : d'.connect frontier d.vertices.length s = .ok d'') : d.Evolves d'' := by
  obtain ⟨later, -, hcases⟩ := connect_cases hc
  have hsuperseded := h.modifyElement (v := s) (g := fun e => e.supersededBy d'.policy later)
    fun _ e _ => .supersededBy _ e later
  rcases hcases with rfl | ⟨deps, -, -, -, rfl⟩
  · exact hsuperseded
  · exact hsuperseded.insertEdge (Nat.le_refl _) deps

theorem append {e : Element} (ha : d.append e = .ok d') : d.Evolves d' :=
  append_invariant ha (.push d e) (fun _ _ _ h hc => h.connect hc) fun _ _ h => ⟨h.edges, h.vertex⟩

theorem of_step (h : d.Step d') : d.Evolves d' := by
  cases h with
  | append ha => exact append ha
  | place ha t =>
      -- the vertex that is bound is new
      exact (append ha).modifyElement fun hlt => absurd hlt (Nat.lt_irrefl _)
  | start he ht event => exact change he (.start ht event)
  | finish he ht => exact change he (.finish ht)
  | fail he ht cause => exact change he (.fail ht cause)

theorem of_steps (h : d.Steps d') : d.Evolves d' := by
  induction h with
  | refl => exact refl d
  | tail _ hstep ih => exact ih.trans (of_step hstep)

end Evolves

end Dag

namespace Context

/-- From a context with graph `d`, what is done lets the graph evolve, whatever its outcome. -/
def Evolving {α : Type} (d : Dag) (x : Action Context α) : Prop :=
  ∀ c : Context, c.dag = d → d.Evolves (x.run c).2.dag

/-- **Every command lets the graph evolve.** -/
theorem Evolving.perform (d : Dag) (command : Command) : Evolving d (Context.perform command) :=
  fun c hc => .of_steps (Stepping.perform d command c hc)

/-- **History is append-only, and lives are monotone.**  Whatever a context is asked to do, whatever
comes of it and whatever state it was in, its graph evolves: no edge goes, and every vertex keeps
its number, its work, its arguments, its parents and the stream it is bound to; it gets children at
the end only, loses active accesses only, and goes forward in its life.  So it does over any number
of operations, and what is over stays as it ended. -/
theorem history_persists (c : Context) (command : Command) (commands : List Command) :
    c.dag.Evolves ((perform command).run c).2.dag ∧ c.dag.Evolves (c.after commands).dag ∧
      ∀ v e, c.dag.element? v = some e → e.isTerminal = true →
        ∃ e', (c.after commands).dag.element? v = some e' ∧ e'.state = e.state ∧
          e'.failure = e.failure := by
  have hafter : c.dag.Evolves (c.after commands).dag := by
    induction commands generalizing c with
    | nil => exact .refl _
    | cons command rest ih => exact (Evolving.perform c.dag command c rfl).trans (ih _)
  refine ⟨Evolving.perform c.dag command c rfl, hafter, fun v e he ht => ?_⟩
  obtain ⟨x, hx, rfl⟩ := Dag.element?_eq_some.mp he
  obtain ⟨x', hx', hevolves⟩ := hafter.vertex v x hx
  exact ⟨x'.element, Dag.element?_eq_some.mpr ⟨x', hx', rfl⟩,
    hevolves.element.state.eq_of_isTerminal ht, hevolves.element.failure ht⟩

end Context

end LaunchGraph
