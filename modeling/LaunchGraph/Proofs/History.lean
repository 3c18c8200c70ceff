import LaunchGraph.Proofs.Detection
import LaunchGraph.Proofs.Graph

/-!
# Histories of a graph

A graph on its own changes in two ways: an element that was just made is appended, and a vertex
comes to its end, finished or failed.  `Dag.built` is the graph that a list of such changes leads
to.  The code finds the edges of a new vertex from two things that it keeps up to date, the active
accesses of every vertex and the frontier; `Dag.Account` says what both have come to, and what the
edges are, in terms of the changes alone:

* the active accesses of a vertex are those to buffers that nobody after it took over, as long as
  the vertex was not over at the last append;
* the frontier holds the vertices that were not over then and have active accesses left;
* an edge waits for the accesses to the buffers on which its ends conflict and that nobody between
  them took over (`Dag.Orders`).

Each change keeps the account (`Account.append`, `Account.mark`), so every history has one
(`exists_account`).
-/

namespace LaunchGraph.Dag

/-- What happens to a graph from outside. -/
inductive Change where
  /-- A new element comes in. -/
  | append (work : Work) (arguments : List Argument)
  | finish (v : VertexId)
  | fail (v : VertexId) (cause : FailureCause)

namespace Change

/-- The element that comes in. -/
def element? : Change → Option Element
  | .append work arguments => some (.new work arguments)
  | .finish _ | .fail .. => none

/-- The vertex that comes to its end. -/
def ended? : Change → Option VertexId
  | .append .. => none
  | .finish v | .fail v _ => some v

end Change

/-- The graph after one change. -/
def change (d : Dag) : Change → Except Breach Dag
  | .append work arguments => d.append (.new work arguments)
  | .finish v => .ok (d.modifyElement v Element.finish)
  | .fail v cause => .ok (d.modifyElement v fun e => e.fail cause)

/-- An element comes to its end: what it does is the same. -/
structure Ends (g : Element → Element) : Prop where
  arguments : ∀ e, (g e).arguments = e.arguments
  active : ∀ e, (g e).active = e.active
  isTerminal : ∀ e, (g e).isTerminal = true

/-- **What a change does** to a graph that is linked: an append, or a vertex comes to its end. -/
theorem change_cases {d : Dag} (h : d.Linked) (c : Change) : ∃ d', d.change c = .ok d' ∧
    ((∃ work arguments, c = .append work arguments ∧ d.Appended (.new work arguments) d') ∨
      ∃ v g, c.element? = none ∧ c.ended? = some v ∧ Ends g ∧ d' = d.modifyElement v g) := by
  cases c with
  | append work arguments =>
      obtain ⟨d', hd', ha⟩ := append_eq (e := .new work arguments) h rfl
      exact ⟨d', hd', .inl ⟨work, arguments, rfl, ha⟩⟩
  | finish v =>
      exact ⟨_, rfl, .inr ⟨v, Element.finish, rfl, rfl,
        ⟨fun _ => rfl, fun _ => rfl, fun _ => rfl⟩, rfl⟩⟩
  | fail v cause =>
      exact ⟨_, rfl, .inr ⟨v, fun e => e.fail cause, rfl, rfl,
        ⟨fun _ => rfl, fun _ => rfl, fun _ => rfl⟩, rfl⟩⟩

/-- The graph that a list of changes leads to from an empty one. -/
def built (p : DependencyPolicy) (changes : List Change) : Except Breach Dag :=
  changes.foldlM change { policy := p }

/-- The elements that come in, in the order of their vertices. -/
def submitted (changes : List Change) : List Element := changes.filterMap Change.element?

/-- Vertex `v` was not over when vertex `n` had been appended and the frontier was rebuilt. -/
def WasOpen (p : DependencyPolicy) (changes : List Change) (n v : VertexId) : Prop :=
  ∃ earlier work arguments d, earlier ++ [.append work arguments] <+: changes ∧
    (submitted earlier).length = n ∧ built p (earlier ++ [.append work arguments]) = .ok d ∧
    d.isTerminal v = false

/-- Vertex `j` has to wait for vertex `i` because of buffer `b`: they conflict on it, nobody
between them took it over, and `i` was not over when the last vertex before `j` was appended. -/
structure Orders (p : DependencyPolicy) (changes : List Change) (i j : VertexId) (b : BufferId) :
    Prop where
  lt : i < j
  conflict : ∃ x y, (submitted changes)[i]? = some x ∧ (submitted changes)[j]? = some y ∧
    p.Conflict x y b
  kept : ∀ k z, i < k → k < j → (submitted changes)[k]? = some z → p.takesOver z b = false
  opened : WasOpen p changes (j - 1) i

/-! ### Histories grow at their end -/

theorem built_concat (p : DependencyPolicy) (changes : List Change) (c : Change) :
    built p (changes ++ [c]) = built p changes >>= fun d => d.change c := by
  simp [built, List.foldlM_append]

theorem built_concat_of_ok {p : DependencyPolicy} {changes : List Change} {d : Dag}
    (h : built p changes = .ok d) (c : Change) : built p (changes ++ [c]) = d.change c := by
  rw [built_concat, h]
  rfl

theorem submitted_concat (changes : List Change) (c : Change) :
    submitted (changes ++ [c]) = submitted changes ++ c.element?.toList := by
  cases c <;> simp [submitted, Change.element?]

section Concat

variable {p : DependencyPolicy} {changes : List Change}

theorem WasOpen.concat {n v : VertexId} (h : WasOpen p changes n v) (c : Change) :
    WasOpen p (changes ++ [c]) n v := by
  obtain ⟨earlier, work, arguments, d, hpre, h⟩ := h
  exact ⟨earlier, work, arguments, d, hpre.trans (List.prefix_append _ _), h⟩

/-- A vertex that comes to its end rebuilds no frontier. -/
theorem wasOpen_concat_mark {c : Change} (hc : c.element? = none) {n v : VertexId} :
    WasOpen p (changes ++ [c]) n v ↔ WasOpen p changes n v := by
  refine ⟨?_, fun h => h.concat c⟩
  rintro ⟨earlier, work, arguments, d, hpre, h⟩
  rcases List.prefix_concat_iff.mp hpre with heq | hpre
  · obtain ⟨-, heq⟩ := List.append_inj' heq rfl
    simp [← List.singleton_inj.mp heq, Change.element?] at hc
  · exact ⟨earlier, work, arguments, d, hpre, h⟩

theorem wasOpen_concat_append {work : Work} {arguments : List Argument} {d : Dag}
    (hd : built p (changes ++ [.append work arguments]) = .ok d) {n v : VertexId} :
    WasOpen p (changes ++ [.append work arguments]) n v ↔
      WasOpen p changes n v ∨ n = (submitted changes).length ∧ d.isTerminal v = false := by
  constructor
  · rintro ⟨earlier, work', arguments', d', hpre, hn, hd', hv⟩
    rcases List.prefix_concat_iff.mp hpre with heq | hpre
    · obtain ⟨rfl, -⟩ := List.append_inj' heq rfl
      rw [heq, hd] at hd'
      obtain rfl := Except.ok.inj hd'
      exact .inr ⟨hn.symm, hv⟩
    · exact .inl ⟨earlier, work', arguments', d', hpre, hn, hd', hv⟩
  · rintro (h | ⟨rfl, hv⟩)
    · exact h.concat _
    · exact ⟨changes, work, arguments, d, List.prefix_refl _, rfl, hd, hv⟩

/-- What has been appended by the time a vertex was looked at. -/
theorem WasOpen.lt {n v : VertexId} (h : WasOpen p changes n v) :
    n < (submitted changes).length := by
  obtain ⟨earlier, work, arguments, d, ⟨later, rfl⟩, rfl, -⟩ := h
  simp [submitted, Change.element?]

end Concat

/-! ### The account of a history -/

/-- What a graph says about the changes that led to it. -/
structure Account (p : DependencyPolicy) (changes : List Change) (d : Dag) : Prop where
  linked : d.Linked
  policy : d.policy = p
  length : d.vertices.length = (submitted changes).length
  arguments : ∀ v el, d.element? v = some el →
    ∃ x, (submitted changes)[v]? = some x ∧ el.arguments = x.arguments
  opened : ∀ v, d.isTerminal v = false → ∀ n < d.vertices.length, WasOpen p changes n v
  active : ∀ v el, d.element? v = some el → WasOpen p changes (d.vertices.length - 1) v →
    el.active = (el.kept p ((submitted changes).drop (v + 1))).map el.accessTo
  frontier : ∀ v, v ∈ d.frontier ↔ ∃ el, d.element? v = some el ∧ el.active ≠ [] ∧
    WasOpen p changes (d.vertices.length - 1) v
  edges : ∀ edge ∈ d.edges, ∃ x y, (submitted changes)[edge.source]? = some x ∧
    (submitted changes)[edge.target]? = some y ∧
    WasOpen p changes (edge.target - 1) edge.source ∧ edge.dependencies ≠ [] ∧
    edge.dependencies = (x.contested p y (((submitted changes).take edge.target).drop
      (edge.source + 1))).map x.accessTo
  complete : ∀ i j b, Orders p changes i j b → d.HasEdge i j
  sorted : ∀ j, (d.parentVertices j).Pairwise (· < ·)

namespace Account

variable {p : DependencyPolicy} {changes : List Change} {d : Dag}

theorem empty (p : DependencyPolicy) : Account p [] { policy := p } where
  linked := .empty p
  policy := rfl
  length := rfl
  arguments := by simp [element?]
  opened := by simp
  active := by simp [element?]
  frontier := by simp [element?]
  edges := by simp
  complete i j b h := by simpa [submitted] using h.conflict
  sorted := by simp [parentVertices]

/-! ### A vertex comes to its end -/

/-- **A vertex comes to its end.**  Nothing is said of it that was not said before. -/
theorem mark (h : Account p changes d) {c : Change} (hc : c.element? = none) {v : VertexId}
    {g : Element → Element} (hg : Ends g) :
    Account p (changes ++ [c]) (d.modifyElement v g) := by
  have hs : submitted (changes ++ [c]) = submitted changes := by simp [submitted_concat, hc]
  have hold : ∀ {w el'}, (d.modifyElement v g).element? w = some el' →
      ∃ el, d.element? w = some el ∧ el'.arguments = el.arguments ∧ el'.active = el.active := by
    intro w el' hel'
    rcases element?_modifyElement_cases hel' with ⟨rfl, el, hel, rfl⟩ | ⟨-, hel⟩
    · exact ⟨el, hel, hg.arguments el, hg.active el⟩
    · exact ⟨el', hel, rfl, rfl⟩
  constructor
  case linked => exact h.linked.modifyElement v g
  case policy => exact h.policy
  case length => simpa [hs] using h.length
  case arguments =>
    intro w el' hel'
    obtain ⟨el, hel, hargs, -⟩ := hold hel'
    obtain ⟨x, hx, heq⟩ := h.arguments w el hel
    exact ⟨x, by rw [hs]; exact hx, hargs.trans heq⟩
  case opened =>
    intro w hw n hn
    refine (h.opened w ?_ n (by simpa using hn)).concat c
    by_contra hterminal
    obtain ⟨el, hel, ht⟩ : ∃ el, d.element? w = some el ∧ el.isTerminal = true := by
      simpa [isTerminal, Option.any_eq_true] using hterminal
    by_cases hvw : v = w <;> simp [isTerminal, hel, hvw, ht, hg.isTerminal] at hw
  case active =>
    intro w el' hel' hopen
    obtain ⟨el, hel, hargs, hactive⟩ := hold hel'
    rw [length_modifyElement, wasOpen_concat_mark hc] at hopen
    have hcongr := Element.accesses_congr hargs p ((submitted changes).drop (w + 1))
    rw [hs, hcongr.1, hcongr.2, hactive]
    exact h.active w el hel hopen
  case frontier =>
    intro w
    rw [frontier_modifyElement, h.frontier, length_modifyElement]
    simp only [wasOpen_concat_mark hc]
    constructor
    · rintro ⟨el, hel, hne, hopen⟩
      by_cases hvw : v = w
      · exact ⟨g el, by simp [hvw, hel], by rwa [hg.active], hopen⟩
      · exact ⟨el, by simp [hvw, hel], hne, hopen⟩
    · rintro ⟨el', hel', hne, hopen⟩
      obtain ⟨el, hel, -, hactive⟩ := hold hel'
      exact ⟨el, hel, hactive ▸ hne, hopen⟩
  case edges => simpa [hs, wasOpen_concat_mark hc] using h.edges
  case complete =>
    intro i j b horders
    rw [hasEdge_congr (edges_modifyElement d v g)]
    refine h.complete i j b ⟨horders.lt, ?_, ?_, (wasOpen_concat_mark hc).mp horders.opened⟩
    · simpa [hs] using horders.conflict
    · simpa [hs] using horders.kept
  case sorted => simpa using h.sorted

/-! ### An element comes in -/

section Append

variable {work : Work} {arguments : List Argument} {d' : Dag}

theorem submitted_append : submitted (changes ++ [.append work arguments]) =
    submitted changes ++ [.new work arguments] := by
  simp [submitted_concat, Change.element?]

theorem getElem?_submitted_append (h : Account p changes d) {v : VertexId}
    (hv : v < d.vertices.length) :
    (submitted (changes ++ [.append work arguments]))[v]? = (submitted changes)[v]? := by
  rw [submitted_append, List.getElem?_append_left (h.length ▸ hv)]

theorem getElem?_submitted_new (h : Account p changes d) :
    (submitted (changes ++ [.append work arguments]))[d.vertices.length]? =
      some (.new work arguments) := by
  simp [submitted_append, h.length]

/-- The append changes the state of no vertex, and the new one is not over. -/
theorem isTerminal_append (ha : d.Appended (.new work arguments) d') (v : VertexId) :
    d'.isTerminal v = d.isTerminal v := by
  cases hv : d'.element? v with
  | none =>
      have : d.element? v = none := by
        by_contra hne
        obtain ⟨el, hel⟩ := Option.ne_none_iff_exists'.mp hne
        obtain ⟨active, hel'⟩ := ha.element?_of_old hel
        simp [hv] at hel'
      simp [isTerminal, hv, this]
  | some el' =>
      rcases ha.element?_cases hv with ⟨rfl, rfl⟩ | ⟨-, el, active, hel, rfl⟩
      · have : d.element? d.vertices.length = none := by simp [element?]
        simp [isTerminal, hv, this, Element.isTerminal, Element.new, Lifecycle.isTerminal]
      · simp [isTerminal, hv, hel, Element.isTerminal]

/-- Whoever was in a position to be waited for at the last append, and held a buffer, is in the
frontier. -/
theorem mem_frontier_of_kept (h : Account p changes d) {v : VertexId} {el : Element}
    (hel : d.element? v = some el) (hopen : WasOpen p changes (d.vertices.length - 1) v)
    {b : BufferId} (hb : b ∈ el.kept p ((submitted changes).drop (v + 1))) : v ∈ d.frontier := by
  refine (h.frontier v).mpr ⟨el, hel, ?_, hopen⟩
  rw [h.active v el hel hopen]
  exact List.ne_nil_of_mem (List.mem_map_of_mem hb)

/-- What the new element finds active at a vertex of the frontier, and what it leaves. -/
theorem active_append (h : Account p changes d) (ha : d.Appended (.new work arguments) d')
    {v : VertexId} {el' : Element} (hel' : d'.element? v = some el')
    (ht : d'.isTerminal v = false) :
    el'.active = (el'.kept p ((submitted (changes ++ [.append work arguments])).drop
      (v + 1))).map el'.accessTo := by
  rcases ha.element?_cases hel' with ⟨rfl, rfl⟩ | ⟨hne, el, active, hel, rfl⟩
  · have hnil : (submitted (changes ++ [.append work arguments])).drop
        (d.vertices.length + 1) = [] := by
      simp [submitted_append, h.length]
    rw [hnil, Element.kept_nil]
    exact Element.accesses_eq (.new work arguments)
  · have hlt := lt_of_element? hel
    have hopen := h.opened v (by rwa [← isTerminal_append ha]) (d.vertices.length - 1) (by lia)
    have hactive := h.active v el hel hopen
    have hdrop : (submitted (changes ++ [.append work arguments])).drop (v + 1) =
        (submitted changes).drop (v + 1) ++ [.new work arguments] := by
      rw [submitted_append, List.drop_append_of_le_length (by rw [← h.length]; exact hlt)]
    have hcongr := Element.accesses_congr (x := { el with active }) (e := el) rfl p
      ((submitted (changes ++ [.append work arguments])).drop (v + 1))
    rw [hcongr.1, hcongr.2, hdrop]
    rw [ha.element?_old v hne, hel] at hel'
    split at hel'
    · have hnew := Option.some.inj hel'
      have hleft : el.Left p ((submitted changes).drop (v + 1)) el := ⟨rfl, hactive⟩
      rw [← (hleft.supersededBy (.new work arguments)).active, ← h.policy]
      exact congrArg Element.active hnew.symm
    · next hmem =>
      -- it has dropped out because it held nothing any more
      obtain rfl : el.active = active := congrArg Element.active (Option.some.inj hel')
      have hnil : el.active = [] := by
        by_contra hne
        exact hmem ((h.frontier v).mpr ⟨el, hel, hne, hopen⟩)
      rw [hnil] at hactive ⊢
      rw [Element.kept_concat, List.map_eq_nil_iff.mp hactive.symm]
      rfl

/-- The new edges wait for the accesses on which the two conflict and that nobody in between took
over. -/
theorem dependenciesOn_eq (h : Account p changes d) (work : Work) (arguments : List Argument)
    {v : VertexId} (hv : v ∈ d.frontier) :
    ∃ x, (submitted changes)[v]? = some x ∧ d.dependenciesOn (.new work arguments) v =
      (x.contested p (.new work arguments) ((submitted changes).drop (v + 1))).map
        x.accessTo := by
  obtain ⟨el, hel, -, hopen⟩ := (h.frontier v).mp hv
  obtain ⟨x, hx, hargs⟩ := h.arguments v el hel
  refine ⟨x, hx, ?_⟩
  have hcongr := Element.accesses_congr hargs p ((submitted changes).drop (v + 1))
  have hleft : x.Left p ((submitted changes).drop (v + 1)) el :=
    ⟨hargs, by rw [h.active v el hel hopen, hcongr.1, hcongr.2]⟩
  simp only [dependenciesOn, hel, h.policy, hleft.dependencies]

/-- The elements between two vertices are the same before and after the append. -/
theorem between_append (h : Account p changes d) {v : VertexId} (hv : v ≤ d.vertices.length) :
    (submitted (changes ++ [.append work arguments])).take v = (submitted changes).take v := by
  rw [submitted_append, List.take_append_of_le_length (h.length ▸ hv)]

theorem edges_append (h : Account p changes d) (ha : d.Appended (.new work arguments) d')
    {edge : Edge} (hedge : edge ∈ d'.edges) :
    ∃ x y, (submitted (changes ++ [.append work arguments]))[edge.source]? = some x ∧
      (submitted (changes ++ [.append work arguments]))[edge.target]? = some y ∧
      WasOpen p (changes ++ [.append work arguments]) (edge.target - 1) edge.source ∧
      edge.dependencies ≠ [] ∧
      edge.dependencies = (x.contested p y (((submitted (changes ++
        [.append work arguments])).take edge.target).drop (edge.source + 1))).map
          x.accessTo := by
  rw [ha.edges] at hedge
  rcases List.mem_append.mp hedge with hold | hnew
  · obtain ⟨hsource, htarget⟩ := h.linked.edge_lt edge hold
    obtain ⟨x, y, hx, hy, hopen, hne, hdeps⟩ := h.edges edge hold
    refine ⟨x, y, ?_, ?_, hopen.concat _, hne, ?_⟩
    · rwa [h.getElem?_submitted_append (Nat.lt_trans hsource htarget)]
    · rwa [h.getElem?_submitted_append htarget]
    · rwa [h.between_append (Nat.le_of_lt htarget)]
  · obtain ⟨hsource, htarget, hdeps, hne⟩ := mem_edgesTo hnew
    obtain ⟨x, hx, hdeps'⟩ := h.dependenciesOn_eq work arguments hsource
    obtain ⟨el, hel, -, hopen⟩ := (h.frontier _).mp hsource
    refine ⟨x, .new work arguments, ?_, ?_, ?_, hne, ?_⟩
    · rwa [h.getElem?_submitted_append (lt_of_element? hel)]
    · rw [htarget, h.getElem?_submitted_new]
    · rw [htarget]
      exact hopen.concat _
    · rw [hdeps, hdeps', htarget, h.between_append (Nat.le_refl _), h.length, List.take_length]

/-- Whoever was open at the last append and conflicts with the new vertex on a buffer that nobody
has taken over since has an edge to it. -/
theorem hasEdge_new (h : Account p changes d) (ha : d.Appended (.new work arguments) d')
    {i : VertexId} {x : Element} {b : BufferId} (hx : (submitted changes)[i]? = some x)
    (hc : p.Conflict x (.new work arguments) b)
    (hkept : ∀ z ∈ (submitted changes).drop (i + 1), p.takesOver z b = false)
    (hopen : WasOpen p changes (d.vertices.length - 1) i) :
    d'.HasEdge i d.vertices.length := by
  obtain ⟨el, hel⟩ := exists_element? (d := d) (v := i)
    (by rw [h.length]; exact (List.getElem?_eq_some_iff.mp hx).1)
  obtain ⟨x', hx', hargs⟩ := h.arguments i el hel
  obtain rfl : x = x' := Option.some.inj (hx.symm.trans hx')
  -- it holds the buffer still, so it is in the frontier
  have hmem : i ∈ d.frontier := by
    refine h.mem_frontier_of_kept hel hopen (b := b) ?_
    rw [(Element.accesses_congr hargs p _).1]
    exact Element.mem_kept.mpr ⟨hc.1, hkept⟩
  obtain ⟨x', hx', hdeps⟩ := h.dependenciesOn_eq work arguments hmem
  obtain rfl : x = x' := Option.some.inj (hx.symm.trans hx')
  refine ha.hasEdge_iff.mpr (.inr ⟨rfl, hmem, ?_⟩)
  rw [hdeps]
  exact List.ne_nil_of_mem (List.mem_map_of_mem (Element.mem_contested.mpr ⟨hc, hkept⟩))

/-- Whoever a vertex has to wait for has an edge to it. -/
theorem complete_append (h : Account p changes d) (ha : d.Appended (.new work arguments) d')
    (hd' : built p (changes ++ [.append work arguments]) = .ok d') {i j : VertexId} {b : BufferId}
    (ho : Orders p (changes ++ [.append work arguments]) i j b) : d'.HasEdge i j := by
  obtain ⟨x, y, hx, hy, hc⟩ := ho.conflict
  have hj : j < (submitted changes).length + 1 := by
    simpa [submitted_append] using (List.getElem?_eq_some_iff.mp hy).1
  have hkept : ∀ k z, i < k → k < j → (submitted changes)[k]? = some z →
      p.takesOver z b = false := by
    intro k z hik hkj hz
    refine ho.kept k z hik hkj ?_
    rwa [h.getElem?_submitted_append (by rw [h.length]; lia)]
  have hopen : WasOpen p changes (j - 1) i := by
    refine ((wasOpen_concat_append hd').mp ho.opened).resolve_right fun hlast => ?_
    have := ho.lt
    lia
  have hx' : (submitted changes)[i]? = some x := by
    rwa [h.getElem?_submitted_append (by have := ho.lt; rw [h.length]; lia)] at hx
  rcases Nat.lt_succ_iff_lt_or_eq.mp hj with hlt | rfl
  · -- both are old
    rw [h.getElem?_submitted_append (by rw [h.length]; exact hlt)] at hy
    exact ha.hasEdge_mono (h.complete i j b ⟨ho.lt, ⟨x, y, hx', hy, hc⟩, hkept, hopen⟩)
  · -- the new vertex has to wait
    rw [← h.length] at hy hopen hkept ⊢
    obtain rfl := Option.some.inj (h.getElem?_submitted_new.symm.trans hy)
    refine h.hasEdge_new ha hx' hc (fun z hz => ?_) hopen
    obtain ⟨k, hk⟩ := List.mem_iff_getElem?.mp hz
    rw [List.getElem?_drop] at hk
    exact hkept _ z (by lia) (h.length ▸ (List.getElem?_eq_some_iff.mp hk).1) hk

theorem frontier_append (h : Account p changes d) (ha : d.Appended (.new work arguments) d')
    {v : VertexId} : v ∈ d'.frontier ↔
      ∃ el, d'.element? v = some el ∧ el.active ≠ [] ∧ d'.isTerminal v = false := by
  rw [ha.frontier, List.mem_filter, isFrontier_iff, and_iff_right_iff_imp]
  intro hf
  by_cases hv : v = d.vertices.length
  · simp [hv]
  · obtain ⟨el, hel, hactive, ht⟩ :=
      isFrontier_iff.mp (ha.isFrontier_old hv (isFrontier_iff.mpr hf))
    have hopen := h.opened v ht (d.vertices.length - 1) (by have := lt_of_element? hel; lia)
    exact List.mem_append_left _ ((h.frontier v).mpr ⟨el, hel, hactive, hopen⟩)

/-- The new edges come from the frontier, which is in order. -/
theorem sorted_append (h : Account p changes d) (ha : d.Appended (.new work arguments) d')
    (j : VertexId) : (d'.parentVertices j).Pairwise (· < ·) := by
  rw [ha.linked.parents_eq, ha.edges, List.filter_append, List.map_append]
  by_cases hj : j = d.vertices.length
  · have hnone := filter_edges_eq_nil (f := Edge.target) fun edge he => (h.linked.edge_lt edge he).2
    rw [hj, hnone]
    exact (h.linked.frontier_sorted.sublist (sources_edgesTo_sublist _ _ _ _ _)).sublist
      (List.filter_sublist.map Edge.source)
  · have hnone : (d.edgesTo (.new work arguments) d.vertices.length d.edges.length
        d.frontier).filter (fun edge => edge.target = j) = [] := by
      refine List.filter_eq_nil_iff.mpr fun edge he => ?_
      simpa [(mem_edgesTo he).2.1] using Ne.symm hj
    rw [hnone, List.map_nil, List.append_nil, ← h.linked.parents_eq]
    exact h.sorted j

/-- **An element comes in.** -/
theorem append (h : Account p changes d) (ha : d.Appended (.new work arguments) d')
    (hd' : built p (changes ++ [.append work arguments]) = .ok d') :
    Account p (changes ++ [.append work arguments]) d' := by
  have hlast : ∀ v, WasOpen p (changes ++ [.append work arguments]) (d'.vertices.length - 1) v ↔
      d'.isTerminal v = false := by
    intro v
    rw [ha.length, Nat.add_sub_cancel, wasOpen_concat_append hd', or_iff_right]
    · simp [h.length]
    · intro hopen
      exact Nat.lt_irrefl _ (h.length ▸ hopen.lt)
  constructor
  case linked => exact ha.linked
  case policy => exact ha.policy.trans h.policy
  case length => simp [ha.length, submitted_append, h.length]
  case arguments =>
    intro v el' hel'
    rcases ha.element?_cases hel' with ⟨rfl, rfl⟩ | ⟨-, el, active, hel, rfl⟩
    · exact ⟨_, h.getElem?_submitted_new, rfl⟩
    · rw [h.getElem?_submitted_append (lt_of_element? hel)]
      exact h.arguments v el hel
  case opened =>
    intro v hv n hn
    rw [wasOpen_concat_append hd']
    rcases Nat.lt_succ_iff_lt_or_eq.mp (ha.length ▸ hn) with hn | rfl
    · exact .inl (h.opened v (by rwa [← isTerminal_append ha]) n hn)
    · exact .inr ⟨h.length, hv⟩
  case active =>
    intro v el' hel' hopen
    exact h.active_append ha hel' ((hlast v).mp hopen)
  case frontier => simpa only [hlast] using fun v => h.frontier_append ha
  case edges => exact fun edge hedge => h.edges_append ha hedge
  case complete => exact fun i j b ho => h.complete_append ha hd' ho
  case sorted => exact h.sorted_append ha

end Append

end Account

/-- **Every history leads to a graph**, and the graph accounts for it. -/
theorem exists_account (p : DependencyPolicy) (changes : List Change) :
    ∃ d, built p changes = .ok d ∧ Account p changes d := by
  induction changes using List.reverseRecOn with
  | nil => exact ⟨_, rfl, .empty p⟩
  | append_singleton changes c ih =>
      obtain ⟨d, hd, h⟩ := ih
      obtain ⟨d', hd', hcases⟩ := change_cases h.linked c
      have hstep := (built_concat_of_ok hd c).trans hd'
      rcases hcases with ⟨work, arguments, rfl, ha⟩ | ⟨v, g, hc, -, hg, rfl⟩
      · exact ⟨d', hstep, h.append ha hstep⟩
      · exact ⟨_, hstep, h.mark hc hg⟩

end LaunchGraph.Dag
