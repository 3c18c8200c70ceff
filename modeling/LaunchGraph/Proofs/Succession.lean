import LaunchGraph.Proofs.Accesses
import LaunchGraph.Proofs.Growth

/-!
# Succession — who stands for a vertex on a buffer

An element that takes over a buffer stands for everything before it that touched the buffer: what
comes later gets an edge from it alone.  So the order between an earlier and a later vertex rests
on a chain of vertices, each of which took over from the one before, and on the last of them being
in the frontier when the later vertex is appended.  `Dag.Succession` says how far that goes, for
vertices that are not over:

* a vertex that holds a buffer is in the frontier, and nobody has taken over the buffer since;
* where it does not hold a buffer that it touched, a descendant does, which took over the buffer
  and has not finished (`carried`);
* a later vertex that conflicts with it is its descendant, unless somebody between the two took
  over the buffer and failed (`linked`): a vertex that failed is dropped from the frontier with
  everything it stood for;
* an edge comes from a conflict on a buffer that nobody between its ends took over (`edge`).
-/

namespace LaunchGraph

/-- The element with a new state, stream or event: what it does is the same, and what is over
stays so. -/
structure Element.Restated (x x' : Element) : Prop where
  arguments : x'.arguments = x.arguments
  active : x'.active = x.active
  state : x.isTerminal = true → x'.state = x.state

namespace Element

theorem Restated.refl (x : Element) : x.Restated x := ⟨rfl, rfl, fun _ => rfl⟩

theorem Restated.of_not_terminal {x x' : Element} (ht : x.isTerminal = false)
    (hargs : x'.arguments = x.arguments) (hactive : x'.active = x.active) : x.Restated x' :=
  ⟨hargs, hactive, fun h => by simp [ht] at h⟩

theorem Restated.not_terminal {x x' : Element} (h : x.Restated x') (ht : x'.isTerminal = false) :
    x.isTerminal = false := by
  by_contra hx
  have hterminal : x.isTerminal = true := by simpa using hx
  rw [isTerminal, h.state hterminal] at ht
  exact hx ht

theorem Restated.isFailed {x x' : Element} (h : x.Restated x') (hf : x.isFailed = true) :
    x'.isFailed = true := by
  have hstate : x.state = .failed := by simpa [Element.isFailed] using hf
  have hterminal : x.isTerminal = true := by simp [isTerminal, hstate, Lifecycle.isTerminal]
  simp [Element.isFailed, h.state hterminal, hstate]

/-- A new element holds every buffer that it touches. -/
theorem holds_of_touches {e : Element} (h : e.active = e.accesses) {b : BufferId}
    (ht : e.touches b = true) : e.Holds b := by
  rw [Holds, h]
  exact exists_access ht

theorem touches_of_holds {x : Element} (hsub : ∀ a ∈ x.active, a ∈ x.accesses) {b : BufferId}
    (h : x.Holds b) : x.touches b = true := by
  obtain ⟨a, ha, hb⟩ := h
  exact touches_of_access (hsub a ha) hb

theorem active_ne_nil_of_holds {x : Element} {b : BufferId} (h : x.Holds b) : x.active ≠ [] := by
  obtain ⟨a, ha, -⟩ := h
  exact List.ne_nil_of_mem ha

end Element

namespace Dag

/-- What the frontier and the edges say about the vertices that are not over. -/
structure Succession (d : Dag) : Prop where
  active_sub : ∀ v x, d.element? v = some x → ∀ a ∈ x.active, a ∈ x.accesses
  mem_frontier : ∀ v x, d.element? v = some x → x.isTerminal = false → x.active ≠ [] →
    v ∈ d.frontier
  /-- Nobody has taken over a buffer that is held. -/
  released : ∀ u v x y b, d.element? u = some x → d.element? v = some y → u < v →
    x.isTerminal = false → x.Holds b → d.policy.takesOver y b = false
  /-- A buffer that was touched is held by the vertex or by a descendant that took it over. -/
  carried : ∀ u x b, d.element? u = some x → x.isTerminal = false → x.touches b = true →
    ∃ k y, d.element? k = some y ∧ y.Holds b ∧
      (k = u ∨ d.Path u k ∧ d.policy.takesOver y b = true ∧ y.state ≠ .finished)
  /-- A conflict is a path, unless somebody in between took over the buffer and failed. -/
  linked : ∀ u v x y b, d.element? u = some x → d.element? v = some y → u < v →
    x.isTerminal = false → d.policy.Conflict x y b → d.Path u v ∨
      ∃ k z, u < k ∧ k < v ∧ d.element? k = some z ∧ d.policy.takesOver z b = true ∧
        z.isFailed = true
  /-- An edge comes from a conflict on a buffer that nobody in between took over. -/
  edge : ∀ u v x y, d.HasEdge u v → d.element? u = some x → d.element? v = some y →
    x.isTerminal = false → ∃ b, d.policy.Conflict x y b ∧
      ∀ k z, u < k → k < v → d.element? k = some z → d.policy.takesOver z b = false

namespace Succession

variable {d d' : Dag}

theorem empty (p : DependencyPolicy) : Succession { policy := p } := by
  constructor <;> simp [element?]

/-- **A vertex that is not over changes its state.**  Where it finishes, its ancestors have
finished, so it stands for nobody any more. -/
theorem modifyElement (h : d.Succession) {v : VertexId} {el : Element}
    (hv : d.element? v = some el) {g : Element → Element} (hg : el.Restated (g el))
    (hfin : ∀ u w, (d.modifyElement v g).Path u w → (d.modifyElement v g).IsFinished w →
      (d.modifyElement v g).IsFinished u) : (d.modifyElement v g).Succession := by
  have hpath : (d.modifyElement v g).Path = d.Path := by
    rw [Path, hasEdge_congr (d := d) (by simp)]
    rfl
  have hold : ∀ {w x'}, (d.modifyElement v g).element? w = some x' →
      ∃ x, d.element? w = some x ∧ x.Restated x' := by
    intro w x' hx'
    rcases element?_modifyElement_inv hv hx' with ⟨rfl, rfl⟩ | ⟨-, hx⟩
    · exact ⟨el, hv, hg⟩
    · exact ⟨x', hx, .refl x'⟩
  have hnew : ∀ {w x}, d.element? w = some x →
      ∃ x', (d.modifyElement v g).element? w = some x' ∧ x.Restated x' := by
    intro w x hx
    rcases element?_modifyElement_of_some hv hx g with ⟨-, rfl, hx'⟩ | ⟨-, hx'⟩
    · exact ⟨g x, hx', hg⟩
    · exact ⟨x, hx', .refl x⟩
  constructor
  case active_sub =>
    intro w x' hx' a ha
    obtain ⟨x, hx, hr⟩ := hold hx'
    rw [Element.accesses, hr.arguments]
    exact h.active_sub w x hx a (hr.active ▸ ha)
  case mem_frontier =>
    intro w x' hx' ht hne
    obtain ⟨x, hx, hr⟩ := hold hx'
    exact h.mem_frontier w x hx (hr.not_terminal ht) (hr.active ▸ hne)
  case released =>
    intro u w x' y' b hx' hy' huw ht hb
    obtain ⟨x, hx, hr⟩ := hold hx'
    obtain ⟨y, hy, hr'⟩ := hold hy'
    have := h.released u w x y b hx hy huw (hr.not_terminal ht)
      (by rw [Element.Holds, ← hr.active]; exact hb)
    simpa [DependencyPolicy.takesOver_congr hr'.arguments] using this
  case carried =>
    intro u x' b hx' ht hb
    obtain ⟨x, hx, hr⟩ := hold hx'
    obtain ⟨k, y, hy, hyb, hcase⟩ := h.carried u x b hx (hr.not_terminal ht)
      (by rw [← Element.touches_congr hr.arguments]; exact hb)
    obtain ⟨y', hy', hr'⟩ := hnew hy
    refine ⟨k, y', hy', by rw [Element.Holds, hr'.active]; exact hyb, ?_⟩
    refine hcase.imp_right ?_
    rintro ⟨hp, htakes, -⟩
    refine ⟨by rw [hpath]; exact hp, ?_, fun hfinished => ?_⟩
    · simpa [DependencyPolicy.takesOver_congr hr'.arguments] using htakes
    · obtain ⟨z, hz, hzf⟩ := hfin u k (by rw [hpath]; exact hp) ⟨y', hy', hfinished⟩
      obtain rfl : x' = z := Option.some.inj (hx'.symm.trans hz)
      simp [Element.isTerminal, hzf, Lifecycle.isTerminal] at ht
  case linked =>
    intro u w x' y' b hx' hy' huw ht hc
    obtain ⟨x, hx, hr⟩ := hold hx'
    obtain ⟨y, hy, hr'⟩ := hold hy'
    rw [hpath]
    refine (h.linked u w x y b hx hy huw (hr.not_terminal ht) ((DependencyPolicy.conflict_congr
      hr.arguments hr'.arguments _ b).mp hc)).imp_right ?_
    rintro ⟨k, z, huk, hkw, hz, htakes, hf⟩
    obtain ⟨z', hz', hrz⟩ := hnew hz
    exact ⟨k, z', huk, hkw, hz', by simpa [DependencyPolicy.takesOver_congr hrz.arguments] using
      htakes, hrz.isFailed hf⟩
  case edge =>
    intro u w x' y' hedge hx' hy' ht
    obtain ⟨x, hx, hr⟩ := hold hx'
    obtain ⟨y, hy, hr'⟩ := hold hy'
    rw [hasEdge_congr (d := d) (by simp)] at hedge
    obtain ⟨b, hc, hbetween⟩ := h.edge u w x y hedge hx hy (hr.not_terminal ht)
    refine ⟨b, (DependencyPolicy.conflict_congr hr.arguments hr'.arguments _ b).mpr hc, ?_⟩
    intro k z' huk hkw hz'
    obtain ⟨z, hz, hrz⟩ := hold hz'
    simpa [DependencyPolicy.takesOver_congr hrz.arguments] using hbetween k z huk hkw hz

/-! ### Appending -/

section Append

variable {e : Element}

/-- An old vertex keeps the buffers that the new element does not take over from it. -/
theorem holds_of_append (h : d.Succession) (ha : d.Appended e d') {v : VertexId} {x x' : Element}
    {b : BufferId} (hx : d.element? v = some x) (hx' : d'.element? v = some x') :
    x'.Holds b ↔ x.Holds b ∧ (v ∈ d.frontier → d.policy.takesOver e b = false) := by
  rw [ha.element?_old v (Nat.ne_of_lt (lt_of_element? hx)), hx] at hx'
  split at hx'
  · next hmem =>
    obtain rfl := Option.some.inj hx'
    simp [Element.holds_supersededBy (h.active_sub v x hx), hmem]
  · next hmem =>
    obtain rfl := Option.some.inj hx'
    simp [hmem]

/-- The new vertex has an edge from the vertices of the frontier that hold a buffer on which it
conflicts with them. -/
theorem hasEdge_new (h : d.Succession) (hl : d.Linked) (ha : d.Appended e d') {u : VertexId}
    {x : Element} (hx : d.element? u = some x) :
    d'.HasEdge u d.vertices.length ↔
      u ∈ d.frontier ∧ ∃ b, x.Holds b ∧ d.policy.Conflict x e b := by
  have hnone : ¬ d.HasEdge u d.vertices.length := fun hedge =>
    Nat.lt_irrefl _ (hl.lt_of_hasEdge hedge).2
  simp [ha.hasEdge_iff, hnone, dependenciesOn, hx,
    Element.dependencies_ne_nil (h.active_sub u x hx)]

/-- An old vertex of the new graph, with what it does and where it stands. -/
theorem old_of_append (ha : d.Appended e d') {v : VertexId} {x' : Element}
    (hx' : d'.element? v = some x') (hv : v < d.vertices.length) :
    ∃ x, d.element? v = some x ∧ x'.arguments = x.arguments ∧ x'.state = x.state := by
  rcases ha.element?_cases hx' with ⟨hn, -⟩ | ⟨-, x, active, hx, rfl⟩
  · exact absurd hn (Nat.ne_of_lt hv)
  · exact ⟨x, hx, rfl, rfl⟩

/-- A vertex of the new graph is the new one or an old one. -/
theorem lt_or_eq_of_append (ha : d.Appended e d') {v : VertexId} {x' : Element}
    (hx' : d'.element? v = some x') : v < d.vertices.length ∨
      v = d.vertices.length ∧ x' = { e with id := some d.vertices.length } := by
  rcases ha.element?_cases hx' with hn | ⟨-, x, active, hx, -⟩
  · exact .inr hn
  · exact .inl (lt_of_element? hx)

/-- A vertex that is not over and holds a buffer gets an edge to the new one, if they conflict on
it. -/
theorem edge_of_holds (h : d.Succession) (hl : d.Linked) (ha : d.Appended e d') {u : VertexId}
    {x : Element} {b : BufferId} (hx : d.element? u = some x) (ht : x.isTerminal = false)
    (hb : x.Holds b) (hc : d.policy.Conflict x e b) : d'.HasEdge u d.vertices.length :=
  (h.hasEdge_new hl ha hx).mpr
    ⟨h.mem_frontier u x hx ht (Element.active_ne_nil_of_holds hb), b, hb, hc⟩

/-- After an append, every buffer that was touched is held by the vertex or a descendant. -/
theorem carried_of_append (h : d.Succession) (hl : d.Linked) (ha : d.Appended e d')
    (hu : e.Unused) (hfresh : e.active = e.accesses) {u : VertexId} {x' : Element} {b : BufferId}
    (hx' : d'.element? u = some x') (ht : x'.isTerminal = false) (hb : x'.touches b = true) :
    ∃ k y, d'.element? k = some y ∧ y.Holds b ∧
      (k = u ∨ d'.Path u k ∧ d'.policy.takesOver y b = true ∧ y.state ≠ .finished) := by
  rcases lt_or_eq_of_append ha hx' with hlt | ⟨rfl, rfl⟩
  · obtain ⟨x, hx, hargs, hstate⟩ := old_of_append ha hx' hlt
    obtain ⟨k, y, hy, hyb, hcase⟩ := h.carried u x b hx (by rw [Element.isTerminal, ← hstate]; exact ht)
      (by rw [← Element.touches_congr hargs]; exact hb)
    have hk := lt_of_element? hy
    obtain ⟨active, hy'⟩ := ha.element?_of_old hy
    have hmono : d.Path u k → d'.Path u k := fun hp => hp.mono fun _ _ => ha.hasEdge_mono
    by_cases hheld : Element.Holds { y with active } b
    · refine ⟨k, { y with active }, hy', hheld, hcase.imp_right ?_⟩
      rintro ⟨hp, htakes, hfinished⟩
      exact ⟨hmono hp, by rw [ha.policy, ← htakes]; exact DependencyPolicy.takesOver_congr rfl _ b,
        hfinished⟩
    · -- the new element took the buffer over, so it depends on the one who held it
      have htaken : k ∈ d.frontier ∧ d.policy.takesOver e b = true := by
        simpa [h.holds_of_append ha hy hy', hyb] using hheld
      have hedge : d'.HasEdge k d.vertices.length := (h.hasEdge_new hl ha hy).mpr
        ⟨htaken.1, b, hyb, DependencyPolicy.conflict_of_takesOver
          (Element.touches_of_holds (h.active_sub k y hy) hyb) htaken.2⟩
      refine ⟨_, _, ha.element?_new, Element.holds_of_touches (e := { e with id := _ }) hfresh
        (DependencyPolicy.touches_of_takesOver htaken.2), .inr ⟨?_, ?_, ?_⟩⟩
      · rcases hcase with rfl | ⟨hp, -⟩
        · exact .single hedge
        · exact (hmono hp).tail hedge
      · rw [ha.policy, ← htaken.2]
        exact DependencyPolicy.takesOver_congr rfl _ b
      · simp [hu.state]
  · exact ⟨_, _, hx', Element.holds_of_touches (e := { e with id := _ }) hfresh hb, .inl rfl⟩

/-- A new vertex is a descendant of everything it conflicts with, as far as nobody failed who
stood for it. -/
theorem linked_of_append (h : d.Succession) (hl : d.Linked) (ha : d.Appended e d') {u : VertexId}
    {x : Element} {b : BufferId} (hx : d.element? u = some x) (ht : x.isTerminal = false)
    (hc : d.policy.Conflict x e b) : d'.Path u d.vertices.length ∨
      ∃ k z, u < k ∧ d.element? k = some z ∧ d.policy.takesOver z b = true ∧
        z.isFailed = true := by
  obtain ⟨k, y, hy, hyb, rfl | ⟨hp, htakes, hfinished⟩⟩ := h.carried u x b hx ht hc.1
  · obtain rfl : x = y := Option.some.inj (hx.symm.trans hy)
    exact .inl (.single (h.edge_of_holds hl ha hx ht hyb hc))
  · cases hterminal : y.isTerminal with
    | false =>
        have hedge := h.edge_of_holds hl ha hy hterminal hyb
          (DependencyPolicy.conflict_after_takesOver htakes hc.2.1)
        exact .inl ((hp.mono fun _ _ => ha.hasEdge_mono).tail hedge)
    | true =>
        have hfailed : y.isFailed = true := by
          cases hstate : y.state <;>
            simp_all [Element.isTerminal, Lifecycle.isTerminal, Element.isFailed]
        exact .inr ⟨k, y, (hl.lt_of_path hp).1, hy, htakes, hfailed⟩

/-- An append makes no access of an old vertex active. -/
theorem active_of_append (ha : d.Appended e d') {v : VertexId} {x x' : Element}
    (hx : d.element? v = some x) (hx' : d'.element? v = some x') :
    ∀ a ∈ x'.active, a ∈ x.active := by
  intro a hmem
  rw [ha.element?_old v (Nat.ne_of_lt (lt_of_element? hx)), hx] at hx'
  split at hx'
  · obtain rfl := Option.some.inj hx'
    exact (List.mem_filter.mp hmem).1
  · obtain rfl := Option.some.inj hx'
    exact hmem

theorem isFrontier_of_active {v : VertexId} {x : Element} (hx : d.element? v = some x)
    (ht : x.isTerminal = false) (hne : x.active ≠ []) : d.isFrontier v = true := by
  simp [isFrontier_eq, hx, isTerminal_eq hx, ht, hne]

theorem le_of_append (ha : d.Appended e d') {v : VertexId} {x' : Element}
    (hx' : d'.element? v = some x') : v ≤ d.vertices.length := by
  have := lt_of_element? hx'
  rw [ha.length] at this
  lia

theorem mem_frontier_of_append (h : d.Succession) (ha : d.Appended e d') {v : VertexId}
    {x' : Element} (hx' : d'.element? v = some x') (ht : x'.isTerminal = false)
    (hne : x'.active ≠ []) : v ∈ d'.frontier := by
  rw [ha.frontier, List.mem_filter]
  refine ⟨?_, isFrontier_of_active hx' ht hne⟩
  rcases lt_or_eq_of_append ha hx' with hlt | ⟨rfl, -⟩
  · obtain ⟨x, hx, -, hstate⟩ := old_of_append ha hx' hlt
    obtain ⟨a, hmem⟩ := List.exists_mem_of_ne_nil _ hne
    rw [Element.isTerminal, hstate] at ht
    exact List.mem_append_left _ (h.mem_frontier v x hx ht
      (List.ne_nil_of_mem (active_of_append ha hx hx' a hmem)))
  · simp

theorem released_of_append (h : d.Succession) (ha : d.Appended e d') {u v : VertexId}
    {x' y' : Element} {b : BufferId} (hx' : d'.element? u = some x')
    (hy' : d'.element? v = some y') (huv : u < v) (ht : x'.isTerminal = false)
    (hb : x'.Holds b) : d.policy.takesOver y' b = false := by
  obtain ⟨x, hx, -, hstate⟩ := old_of_append ha hx' (Nat.lt_of_lt_of_le huv (le_of_append ha hy'))
  obtain ⟨hxb, hkept⟩ := (h.holds_of_append ha hx hx').mp hb
  rw [Element.isTerminal, hstate] at ht
  rcases lt_or_eq_of_append ha hy' with hlt | ⟨rfl, rfl⟩
  · obtain ⟨y, hy, hargs, -⟩ := old_of_append ha hy' hlt
    rw [DependencyPolicy.takesOver_congr hargs]
    exact h.released u v x y b hx hy huv ht hxb
  · refine (DependencyPolicy.takesOver_congr (x := e) rfl _ b).trans (hkept ?_)
    exact h.mem_frontier u x hx ht (Element.active_ne_nil_of_holds hxb)

theorem edge_of_append (h : d.Succession) (hl : d.Linked) (ha : d.Appended e d')
    {u v : VertexId} {x' y' : Element} (hedge : d'.HasEdge u v) (hx' : d'.element? u = some x')
    (hy' : d'.element? v = some y') (ht : x'.isTerminal = false) :
    ∃ b, d.policy.Conflict x' y' b ∧
      ∀ k z', u < k → k < v → d'.element? k = some z' → d.policy.takesOver z' b = false := by
  have hle := le_of_append ha hy'
  have huv := (ha.linked.lt_of_hasEdge hedge).1
  obtain ⟨x, hx, hargs, hstate⟩ := old_of_append ha hx' (Nat.lt_of_lt_of_le huv hle)
  rw [Element.isTerminal, hstate] at ht
  have hbetween : ∀ {b : BufferId},
      (∀ k z, u < k → k < v → d.element? k = some z → d.policy.takesOver z b = false) →
      ∀ k z', u < k → k < v → d'.element? k = some z' → d.policy.takesOver z' b = false := by
    intro b hb k z' huk hkv hz'
    obtain ⟨z, hz, hargs', -⟩ := old_of_append ha hz' (Nat.lt_of_lt_of_le hkv hle)
    rw [DependencyPolicy.takesOver_congr hargs']
    exact hb k z huk hkv hz
  rcases lt_or_eq_of_append ha hy' with hlt | ⟨rfl, rfl⟩
  · obtain ⟨y, hy, hargs', -⟩ := old_of_append ha hy' hlt
    have hold := (ha.hasEdge_old (Nat.ne_of_lt hlt)).mp hedge
    obtain ⟨b, hc, hb⟩ := h.edge u v x y hold hx hy ht
    exact ⟨b, (DependencyPolicy.conflict_congr hargs hargs' _ b).mpr hc, hbetween hb⟩
  · obtain ⟨-, b, hxb, hc⟩ := (h.hasEdge_new hl ha hx).mp hedge
    refine ⟨b, (DependencyPolicy.conflict_congr hargs rfl _ b).mpr hc, hbetween ?_⟩
    exact fun k z huk _ hz => h.released u k x z b hx hz huk ht hxb

/-- **A new vertex comes in.** -/
theorem append (h : d.Succession) (hl : d.Linked) (ha : d.Appended e d') (hu : e.Unused)
    (hfresh : e.active = e.accesses) : d'.Succession where
  active_sub v x' hx' a hmem := by
    rcases lt_or_eq_of_append ha hx' with hlt | ⟨rfl, rfl⟩
    · obtain ⟨x, hx, hargs, -⟩ := old_of_append ha hx' hlt
      rw [Element.accesses, hargs]
      exact h.active_sub v x hx a (active_of_append ha hx hx' a hmem)
    · exact hfresh ▸ hmem
  mem_frontier v x' hx' ht hne := h.mem_frontier_of_append ha hx' ht hne
  released u v x' y' b hx' hy' huv ht hb := by
    rw [ha.policy]
    exact h.released_of_append ha hx' hy' huv ht hb
  carried u x' b hx' ht hb := h.carried_of_append hl ha hu hfresh hx' ht hb
  linked u v x' y' b hx' hy' huv ht hc := by
    obtain ⟨x, hx, hargs, hstate⟩ :=
      old_of_append ha hx' (Nat.lt_of_lt_of_le huv (le_of_append ha hy'))
    rw [ha.policy] at hc ⊢
    rw [Element.isTerminal, hstate] at ht
    rcases lt_or_eq_of_append ha hy' with hlt | ⟨rfl, rfl⟩
    · obtain ⟨y, hy, hargs', -⟩ := old_of_append ha hy' hlt
      refine (h.linked u v x y b hx hy huv ht ((DependencyPolicy.conflict_congr hargs hargs' _
        b).mp hc)).imp (fun hp => hp.mono fun _ _ => ha.hasEdge_mono) ?_
      rintro ⟨k, z, huk, hkv, hz, htakes, hf⟩
      obtain ⟨active, hz'⟩ := ha.element?_of_old hz
      exact ⟨k, _, huk, hkv, hz', (DependencyPolicy.takesOver_congr rfl _ b).trans htakes, hf⟩
    · refine (h.linked_of_append hl ha hx ht
        ((DependencyPolicy.conflict_congr hargs rfl _ b).mp hc)).imp_right ?_
      rintro ⟨k, z, huk, hz, htakes, hf⟩
      obtain ⟨active, hz'⟩ := ha.element?_of_old hz
      exact ⟨k, _, huk, lt_of_element? hz, hz',
        (DependencyPolicy.takesOver_congr rfl _ b).trans htakes, hf⟩
  edge u v x' y' hedge hx' hy' ht := by
    rw [ha.policy]
    exact h.edge_of_append hl ha hedge hx' hy' ht

end Append

end Succession

end Dag

namespace Stage

/-- The succession of the graph, and with every vertex that was handed to the device, its parents
were. -/
structure Successive (s : Stage) : Prop where
  succession : s.dag.Succession
  parent_ticket : ∀ k ∈ s.tickets, ∀ u, s.dag.HasEdge u k.vertex → ∃ l ∈ s.tickets, l.vertex = u

namespace Successive

variable {s t : Stage}

theorem initial (options : ContextOptions) : (Stage.initial options).Successive :=
  ⟨.empty _, by simp [Stage.initial]⟩

theorem congr (h : s.Successive) (hdag : t.dag = s.dag) (htickets : t.tickets = s.tickets) :
    t.Successive :=
  ⟨hdag ▸ h.succession, by rw [hdag, htickets]; exact h.parent_ticket⟩

/-- A vertex that is not over changes its state. -/
theorem modifyElement (h : s.Successive) {v : VertexId} {el : Element}
    (hv : s.dag.element? v = some el) {g : Element → Element} (hg : el.Restated (g el))
    (hdag : t.dag = s.dag.modifyElement v g) (ht : t.Coherent)
    (htickets : ∀ k ∈ t.tickets, ∀ u, s.dag.HasEdge u k.vertex → ∃ l ∈ t.tickets, l.vertex = u) :
    t.Successive := by
  have hfin := fun u w hp => Dag.isFinished_of_path (u := u) (w := w)
    ht.timeline.finished_of_child hp
  refine ⟨?_, fun k hk u huk => htickets k hk u ?_⟩
  · rw [hdag] at hfin ⊢
    exact h.succession.modifyElement hv hg hfin
  · rwa [hdag, Dag.hasEdge_congr (d := s.dag) (by simp)] at huk

theorem fail (h : s.Successive) {v : VertexId} {el : Element} {cause : FailureCause}
    (hv : s.dag.element? v = some el) (hx : el.isTerminal = false)
    (hdag : t.dag = s.dag.modifyElement v fun e => e.fail cause)
    (htickets : t.tickets = s.tickets) (ht : t.Coherent) : t.Successive :=
  h.modifyElement hv (.of_not_terminal hx rfl rfl) hdag ht (by rw [htickets]; exact h.parent_ticket)

/-- A new vertex comes in and is bound or fails. -/
theorem append (h : s.Successive) (hs : s.Coherent) {e : Element} {d : Dag}
    (ha : s.dag.Appended e d) (hu : e.Unused) (hfresh : e.active = e.accesses)
    {g : Element → Element} (hg : ∀ x : Element, x.isTerminal = false → x.Restated (g x))
    (hdag : t.dag = d.modifyElement s.dag.vertices.length g) (htickets : t.tickets = s.tickets)
    (ht : t.Coherent) : t.Successive := by
  have hfin := fun u w hp => Dag.isFinished_of_path (u := u) (w := w)
    ht.timeline.finished_of_child hp
  refine ⟨?_, fun k hk u huk => ?_⟩
  · rw [hdag] at hfin ⊢
    refine (h.succession.append hs.linked ha hu hfresh).modifyElement ha.element?_new ?_ hfin
    exact hg _ (by simp [Element.isTerminal, hu.state, Lifecycle.isTerminal])
  · rw [htickets] at hk ⊢
    obtain ⟨el, hel, -⟩ := hs.timeline.started k hk
    rw [hdag, Dag.hasEdge_congr (d := d) (by simp),
      ha.hasEdge_old (Nat.ne_of_lt (Dag.lt_of_element? hel))] at huk
    exact h.parent_ticket k hk u huk

end Successive

/-- A parent of the first vertex that is due has been handed to the device, unless it failed. -/
theorem Coherent.ticket_of_parent {s : Stage} (h : s.Coherent) {v : VertexId}
    {rest : List VertexId} (hd : s.due = v :: rest) {u : VertexId} (huv : s.dag.HasEdge u v)
    (hf : s.dag.isFailed u = false) : ∃ l ∈ s.tickets, l.vertex = u := by
  have hlt := h.linked.lt_of_hasEdge huv
  obtain ⟨x, hx⟩ := Dag.exists_element? (Nat.lt_trans hlt.1 hlt.2)
  have hstarted := h.started_of_lt hd hlt.1 hx
  cases hstate : x.state with
  | created | scheduled => simp [Element.isStarted, hstate, Lifecycle.isStarted] at hstarted
  | failed => simp [Dag.isFailed, hx, Element.isFailed, hstate] at hf
  | finished =>
      obtain ⟨l, hl, hlu, -⟩ := h.timeline.ran_of_finished u ⟨x, hx, hstate⟩
      exact ⟨l, hl, hlu⟩
  | running =>
      obtain ⟨e, he, -⟩ := h.timeline.event_of_running u x hx hstate
      obtain ⟨t, -, hl⟩ := h.timeline.ticket u x e hx he
      exact ⟨_, hl, rfl⟩

/-- **The succession survives every move**, if new elements hold all they touch. -/
theorem Coherent.successive {P : Rules} {s t : Stage} (h : s.Coherent)
    (hs : s.Successive) (hP : ∀ s e, P.admits s e → e.active = e.accesses) (hm : Move P s t) :
    t.Successive := by
  have ht := h.move hm
  cases hm with
  | advance ha => exact hs.congr rfl rfl
  | adjust ha => exact hs.congr ha.dag ha.tickets
  | finish hv hr _ _ _ =>
      exact hs.modifyElement (g := Element.finish) hv
        (.of_not_terminal (Element.isTerminal_of_running hr) rfl rfl) rfl ht hs.parent_ticket
  | crash hv hr _ _ _ => exact hs.fail hv (Element.isTerminal_of_running hr) rfl rfl ht
  | cascade _ _ hv hx => exact hs.fail hv (Element.isTerminal_of_unstarted hx) rfl rfl ht
  | skip _ _ _ => exact hs.congr rfl rfl
  | shun _ hv hx _ _ => exact hs.fail hv hx rfl rfl ht
  | reject _ _ hv hx _ _ _ => exact hs.fail hv hx rfl rfl ht
  | issue _ hd hv hx _ hw _ =>
      refine hs.modifyElement (g := fun e => e.start s.machine.nextEvent) hv
        (.of_not_terminal hx rfl rfl) rfl ht fun k hk u huk => ?_
      rcases List.mem_append.mp hk with hk | hk
      · obtain ⟨l, hl, hlu⟩ := hs.parent_ticket k hk u huk
        exact ⟨l, List.mem_append_left _ hl, hlu⟩
      · rw [List.mem_singleton.mp hk] at huk
        obtain ⟨x, hxu⟩ := Dag.exists_element?
          (Nat.lt_trans (h.linked.lt_of_hasEdge huk).1 (h.linked.lt_of_hasEdge huk).2)
        have hnot := (Scheduler.waitsFor_parent hw (h.linked.mem_parentVertices.mpr huk) hxu).1
        obtain ⟨l, hl, hlu⟩ := h.ticket_of_parent hd huk (by simp [Dag.isFailed, hxu, hnot])
        exact ⟨l, List.mem_append_left _ hl, hlu⟩
  | @enlist e d t' sch hu hPe hd ha =>
      obtain ⟨happ, hs'⟩ := h.assigned hu hd ha
      exact hs.append h happ hu (hP _ _ hPe) (g := fun e => e.bind t')
        (fun x hx => .of_not_terminal hx rfl rfl) hs'.dag rfl ht
  | @refuse e d error sch hu hPe hd ha =>
      obtain ⟨happ, hs'⟩ := h.limited hu hd ha
      refine hs.append h happ hu (hP _ _ hPe) (g := fun e => e.fail (.launch error.message))
        (fun x hx => .of_not_terminal hx rfl rfl) ?_ rfl ht
      simp only [hs'.dag]
  | drain => exact hs.congr rfl rfl
  | cleanup _ _ _ hc =>
      rw [Scheduler.run_cleanup h.faults h.owned.slots h.owned.events] at hc
      obtain ⟨-, rfl⟩ := Prod.mk.inj hc
      exact hs.congr rfl rfl

theorem Coherent.successive_steps {P : Rules} {s t : Stage} (h : s.Coherent)
    (hs : s.Successive) (hP : ∀ s e, P.admits s e → e.active = e.accesses) (hm : Steps P s t) :
    t.Successive := by
  induction hm with
  | refl => exact hs
  | tail hm hstep ih =>
      exact hstep.elim ((h.steps hm).successive ih hP) fun hd => ih.congr hd.dag hd.tickets

end Stage

end LaunchGraph
