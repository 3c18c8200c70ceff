import LaunchGraph.Proofs.History

/-!
# The edges of a graph and what they order

The edges of a graph are given by its history: there is one from `i` to `j` exactly if `j` has to
wait for `i` because of some buffer (`Account.hasEdge_iff`).  Where nobody comes to its end before
those it depends on, that is enough to order every conflict: whoever took over the buffer from `i`
is a descendant of `i` and is open as long as `i` is, so a chain of such vertices leads from `i` to
whoever comes later (`path_of_conflict`).
-/

namespace LaunchGraph.Dag

namespace Account

variable {p : DependencyPolicy} {changes : List Change} {d : Dag}

/-- An edge waits for the accesses to the buffers that order its ends. -/
theorem mem_contested_iff (h : Account p changes d) {edge : Edge} (hedge : edge ∈ d.edges)
    {x y : Element} (hx : (submitted changes)[edge.source]? = some x)
    (hy : (submitted changes)[edge.target]? = some y)
    (hopen : WasOpen p changes (edge.target - 1) edge.source) {b : BufferId} :
    b ∈ x.contested p y (((submitted changes).take edge.target).drop (edge.source + 1)) ↔
      Orders p changes edge.source edge.target b := by
  rw [Element.mem_contested]
  constructor
  · rintro ⟨hc, hkept⟩
    refine ⟨(h.linked.edge_lt edge hedge).1, ⟨x, y, hx, hy, hc⟩, fun k z hik hkj hz => ?_, hopen⟩
    refine hkept z (List.mem_iff_getElem?.mpr ⟨k - (edge.source + 1), ?_⟩)
    rw [List.getElem?_drop, Nat.add_sub_of_le hik, List.getElem?_take_of_lt hkj, hz]
  · intro ho
    obtain ⟨x', y', hx', hy', hc⟩ := ho.conflict
    obtain rfl : x = x' := Option.some.inj (hx.symm.trans hx')
    obtain rfl : y = y' := Option.some.inj (hy.symm.trans hy')
    refine ⟨hc, fun z hz => ?_⟩
    obtain ⟨k, hk⟩ := List.mem_iff_getElem?.mp hz
    rw [List.getElem?_drop, List.getElem?_take] at hk
    split at hk
    · next hlt => exact ho.kept _ z (by lia) hlt hk
    · cases hk

theorem hasEdge_iff (h : Account p changes d) {i j : VertexId} :
    d.HasEdge i j ↔ ∃ b, Orders p changes i j b := by
  refine ⟨?_, fun ⟨b, ho⟩ => h.complete i j b ho⟩
  rintro ⟨edge, hedge, rfl, rfl⟩
  obtain ⟨x, y, hx, hy, hopen, hne, hdeps⟩ := h.edges edge hedge
  rw [hdeps, Ne, List.map_eq_nil_iff] at hne
  obtain ⟨b, hb⟩ := List.exists_mem_of_ne_nil _ hne
  exact ⟨b, (h.mem_contested_iff hedge hx hy hopen).mp hb⟩

end Account

/-- **The edges of a graph.**  Every history of a graph can be carried out.  It has an edge from
`i` to `j` exactly if some buffer orders them; the edge lists, for each such buffer once and in the
order in which `i` refers to them first, all that `i` does to it; and the edges into a vertex stand
in the order of their sources. -/
theorem edges_eq_orders (p : DependencyPolicy) (changes : List Change) :
    ∃ d, built p changes = .ok d ∧
      (∀ i j, d.HasEdge i j ↔ ∃ b, Orders p changes i j b) ∧
      (∀ edge ∈ d.edges, ∃ (x : Element) (bs : List BufferId),
        (submitted changes)[edge.source]? = some x ∧ bs.Sublist x.buffers ∧ bs.Nodup ∧
        (∀ b, b ∈ bs ↔ Orders p changes edge.source edge.target b) ∧
        edge.dependencies = bs.map x.accessTo) ∧
      ∀ j, ((d.edges.filter (·.target = j)).map Edge.source).Pairwise (· < ·) := by
  obtain ⟨d, hd, h⟩ := exists_account p changes
  refine ⟨d, hd, fun i j => h.hasEdge_iff, fun edge hedge => ?_, fun j => ?_⟩
  · obtain ⟨x, y, hx, hy, hopen, -, hdeps⟩ := h.edges edge hedge
    exact ⟨x, _, hx, x.contested_sublist p y _, x.nodup_buffers.sublist
      (x.contested_sublist p y _), fun b => h.mem_contested_iff hedge hx hy hopen, hdeps⟩
  · rw [← h.linked.parents_eq]
    exact h.sorted j

/-! ### Conflicts are ordered by paths -/

/-- A vertex comes to its end only after its ancestors. -/
def AncestorClosed (p : DependencyPolicy) (changes : List Change) : Prop :=
  ∀ earlier c d v, earlier ++ [c] <+: changes → c.ended? = some v → built p earlier = .ok d →
    ∀ u, d.Path u v → d.isTerminal u = true

theorem ancestorClosed_concat {p : DependencyPolicy} {changes : List Change} {c : Change} :
    AncestorClosed p (changes ++ [c]) ↔ AncestorClosed p changes ∧
      ∀ d v, c.ended? = some v → built p changes = .ok d →
        ∀ u, d.Path u v → d.isTerminal u = true := by
  constructor
  · intro h
    exact ⟨fun earlier c' d v hpre => h earlier c' d v (hpre.trans (List.prefix_append _ _)),
      fun d v => h changes c d v (List.prefix_refl _)⟩
  · rintro ⟨hold, hlast⟩ earlier c' d v hpre
    rcases List.prefix_concat_iff.mp hpre with heq | hpre
    · obtain ⟨rfl, hc⟩ := List.append_inj' heq rfl
      obtain rfl := List.singleton_inj.mp hc
      exact hlast d v
    · exact hold earlier c' d v hpre

theorem AncestorClosed.of_earlier {p : DependencyPolicy} {earlier changes : List Change}
    (h : AncestorClosed p changes) (hpre : earlier <+: changes) : AncestorClosed p earlier :=
  fun first c d v hfirst => h first c d v (hfirst.trans hpre)

/-- A history keeps its edges. -/
theorem hasEdge_of_earlier {p : DependencyPolicy} {earlier changes : List Change}
    (hpre : earlier <+: changes) {d d' : Dag} (hd : built p earlier = .ok d)
    (hd' : built p changes = .ok d') {u v : VertexId} (huv : d.HasEdge u v) : d'.HasEdge u v := by
  obtain ⟨later, rfl⟩ := hpre
  induction later using List.reverseRecOn generalizing d' with
  | nil =>
      rw [List.append_nil, hd] at hd'
      exact Except.ok.inj hd' ▸ huv
  | append_singleton later c ih =>
      obtain ⟨d₁, hd₁, h₁⟩ := exists_account p (earlier ++ later)
      rw [← List.append_assoc, built_concat_of_ok hd₁] at hd'
      obtain ⟨d₂, hd₂, hcases⟩ := change_cases h₁.linked c
      obtain rfl := Except.ok.inj (hd₂.symm.trans hd')
      have hold := ih hd₁
      rcases hcases with ⟨work, arguments, rfl, ha⟩ | ⟨w, g, -, -, -, rfl⟩
      · exact ha.hasEdge_mono hold
      · exact hold

/-- Where vertices come to their end after their ancestors, the parents of whoever is over are
over too. -/
theorem AncestorClosed.isTerminal_of_hasEdge {p : DependencyPolicy} {changes : List Change}
    (hclosed : AncestorClosed p changes) {d : Dag} (hd : built p changes = .ok d)
    {u v : VertexId} (huv : d.HasEdge u v) (hv : d.isTerminal v = true) :
    d.isTerminal u = true := by
  induction changes using List.reverseRecOn generalizing d with
  | nil =>
      obtain rfl := Except.ok.inj hd
      simp [HasEdge] at huv
  | append_singleton changes c ih =>
      obtain ⟨d₁, hd₁, h₁⟩ := exists_account p changes
      obtain ⟨hold, hlast⟩ := ancestorClosed_concat.mp hclosed
      obtain ⟨d₂, hd₂, hcases⟩ := change_cases h₁.linked c
      rw [built_concat_of_ok hd₁] at hd
      obtain rfl := Except.ok.inj (hd₂.symm.trans hd)
      rcases hcases with ⟨work, arguments, rfl, ha⟩ | ⟨w, g, -, hw, hg, rfl⟩
      · rw [Account.isTerminal_append ha] at hv ⊢
        have hne : v ≠ d₁.vertices.length := by
          rintro rfl
          simp [isTerminal, element?] at hv
        exact ih hold hd₁ ((ha.hasEdge_old hne).mp huv) hv
      · rw [hasEdge_congr (edges_modifyElement d₁ w g)] at huv
        have hu : d₁.isTerminal u = true := by
          by_cases hvw : w = v
          · subst hvw
            exact hlast d₁ w hw hd₁ u (.single huv)
          · refine ih hold hd₁ huv ?_
            simpa [isTerminal, hvw] using hv
        by_cases hwu : w = u
        · obtain ⟨el, hel, -⟩ : ∃ el, d₁.element? u = some el ∧ el.isTerminal = true := by
            simpa [isTerminal, Option.any_eq_true] using hu
          simp [isTerminal, hwu, hel, hg.isTerminal]
        · simpa [isTerminal, hwu] using hu

/-- Where the parents of whoever is over are over, whoever is not over reaches all later vertices
that it conflicts with. -/
theorem Account.path_of_conflict {p : DependencyPolicy} {changes : List Change} {d : Dag}
    (h : Account p changes d)
    (hclosed : ∀ u v, d.HasEdge u v → d.isTerminal v = true → d.isTerminal u = true)
    {i j : VertexId} {x y : Element} {b : BufferId} (hij : i < j)
    (hx : (submitted changes)[i]? = some x) (hy : (submitted changes)[j]? = some y)
    (hc : p.Conflict x y b) (hi : d.isTerminal i = false) : d.Path i j := by
  induction hn : j - i using Nat.strongRecOn generalizing i j x y with
  | ind n ih =>
      by_cases htaken : ∃ k z, i < k ∧ k < j ∧ (submitted changes)[k]? = some z ∧
          p.takesOver z b = true
      · -- whoever took the buffer over stands between the two
        obtain ⟨k, z, hik, hkj, hz, htakes⟩ := htaken
        have hpath : d.Path i k := ih (k - i) (by lia) hik hx hz
          (DependencyPolicy.conflict_of_takesOver hc.1 htakes) hi rfl
        have hk : d.isTerminal k = false := by
          by_contra hk
          have hup : ∀ {u w}, d.Path u w → d.isTerminal w = true → d.isTerminal u = true := by
            intro u w hp
            induction hp with
            | single hedge => exact hclosed _ _ hedge
            | tail _ hedge ih => exact fun hw => ih (hclosed _ _ hedge hw)
          simp [hup hpath (by simpa using hk)] at hi
        exact hpath.trans (ih (j - k) (by lia) hkj hz hy
          (DependencyPolicy.conflict_after_takesOver htakes hc.2.1) hk rfl)
      · have hj : j < d.vertices.length := h.length ▸ (List.getElem?_eq_some_iff.mp hy).1
        refine .single (h.complete i j b ⟨hij, ⟨x, y, hx, hy, hc⟩, ?_,
          h.opened i hi (j - 1) (by lia)⟩)
        intro k z hik hkj hz
        by_contra ht
        exact htaken ⟨k, z, hik, hkj, hz, by simpa using ht⟩

/-- **Conflicts are ordered by paths.**  In a history where vertices come to their end after their
ancestors, a vertex that is not over when a later one is appended has a path to it if the two
conflict. -/
theorem conflicts_ordered (p : DependencyPolicy) (changes : List Change)
    (hclosed : AncestorClosed p changes) : ∃ d, built p changes = .ok d ∧
      ∀ i j x y b, i < j → (submitted changes)[i]? = some x → (submitted changes)[j]? = some y →
        p.Conflict x y b → WasOpen p changes j i → d.Path i j := by
  obtain ⟨d, hd, -⟩ := exists_account p changes
  refine ⟨d, hd, ?_⟩
  rintro i j x y b hij hx hy hc ⟨earlier, work, arguments, d₁, hpre, hlen, hd₁, hi⟩
  obtain ⟨d₂, hd₂, h⟩ := exists_account p (earlier ++ [.append work arguments])
  obtain rfl := Except.ok.inj (hd₁.symm.trans hd₂)
  -- what has come in by then is what is known of both ends
  have hold : ∀ k, k ≤ j → (submitted (earlier ++ [.append work arguments]))[k]? =
      (submitted changes)[k]? := by
    intro k hk
    obtain ⟨later, rfl⟩ := hpre
    have hsplit : submitted (earlier ++ [.append work arguments] ++ later) =
        submitted (earlier ++ [.append work arguments]) ++ submitted later := List.filterMap_append
    rw [hsplit, List.getElem?_append_left]
    simp only [Account.submitted_append, List.length_append, List.length_singleton, hlen]
    lia
  have hpath := h.path_of_conflict
    (fun u v => (hclosed.of_earlier hpre).isTerminal_of_hasEdge hd₁) hij
    (by rw [hold i (Nat.le_of_lt hij)]; exact hx) (by rw [hold j (Nat.le_refl j)]; exact hy) hc hi
  exact hpath.mono fun u v => hasEdge_of_earlier hpre hd₁ hd

/-- Three launches write an array one after the other; one on another array is over. -/
def relay : List Change :=
  [.append (.launch 1 "aside" {}) [.array .float 1 false],
   .append (.launch 2 "first" {}) [.array .float 0 false],
   .finish 0,
   .append (.launch 3 "second" {}) [.array .float 0 false],
   .append (.launch 4 "third" {}) [.array .float 0 true, .array .float 0 false]]

/-- The first and the last of the three are ordered by way of the second. -/
theorem conflicts_ordered_relay : AncestorClosed .withConst relay ∧
    ∃ d, built .withConst relay = .ok d ∧ ¬ d.HasEdge 1 3 ∧ d.Path 1 3 := by
  have hclosed : AncestorClosed .withConst relay := by
    have hnil : AncestorClosed .withConst [] := by simp [AncestorClosed]
    have hstart : ∀ d, built .withConst (relay.take 2) = .ok d → ∀ u, ¬ d.Path u 0 := by
      intro d hd u hp
      obtain ⟨d', hd', h⟩ := exists_account .withConst (relay.take 2)
      obtain rfl := Except.ok.inj (hd'.symm.trans hd)
      exact Nat.not_lt_zero u (h.linked.lt_of_path hp).1
    refine (@ancestorClosed_concat _ (relay.take 4) _).mpr ⟨?_, by simp [Change.ended?]⟩
    refine (@ancestorClosed_concat _ (relay.take 3) _).mpr ⟨?_, by simp [Change.ended?]⟩
    refine (@ancestorClosed_concat _ (relay.take 2) _).mpr ⟨?_, ?_⟩
    · refine (@ancestorClosed_concat _ (relay.take 1) _).mpr ⟨?_, by simp [Change.ended?]⟩
      exact (@ancestorClosed_concat _ [] _).mpr ⟨hnil, by simp [Change.ended?]⟩
    · rintro d v hv hd u hp
      obtain rfl : 0 = v := by simpa [Change.ended?] using hv
      exact absurd hp (hstart d hd u)
  obtain ⟨d, hd, h⟩ := conflicts_ordered .withConst relay hclosed
  have hfacts : (built .withConst relay).toOption.map
      (fun d => (decide (d.HasEdge 1 3), d.isTerminal 1)) = some (false, false) := by decide_cbv
  simp only [hd, Except.toOption, Option.map_some, Option.some.injEq, Prod.mk.injEq,
    decide_eq_false_iff_not] at hfacts
  refine ⟨hclosed, d, hd, hfacts.1, h 1 3 _ _ 0 (by decide) rfl rfl (by decide_cbv) ?_⟩
  exact ⟨relay.take 4, _, _, d, List.prefix_refl relay, rfl, hd, hfacts.2⟩

end LaunchGraph.Dag
