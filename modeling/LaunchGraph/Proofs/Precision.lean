import LaunchGraph.Proofs.EdgeSet

/-!
# Precision — what the two policies order

While no vertex is over, the paths of a graph are what its policy asks for and nothing else: a
vertex has a path to a later one exactly if a chain of conflicts leads from the one to the other
(`Account.path_iff_clashes`).  The edges depend on who took over which buffer, the paths do not.

Two elements that conflict under `withConst` refer to a common buffer, which is all that
`conservative` looks at.  So the paths of the conservative graph include those of the other,
although its edges need not: with a writer and two readers of a buffer, the first reader takes the
buffer over from the writer, and the edge from the writer to the second reader is missing.
-/

namespace LaunchGraph

/-- The conservative policy keeps in order whatever any policy does. -/
theorem DependencyPolicy.Conflict.conservative {p : DependencyPolicy} {x y : Element}
    {b : BufferId} (h : p.Conflict x y b) : DependencyPolicy.conservative.Conflict x y b :=
  ⟨h.1, h.2.1, nofun⟩

namespace Dag

/-- The history in which elements come in, one after the other, and none comes to its end. -/
def arrivals (submissions : List (Work × List Argument)) : List Change :=
  submissions.map fun s => .append s.1 s.2

/-- The earlier of two elements of a list conflicts with the later one on some buffer. -/
def Clash (p : DependencyPolicy) (elements : List Element) (i j : VertexId) : Prop :=
  i < j ∧ ∃ x y b, elements[i]? = some x ∧ elements[j]? = some y ∧ p.Conflict x y b

/-- Where elements come in only, nobody is over. -/
theorem isTerminal_arrivals {p : DependencyPolicy} {submissions : List (Work × List Argument)}
    {d : Dag} (hd : built p (arrivals submissions) = .ok d) (v : VertexId) :
    d.isTerminal v = false := by
  induction submissions using List.reverseRecOn generalizing d with
  | nil =>
      obtain rfl := Except.ok.inj hd
      simp [isTerminal, element?]
  | append_singleton earlier s ih =>
      obtain ⟨d₁, hd₁, h₁⟩ := exists_account p (arrivals earlier)
      have hsplit : arrivals (earlier ++ [s]) = arrivals earlier ++ [.append s.1 s.2] := by
        simp [arrivals]
      rw [hsplit, built_concat_of_ok hd₁] at hd
      obtain ⟨d₂, hd₂, ha⟩ := append_eq (e := .new s.1 s.2) h₁.linked rfl
      obtain rfl : d₂ = d := Except.ok.inj (hd₂.symm.trans hd)
      rw [Account.isTerminal_append ha]
      exact ih hd₁

/-- An edge joins elements that conflict. -/
theorem Account.clash_of_hasEdge {p : DependencyPolicy} {changes : List Change} {d : Dag}
    (h : Account p changes d) {i j : VertexId} (hij : d.HasEdge i j) :
    Clash p (submitted changes) i j := by
  obtain ⟨b, ho⟩ := h.hasEdge_iff.mp hij
  obtain ⟨x, y, hx, hy, hc⟩ := ho.conflict
  exact ⟨ho.lt, x, y, b, hx, hy, hc⟩

/-- **While nobody is over, the paths are the chains of conflicts.** -/
theorem Account.path_iff_clashes {p : DependencyPolicy} {changes : List Change} {d : Dag}
    (h : Account p changes d) (hopen : ∀ v, d.isTerminal v = false) {i j : VertexId} :
    d.Path i j ↔ Relation.TransGen (Clash p (submitted changes)) i j := by
  constructor
  · exact Relation.TransGen.mono (fun _ _ => h.clash_of_hasEdge) i j
  · intro hchain
    -- a conflict is a path, though not always an edge
    have hpath : ∀ {u v}, Clash p (submitted changes) u v → d.Path u v := by
      rintro u v ⟨huv, x, y, b, hx, hy, hc⟩
      exact h.path_of_conflict (fun u _ _ hv => absurd hv (by simp [hopen])) huv hx hy hc (hopen u)
    induction hchain with
    | single hclash => exact hpath hclash
    | tail _ hclash ih => exact ih.trans (hpath hclash)

/-- **The conservative policy orders all that the other one does.**  Whatever elements come in, if
none comes to its end in between, both policies lead to a graph, and every path of the graph under
`withConst` joins two vertices that are joined by a path under `conservative`. -/
theorem conservative_paths (submissions : List (Work × List Argument)) :
    ∃ precise coarse, built .withConst (arrivals submissions) = .ok precise ∧
      built .conservative (arrivals submissions) = .ok coarse ∧
      ∀ i j, precise.Path i j → coarse.Path i j := by
  obtain ⟨precise, hprecise, h⟩ := exists_account .withConst (arrivals submissions)
  obtain ⟨coarse, hcoarse, h'⟩ := exists_account .conservative (arrivals submissions)
  refine ⟨precise, coarse, hprecise, hcoarse, fun i j hpath => ?_⟩
  rw [h.path_iff_clashes (isTerminal_arrivals hprecise)] at hpath
  rw [h'.path_iff_clashes (isTerminal_arrivals hcoarse)]
  refine Relation.TransGen.mono ?_ i j hpath
  rintro u v ⟨huv, x, y, b, hx, hy, hc⟩
  exact ⟨huv, x, y, b, hx, hy, hc.conservative⟩

/-- The edges are not included: a writer and two readers. -/
example :
    let submissions : List (Work × List Argument) :=
      [(.launch 1 "write" {}, [.array .float 0 false]),
       (.launch 2 "read" {}, [.array .float 0 true]),
       (.launch 3 "read" {}, [.array .float 0 true])]
    (built .withConst (arrivals submissions)).map
          (fun d => d.edges.map fun e => (e.source, e.target)) =
        .ok [(0, 1), (0, 2)] ∧
      (built .conservative (arrivals submissions)).map
          (fun d => d.edges.map fun e => (e.source, e.target)) =
        .ok [(0, 1), (1, 2)] := by
  decide

end Dag

end LaunchGraph
