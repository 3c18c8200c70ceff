import Mathlib.Data.List.Sort
import LaunchGraph.Proofs.History

/-!
# The frontier — exact after an append, stale until the next

A vertex belongs to the frontier as long as it is not over and has active accesses
(`Dag.isFrontier`).  The frontier that a graph keeps is rebuilt by an append, and then from what it
was and the new vertex only.  That is enough, since a vertex that does not belong to it never comes
to: whatever happens to a vertex, its active accesses only get fewer, and what is over stays so.  So
at every moment the frontier that is kept covers all vertices that belong to it (`Dag.Covered`), and
what an append leaves of it is exact (`Dag.Appended.frontier_eq`).
-/

namespace LaunchGraph.Dag

/-- Every vertex that belongs to the frontier is listed there. -/
def Covered (d : Dag) : Prop := ∀ v, d.isFrontier v = true → v ∈ d.frontier

theorem lt_of_isFrontier {d : Dag} {v : VertexId} (h : d.isFrontier v = true) :
    v < d.vertices.length := by
  obtain ⟨el, hel, -⟩ := isFrontier_iff.mp h
  exact lt_of_element? hel

/-- No vertex comes to belong to the frontier because it is over, or because another one is. -/
theorem Ends.isFrontier {d : Dag} {g : Element → Element} (hg : Ends g) {v w : VertexId}
    (hw : (d.modifyElement v g).isFrontier w = true) : d.isFrontier w = true := by
  obtain ⟨el', hel', hactive, ht⟩ := isFrontier_iff.mp hw
  rw [isTerminal_eq hel'] at ht
  rcases element?_modifyElement_cases hel' with ⟨-, el, -, rfl⟩ | ⟨-, hel⟩
  · simp [hg.isTerminal] at ht
  · exact isFrontier_iff.mpr ⟨el', hel, hactive, (isTerminal_eq hel).trans ht⟩

theorem Covered.mark {d : Dag} (h : d.Covered) {g : Element → Element} (hg : Ends g)
    (v : VertexId) : (d.modifyElement v g).Covered :=
  fun w hw => h w (hg.isFrontier hw)

namespace Appended

variable {d d' : Dag} {e : Element}

/-- **An append makes the frontier exact**, if it was covered. -/
theorem frontier_eq (h : d.Appended e d') (hcovered : d.Covered) :
    d'.frontier = (List.range d'.vertices.length).filter d'.isFrontier := by
  refine h.linked.frontier_sorted.eq_of_mem_iff (List.pairwise_lt_range.filter _) fun v => ?_
  rw [h.frontier, List.mem_filter, List.mem_filter]
  refine and_congr_left fun hf => ⟨fun _ => List.mem_range.mpr (lt_of_isFrontier hf), fun _ => ?_⟩
  by_cases hv : v = d.vertices.length
  · exact List.mem_append_right _ (List.mem_singleton.mpr hv)
  · exact List.mem_append_left _ (hcovered v (h.isFrontier_old hv hf))

theorem covered (h : d.Appended e d') (hcovered : d.Covered) : d'.Covered := by
  intro v hf
  rw [h.frontier_eq hcovered]
  exact List.mem_filter.mpr ⟨List.mem_range.mpr (lt_of_isFrontier hf), hf⟩

end Appended

/-- Every history leads to a graph with a covered frontier. -/
theorem exists_covered (p : DependencyPolicy) (changes : List Change) :
    ∃ d, built p changes = .ok d ∧ d.Linked ∧ d.Covered := by
  induction changes using List.reverseRecOn with
  | nil => exact ⟨_, rfl, .empty p, by simp [Covered, isFrontier]⟩
  | append_singleton changes c ih =>
      obtain ⟨d, hd, hl, hcovered⟩ := ih
      obtain ⟨d', hd', hcases⟩ := change_cases hl c
      refine ⟨d', (built_concat_of_ok hd c).trans hd', ?_⟩
      rcases hcases with ⟨work, arguments, -, ha⟩ | ⟨v, g, -, -, hg, rfl⟩
      · exact ⟨ha.linked, ha.covered hcovered⟩
      · exact ⟨hl.modifyElement v g, hcovered.mark hg v⟩

/-- **The frontier of a graph.**  Whatever was appended to a graph and came to its end there, the
frontier lists every vertex that is not over and has active accesses.  It stays as it is when a
vertex comes to its end; and when an element is appended, it becomes the list of exactly those
vertices of the whole graph, in increasing order. -/
theorem frontier_exact (p : DependencyPolicy) (changes : List Change) :
    ∃ d, built p changes = .ok d ∧
      (∀ v, d.isFrontier v = true → v ∈ d.frontier) ∧
      (∀ c : Change, c.ended?.isSome → ∃ d', built p (changes ++ [c]) = .ok d' ∧
        d'.frontier = d.frontier) ∧
      ∀ work arguments, ∃ d', built p (changes ++ [.append work arguments]) = .ok d' ∧
        d'.frontier = (List.range d'.vertices.length).filter d'.isFrontier := by
  obtain ⟨d, hd, hl, hcovered⟩ := exists_covered p changes
  refine ⟨d, hd, hcovered, fun c hc => ?_, fun work arguments => ?_⟩
  · obtain ⟨d', hd', hcases⟩ := change_cases hl c
    refine ⟨d', (built_concat_of_ok hd c).trans hd', ?_⟩
    rcases hcases with ⟨work, arguments, rfl, -⟩ | ⟨v, g, -, -, -, rfl⟩
    · cases hc
    · rfl
  · obtain ⟨d', hd', ha⟩ := append_eq (e := .new work arguments) hl rfl
    exact ⟨d', (built_concat_of_ok hd _).trans hd', ha.frontier_eq hcovered⟩

end LaunchGraph.Dag
