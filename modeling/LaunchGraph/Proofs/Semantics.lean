import Mathlib.Data.List.Basic
import Mathlib.Tactic.Common
import LaunchGraph.Proofs.Accesses
import LaunchGraph.Proofs.Graph

/-!
# What launches do to memory

An *interpretation* of a graph gives every vertex a meaning: a function on memory that looks at
the buffers the vertex touches and changes those it writes.  Carrying out the vertices in some
order is a fold.  What a buffer holds afterwards was put there by the last vertex that writes it
(`Interpretation.exists_last_write`), so two orders that agree about every pair of vertices of
which one writes what the other touches have the same result, and every vertex finds the same
inputs in both (`Interpretation.carryOut_eq`).
-/

namespace LaunchGraph

namespace Dag

/-- Vertex `v` refers to buffer `b`. -/
def touches (d : Dag) (v : VertexId) (b : BufferId) : Bool := (d.element? v).any (·.touches b)

/-- Vertex `v` refers to buffer `b` by an argument that is not constant. -/
def writes (d : Dag) (v : VertexId) (b : BufferId) : Bool := (d.element? v).any (·.writes b)

theorem touches_of_writes {d : Dag} {v : VertexId} {b : BufferId} (h : d.writes v b = true) :
    d.touches v b = true := by
  cases hx : d.element? v with
  | none => simp [writes, hx] at h
  | some x =>
      simp only [writes, touches, hx, Option.any_some] at h ⊢
      exact writesIn_le_touchesIn h

/-- A meaning for the vertices of a graph: functions on memory, the contents of all buffers. -/
structure Interpretation (d : Dag) (α : Type*) where
  exec : VertexId → (BufferId → α) → BufferId → α
  /-- Only what is written changes. -/
  frame : ∀ v m b, d.writes v b = false → exec v m b = m b
  /-- What is written depends only on what is touched. -/
  congr : ∀ v m m', (∀ b, d.touches v b = true → m b = m' b) →
    ∀ b, d.writes v b = true → exec v m b = exec v m' b

namespace Interpretation

variable {d : Dag} {α : Type*} (I : d.Interpretation α)

/-- The memory after some vertices, carried out one after the other. -/
def carryOut (order : List VertexId) (m : BufferId → α) : BufferId → α :=
  order.foldl (fun m v => I.exec v m) m

theorem carryOut_append (l l' : List VertexId) (m : BufferId → α) :
    I.carryOut (l ++ l') m = I.carryOut l' (I.carryOut l m) :=
  List.foldl_append

/-- A buffer that nobody writes keeps its contents. -/
theorem carryOut_frame {l : List VertexId} {b : BufferId} (h : ∀ v ∈ l, d.writes v b = false)
    (m : BufferId → α) : I.carryOut l m b = m b := by
  induction l generalizing m with
  | nil => rfl
  | cons v rest ih =>
      change I.carryOut rest (I.exec v m) b = m b
      rw [ih (fun u hu => h u (List.mem_cons_of_mem _ hu)), I.frame v m b (h v List.mem_cons_self)]

/-- The contents of a buffer were put there by the last vertex that writes it. -/
theorem carryOut_last {l l' : List VertexId} {w : VertexId} {b : BufferId}
    (h : ∀ v ∈ l', d.writes v b = false) (m : BufferId → α) :
    I.carryOut (l ++ w :: l') m b = I.exec w (I.carryOut l m) b := by
  rw [I.carryOut_append]
  exact I.carryOut_frame h _

/-- Either nobody in a list writes the buffer, or somebody is the last to do so. -/
theorem exists_last_write (d : Dag) (l : List VertexId) (b : BufferId) :
    (∀ v ∈ l, d.writes v b = false) ∨
      ∃ before w after, l = before ++ w :: after ∧ d.writes w b = true ∧
        ∀ v ∈ after, d.writes v b = false := by
  induction l with
  | nil => exact .inl (by simp)
  | cons v rest ih =>
      rcases ih with hnone | ⟨before, w, after, rfl, hw, hafter⟩
      · cases hv : d.writes v b with
        | false => exact .inl (by simpa [hv] using hnone)
        | true => exact .inr ⟨[], v, rest, rfl, hv, hnone⟩
      · exact .inr ⟨v :: before, w, after, rfl, hw, hafter⟩

end Interpretation

/-- An order of all vertices in which, of two vertices that share a buffer and do not both only
read it, the one that was registered first comes first. -/
structure IsFaithful (d : Dag) (order : List VertexId) : Prop where
  nodup : order.Nodup
  mem_iff : ∀ v, v ∈ order ↔ v < d.vertices.length
  before : ∀ u v b, u < v → d.touches u b = true → d.touches v b = true →
    (d.writes u b = true ∨ d.writes v b = true) →
    ∀ earlier later, order = earlier ++ v :: later → u ∈ earlier

namespace IsFaithful

variable {d : Dag} {order : List VertexId}

/-- A vertex is not among those before one that was registered earlier and must come first. -/
theorem not_mem (h : d.IsFaithful order) {u v : VertexId} {b : BufferId} (huv : u < v)
    (hu : d.touches u b = true) (hv : d.touches v b = true)
    (hw : d.writes u b = true ∨ d.writes v b = true) {earlier later : List VertexId}
    (horder : order = earlier ++ u :: later) : v ∉ earlier := by
  intro hmem
  obtain ⟨l, l', rfl⟩ := List.append_of_mem hmem
  have hl : u ∈ l := h.before u v b huv hu hv hw l (l' ++ u :: later) (by simp [horder])
  have hnodup := h.nodup
  rw [horder, List.append_assoc, List.nodup_append] at hnodup
  exact hnodup.2.2 u hl u (by simp) rfl

/-- The vertices that write a buffer come in the order in which they were registered. -/
theorem writer_le (h : d.IsFaithful order) {u w : VertexId} {b : BufferId}
    {l l' rest : List VertexId} (horder : order = (l ++ w :: l') ++ rest)
    (hw : d.writes w b = true) (hlast : ∀ v ∈ l', d.writes v b = false)
    (hu : d.writes u b = true) (hmem : u ∈ l ++ w :: l') : u ≤ w := by
  rcases List.mem_append.1 hmem with hl | hl
  · refine Nat.not_lt.1 fun hwu => ?_
    exact h.not_mem hwu (touches_of_writes hw) (touches_of_writes hu) (.inl hw)
      (horder.trans (List.append_assoc ..)) hl
  · rcases List.mem_cons.1 hl with rfl | hl
    · exact Nat.le_refl _
    · exact absurd hu (by simp [hlast u hl])

end IsFaithful

namespace Interpretation

variable {d : Dag} {α : Type*} (I : d.Interpretation α) {order : List VertexId}

/-- In the order of registration, the last of the first `n` vertices to write a buffer decides
what it holds. -/
theorem carryOut_range {w n : VertexId} {b : BufferId} (hwn : w < n)
    (hlast : ∀ u, w < u → u < n → d.writes u b = false) (m : BufferId → α) :
    I.carryOut (List.range n) m b = I.exec w (I.carryOut (List.range w) m) b := by
  obtain ⟨k, rfl⟩ := Nat.exists_eq_add_of_lt hwn
  rw [Nat.add_assoc, List.range_add, List.range_succ_eq_map, List.map_cons]
  refine I.carryOut_last (fun v hv => ?_) m
  simp only [List.map_map, List.mem_map, List.mem_range] at hv
  obtain ⟨i, hi, rfl⟩ := hv
  exact hlast _ (by simp only [Function.comp_apply]; lia) (by simp only [Function.comp_apply]; lia)

/-- A buffer holds the same after a part of a faithful order and after the first `n` vertices, if
these are written by the same vertices and each of them found the same inputs. -/
theorem carryOut_prefix (h : d.IsFaithful order) {m : BufferId → α} {n : VertexId} {b : BufferId}
    {l rest : List VertexId} (horder : order = l ++ rest)
    (hmem : ∀ w, d.writes w b = true → (w ∈ l ↔ w < n))
    (ih : ∀ w < n, ∀ earlier later, order = earlier ++ w :: later → ∀ b, d.touches w b = true →
      I.carryOut earlier m b = I.carryOut (List.range w) m b) :
    I.carryOut l m b = I.carryOut (List.range n) m b := by
  rcases exists_last_write d l b with hnone | ⟨earlier, w, later, rfl, hw, hlast⟩
  · have hrange : ∀ v ∈ List.range n, d.writes v b = false := by
      intro v hv
      refine Bool.eq_false_iff.2 fun hwrites => ?_
      have hl : v ∈ l := (hmem v hwrites).2 (List.mem_range.1 hv)
      exact absurd hwrites (by simp [hnone v hl])
    rw [I.carryOut_frame hnone, I.carryOut_frame hrange]
  · have hwn : w < n := (hmem w hw).1 (by simp)
    have hrange : ∀ u, w < u → u < n → d.writes u b = false := by
      intro u hwu hun
      refine Bool.eq_false_iff.2 fun hwrites => ?_
      exact absurd hwu (Nat.not_lt.2 (h.writer_le horder hw hlast hwrites ((hmem u hwrites).2 hun)))
    rw [I.carryOut_last hlast, I.carryOut_range hwn hrange]
    exact I.congr w _ _ (ih w hwn earlier (later ++ rest) (by simp [horder])) b hw

/-- In a faithful order every vertex finds in its buffers what it finds in the order of
registration. -/
theorem inputs_eq (h : d.IsFaithful order) (m : BufferId → α) (v : VertexId) :
    ∀ earlier later, order = earlier ++ v :: later → ∀ b, d.touches v b = true →
      I.carryOut earlier m b = I.carryOut (List.range v) m b := by
  induction v using Nat.strongRecOn with
  | ind v ih =>
      intro earlier later horder b hv
      refine I.carryOut_prefix h horder (fun w hw => ⟨fun hmem => ?_, fun hwv => ?_⟩) ih
      · -- a writer among the earlier ones is not `v` itself, and not one that follows it
        have hnodup := h.nodup
        rw [horder, List.nodup_append] at hnodup
        have hne : w ≠ v := hnodup.2.2 w hmem v (by simp)
        refine Nat.lt_of_le_of_ne (Nat.not_lt.1 fun hvw => ?_) hne
        exact h.not_mem hvw hv (touches_of_writes hw) (.inr hw) horder hmem
      · exact h.before w v b hwv (touches_of_writes hw) hv (.inl hw) earlier later horder

/-- A faithful order leaves the same memory as the order of registration. -/
theorem carryOut_eq (h : d.IsFaithful order) (m : BufferId → α) :
    I.carryOut order m = I.carryOut (List.range d.vertices.length) m := by
  funext b
  refine I.carryOut_prefix h (List.append_nil order).symm (fun w _ => h.mem_iff w) ?_
  exact fun w _ => I.inputs_eq h m w

end Interpretation

end Dag

end LaunchGraph
