import Mathlib.Data.List.Induction
import Mathlib.Data.List.Nodup
import Mathlib.Tactic.Common
import LaunchGraph.Element

/-!
# Accesses and conflicts

What an element does to a buffer can be read from its arguments: it touches the buffer, and it
writes it if some argument is not constant.  Merging the arguments into one access per buffer
keeps both (`touchesIn_mergeAccesses`, `writesIn_mergeAccesses`), so the decisions of a dependency
policy about merged accesses come down to two questions about whole elements:
`DependencyPolicy.Conflict`, whether two elements have to be kept in order because of a buffer,
and `DependencyPolicy.takesOver`, whether an element stands in for everything before it that
touched the buffer.

The merged accesses themselves are `Element.accessTo` at each of `Element.buffers`, the buffers in
the order of their first occurrence (`Element.accesses_eq`), and a later element picks from active
accesses by their buffers (`Element.dependencies_eq`, `Element.active_supersededBy`).
-/

namespace LaunchGraph

/-- Some argument of the list refers to buffer `b`. -/
def touchesIn (l : List Argument) (b : BufferId) : Bool := l.any fun a => a.buffer? == some b

/-- Some argument of the list refers to buffer `b` and is not constant. -/
def writesIn (l : List Argument) (b : BufferId) : Bool :=
  l.any fun a => a.buffer? == some b && !a.isConst

namespace Element

/-- The element refers to buffer `b`. -/
def touches (e : Element) (b : BufferId) : Bool := touchesIn e.arguments b

/-- The element refers to buffer `b` by an argument that is not constant. -/
def writes (e : Element) (b : BufferId) : Bool := writesIn e.arguments b

/-- Later work on buffer `b` has to wait for the element itself: its access is active. -/
def Holds (e : Element) (b : BufferId) : Prop := ∃ a ∈ e.active, a.buffer? = some b

end Element

namespace DependencyPolicy

/-- Both elements refer to buffer `b`, in a way that the policy orders: under `withConst`, one of
them writes it. -/
def Conflict (p : DependencyPolicy) (e later : Element) (b : BufferId) : Prop :=
  e.touches b = true ∧ later.touches b = true ∧
    (p = .withConst → e.writes b = true ∨ later.writes b = true)

/-- Whoever comes next on buffer `b` need not wait for anything before the element: under
`withConst`, it writes the buffer. -/
def takesOver (p : DependencyPolicy) (e : Element) (b : BufferId) : Bool :=
  match p with
  | .withConst => e.writes b
  | .conservative => e.touches b

end DependencyPolicy

/-! ### Merging -/

theorem writesIn_le_touchesIn {l : List Argument} {b : BufferId} (h : writesIn l b = true) :
    touchesIn l b = true := by
  simp only [writesIn, touchesIn, List.any_eq_true, Bool.and_eq_true] at h ⊢
  obtain ⟨a, ha, hb, -⟩ := h
  exact ⟨a, ha, hb⟩

namespace Argument

theorem aliases_iff {a a' : Argument} :
    a.aliases a' = true ↔ ∃ b, a.buffer? = some b ∧ a'.buffer? = some b := by
  cases a <;> cases a' <;> simp [aliases, buffer?]
  exact eq_comm

@[simp] theorem buffer?_withConst (a : Argument) (c : Bool) :
    (a.withConst c).buffer? = a.buffer? := by
  cases a <;> rfl

theorem isConst_withConst {a : Argument} {b : BufferId} (h : a.buffer? = some b) (c : Bool) :
    (a.withConst c).isConst = c := by
  cases a <;> simp_all [buffer?, withConst, isConst]

theorem isArray_iff {a : Argument} : a.isArray = true ↔ ∃ b, a.buffer? = some b := by
  cases a <;> simp [isArray, buffer?]

end Argument

theorem touchesIn_mergeAccess (l : List Argument) (a : Argument) (b : BufferId) :
    touchesIn (mergeAccess l a) b = (touchesIn l b || touchesIn [a] b) := by
  induction l with
  | nil => rfl
  | cons seen rest ih =>
      simp only [mergeAccess]
      split
      · next h =>
        obtain ⟨c, hs, ha⟩ := Argument.aliases_iff.mp h
        simp only [touchesIn, List.any_cons, Argument.buffer?_withConst, hs, ha, List.any_nil]
        cases some c == some b <;> simp
      · simp only [touchesIn, List.any_cons] at ih ⊢
        rw [ih, Bool.or_assoc]

theorem writesIn_mergeAccess (l : List Argument) (a : Argument) (b : BufferId) :
    writesIn (mergeAccess l a) b = (writesIn l b || writesIn [a] b) := by
  induction l with
  | nil => rfl
  | cons seen rest ih =>
      simp only [mergeAccess]
      split
      · next h =>
        obtain ⟨c, hs, ha⟩ := Argument.aliases_iff.mp h
        simp only [writesIn, List.any_cons, Argument.buffer?_withConst,
          Argument.isConst_withConst hs, hs, ha, List.any_nil]
        cases some c == some b <;> cases seen.isConst <;> cases a.isConst <;> simp
      · simp only [writesIn, List.any_cons] at ih ⊢
        rw [ih, Bool.or_assoc]

/-- Merging adds a buffer to those that are there, or none. -/
theorem buffers_mergeAccess (l : List Argument) {a : Argument} (ha : a.isArray = true) :
    (mergeAccess l a).map Argument.buffer? =
      if a.buffer? ∈ l.map Argument.buffer? then l.map Argument.buffer?
      else l.map Argument.buffer? ++ [a.buffer?] := by
  induction l with
  | nil => simp [mergeAccess]
  | cons seen rest ih =>
      obtain ⟨b, hb⟩ := Argument.isArray_iff.mp ha
      simp only [mergeAccess]
      split
      · next h =>
        obtain ⟨c, hs, hc⟩ := Argument.aliases_iff.mp h
        simp [hs, hc]
      · next h =>
        have hne : a.buffer? ≠ seen.buffer? := fun heq =>
          h (Argument.aliases_iff.mpr ⟨b, heq ▸ hb, hb⟩)
        simp only [List.map_cons, ih, List.mem_cons, hne, false_or]
        split <;> rfl

/-- What merging the array arguments of a list keeps, whatever was merged before. -/
theorem mergeAccess_foldl (l acc : List Argument) (hl : ∀ a ∈ l, a.isArray = true)
    (hacc : (acc.map Argument.buffer?).Nodup) :
    ((l.foldl mergeAccess acc).map Argument.buffer?).Nodup ∧
      (∀ b, touchesIn (l.foldl mergeAccess acc) b = (touchesIn acc b || touchesIn l b)) ∧
      ∀ b, writesIn (l.foldl mergeAccess acc) b = (writesIn acc b || writesIn l b) := by
  induction l generalizing acc with
  | nil => simp [touchesIn, writesIn, hacc]
  | cons a rest ih =>
      have hnodup : ((mergeAccess acc a).map Argument.buffer?).Nodup := by
        rw [buffers_mergeAccess acc (hl a List.mem_cons_self)]
        split
        · exact hacc
        · next hnew => exact List.nodup_append.mpr ⟨hacc, by simp, by simpa using hnew⟩
      obtain ⟨h₁, h₂, h₃⟩ := ih (mergeAccess acc a)
        (fun x hx => hl x (List.mem_cons_of_mem _ hx)) hnodup
      refine ⟨h₁, fun b => ?_, fun b => ?_⟩
      · rw [List.foldl_cons, h₂, touchesIn_mergeAccess, Bool.or_assoc]
        simp [touchesIn]
      · rw [List.foldl_cons, h₃, writesIn_mergeAccess, Bool.or_assoc]
        simp [writesIn]

theorem buffers_mergeAccesses (l : List Argument) :
    ((mergeAccesses l).map Argument.buffer?).Nodup :=
  (mergeAccess_foldl _ [] (fun _ ha => (List.mem_filter.mp ha).2) List.nodup_nil).1

@[simp] theorem touchesIn_mergeAccesses (l : List Argument) (b : BufferId) :
    touchesIn (mergeAccesses l) b = touchesIn l b := by
  rw [mergeAccesses, (mergeAccess_foldl _ [] (fun _ ha => (List.mem_filter.mp ha).2)
    List.nodup_nil).2.1 b]
  simp only [touchesIn, List.any_nil, Bool.false_or, List.any_filter]
  refine congrArg l.any (funext fun a => ?_)
  cases a <;> simp [Argument.isArray, Argument.buffer?]

@[simp] theorem writesIn_mergeAccesses (l : List Argument) (b : BufferId) :
    writesIn (mergeAccesses l) b = writesIn l b := by
  rw [mergeAccesses, (mergeAccess_foldl _ [] (fun _ ha => (List.mem_filter.mp ha).2)
    List.nodup_nil).2.2 b]
  simp only [writesIn, List.any_nil, Bool.false_or, List.any_filter]
  refine congrArg l.any (funext fun a => ?_)
  cases a <;> simp [Argument.isArray, Argument.buffer?]

/-! ### Decisions about elements -/

theorem DependencyPolicy.touches_of_takesOver {p : DependencyPolicy} {e : Element} {b : BufferId}
    (h : p.takesOver e b = true) : e.touches b = true := by
  cases p with
  | withConst => exact writesIn_le_touchesIn h
  | conservative => exact h

/-- Whoever takes over a buffer conflicts with everything before it that touched the buffer. -/
theorem DependencyPolicy.conflict_of_takesOver {p : DependencyPolicy} {e later : Element}
    {b : BufferId} (he : e.touches b = true) (h : p.takesOver later b = true) :
    p.Conflict e later b :=
  ⟨he, touches_of_takesOver h, fun hp => .inr (by subst hp; exact h)⟩

/-- Whoever has taken over a buffer conflicts with everything after it that touches the buffer. -/
theorem DependencyPolicy.conflict_after_takesOver {p : DependencyPolicy} {e later : Element}
    {b : BufferId} (h : p.takesOver e b = true) (hl : later.touches b = true) :
    p.Conflict e later b :=
  ⟨touches_of_takesOver h, hl, fun hp => .inl (by subst hp; exact h)⟩

namespace Element

variable {p : DependencyPolicy} {e later : Element} {a : Argument} {b : BufferId}

theorem exists_access (h : e.touches b = true) : ∃ a ∈ e.accesses, a.buffer? = some b := by
  rw [touches, ← touchesIn_mergeAccesses] at h
  simpa [touchesIn, accesses] using h

theorem touches_of_access (ha : a ∈ e.accesses) (hb : a.buffer? = some b) :
    e.touches b = true := by
  rw [touches, ← touchesIn_mergeAccesses]
  simp only [touchesIn, List.any_eq_true]
  exact ⟨a, ha, by simp [hb]⟩

/-- An element has one access to a buffer, which is constant unless the element writes it. -/
theorem isConst_of_access (ha : a ∈ e.accesses) (hb : a.buffer? = some b) :
    a.isConst = !e.writes b := by
  have hwrites : e.writes b = true ↔ ∃ x ∈ e.accesses, x.buffer? = some b ∧ x.isConst = false := by
    rw [writes, ← writesIn_mergeAccesses]
    simp [writesIn, accesses]
  cases hc : a.isConst with
  | false => simp [hwrites.mpr ⟨a, ha, hb, hc⟩]
  | true =>
      refine (Bool.not_eq_true' _).mpr ?_ |>.symm
      by_contra hw
      obtain ⟨x, hx, hxb, hxc⟩ := hwrites.mp (by simpa using hw)
      obtain rfl := List.inj_on_of_nodup_map (buffers_mergeAccesses e.arguments) ha hx
        (hb.trans hxb.symm)
      simp [hc] at hxc

/-- Two accesses to a buffer conflict if the elements do. -/
theorem conflicts_iff {x : Argument} (ha : a ∈ e.accesses) (hb : a.buffer? = some b)
    (hx : x ∈ later.accesses) (hxb : x.buffer? = some b) :
    p.conflicts a x = true ↔ p.Conflict e later b := by
  have halias : a.aliases x = true := Argument.aliases_iff.mpr ⟨b, hb, hxb⟩
  have ht := touches_of_access ha hb
  have htl := touches_of_access hx hxb
  cases p <;> simp [DependencyPolicy.conflicts, DependencyPolicy.Conflict, halias, ht, htl,
    isConst_of_access ha hb, isConst_of_access hx hxb]

theorem aliases_of_conflicts {x : Argument} (h : p.conflicts a x = true) :
    a.aliases x = true := by
  cases p <;> simp_all [DependencyPolicy.conflicts]

theorem conflicting?_isSome (ha : a ∈ e.accesses) (hb : a.buffer? = some b) :
    (conflicting? p a later.accesses).isSome = true ↔ p.Conflict e later b := by
  simp only [conflicting?, List.find?_isSome]
  constructor
  · rintro ⟨x, hx, hc⟩
    obtain ⟨b', hb', hxb⟩ := Argument.aliases_iff.mp (aliases_of_conflicts hc)
    obtain rfl : b = b' := Option.some.inj (hb.symm.trans hb')
    exact (conflicts_iff ha hb hx hxb).mp hc
  · intro h
    obtain ⟨x, hx, hxb⟩ := exists_access h.2.1
    exact ⟨x, hx, (conflicts_iff ha hb hx hxb).mpr h⟩

theorem supersedes_of_conflicting? {x : Argument} (hb : a.buffer? = some b)
    (h : conflicting? p a later.accesses = some x) : p.supersedes a x = p.takesOver later b := by
  obtain ⟨b', hb', hxb⟩ := Argument.aliases_iff.mp (aliases_of_conflicts (List.find?_some h))
  obtain rfl : b = b' := Option.some.inj (hb.symm.trans hb')
  have hx := List.mem_of_find?_eq_some h
  cases p with
  | withConst =>
      simp [DependencyPolicy.supersedes, DependencyPolicy.takesOver, isConst_of_access hx hxb]
  | conservative =>
      simp [DependencyPolicy.supersedes, DependencyPolicy.takesOver, touches_of_access hx hxb]

/-- **A later element depends on an element** that it conflicts with on a buffer that the element
still holds. -/
theorem dependencies_ne_nil (hsub : ∀ a ∈ e.active, a ∈ e.accesses) :
    e.dependencies p later ≠ [] ↔ ∃ b, e.Holds b ∧ p.Conflict e later b := by
  rw [dependencies, Ne, List.filter_eq_nil_iff]
  simp only [not_forall, not_not]
  constructor
  · rintro ⟨a, ha, hc⟩
    obtain ⟨x, hx⟩ := Option.isSome_iff_exists.mp hc
    obtain ⟨b, hb, -⟩ := Argument.aliases_iff.mp (aliases_of_conflicts (List.find?_some hx))
    exact ⟨b, ⟨a, ha, hb⟩, (conflicting?_isSome (hsub a ha) hb).mp hc⟩
  · rintro ⟨b, ⟨a, ha, hb⟩, h⟩
    exact ⟨a, ha, (conflicting?_isSome (hsub a ha) hb).mpr h⟩

/-- **A later element leaves an element those buffers** that it does not take over. -/
theorem holds_supersededBy (hsub : ∀ a ∈ e.active, a ∈ e.accesses) :
    (e.supersededBy p later).Holds b ↔ e.Holds b ∧ p.takesOver later b = false := by
  simp only [Holds, supersededBy, List.mem_filter]
  constructor
  · rintro ⟨a, ⟨ha, hkeep⟩, hb⟩
    refine ⟨⟨a, ha, hb⟩, ?_⟩
    by_contra htakes
    have hconflict := DependencyPolicy.conflict_of_takesOver (p := p)
      (touches_of_access (hsub a ha) hb) (by simpa using htakes)
    obtain ⟨x, hx⟩ :=
      Option.isSome_iff_exists.mp ((conflicting?_isSome (hsub a ha) hb).mpr hconflict)
    simp [hx, supersedes_of_conflicting? hb hx, htakes] at hkeep
  · rintro ⟨⟨a, ha, hb⟩, htakes⟩
    refine ⟨a, ⟨ha, ?_⟩, hb⟩
    cases hx : conflicting? p a later.accesses with
    | none => rfl
    | some x => simp [supersedes_of_conflicting? hb hx, htakes]

end Element

/-! ### What the decisions depend on -/

namespace Element

theorem touches_congr {x x' : Element} (h : x'.arguments = x.arguments) (b : BufferId) :
    x'.touches b = x.touches b := by
  rw [touches, touches, h]

theorem writes_congr {x x' : Element} (h : x'.arguments = x.arguments) (b : BufferId) :
    x'.writes b = x.writes b := by
  rw [writes, writes, h]

end Element

namespace DependencyPolicy

theorem takesOver_congr {x x' : Element} (h : x'.arguments = x.arguments) (p : DependencyPolicy)
    (b : BufferId) : p.takesOver x' b = p.takesOver x b := by
  cases p
  · exact Element.writes_congr h b
  · exact Element.touches_congr h b

theorem conflict_congr {x x' y y' : Element} (hx : x'.arguments = x.arguments)
    (hy : y'.arguments = y.arguments) (p : DependencyPolicy) (b : BufferId) :
    p.Conflict x' y' b ↔ p.Conflict x y b := by
  simp only [Conflict, Element.touches_congr hx, Element.touches_congr hy,
    Element.writes_congr hx, Element.writes_congr hy]

end DependencyPolicy

/-! ### Merged accesses in order -/

/-- The type of the first argument of the list that refers to buffer `b`. -/
def typeIn (l : List Argument) (b : BufferId) : ElementType :=
  ((l.find? fun a => a.buffer? == some b).map Argument.type).getD .void

instance (p : DependencyPolicy) (e later : Element) (b : BufferId) :
    Decidable (p.Conflict e later b) :=
  inferInstanceAs (Decidable (_ ∧ _ ∧ (_ → _)))

namespace Element

/-- The buffers that the element refers to, in the order of their first occurrence. -/
def buffers (e : Element) : List BufferId := (e.arguments.filterMap Argument.buffer?).eraseDups

/-- All that the element does to buffer `b`, as one argument: typed like its first argument on the
buffer, and constant unless it writes the buffer. -/
def accessTo (e : Element) (b : BufferId) : Argument := .array (typeIn e.arguments b) b !e.writes b

end Element

theorem mergeAccesses_concat (l : List Argument) (a : Argument) :
    mergeAccesses (l ++ [a]) =
      if a.isArray then mergeAccess (mergeAccesses l) a else mergeAccesses l := by
  cases h : a.isArray <;> simp [mergeAccesses, List.filter_append, h]

/-- A merged access comes from one that was there, or is new and of a buffer that was not. -/
theorem mem_mergeAccess {l : List Argument} {a c : Argument} (h : c ∈ mergeAccess l a) :
    (∃ s ∈ l, c.buffer? = s.buffer? ∧ c.type = s.type) ∨
      c = a ∧ ∀ s ∈ l, s.aliases a = false := by
  induction l with
  | nil => exact .inr ⟨by simpa [mergeAccess] using h, by simp⟩
  | cons seen rest ih =>
      simp only [mergeAccess] at h
      split at h
      · rcases List.mem_cons.mp h with rfl | h
        · exact .inl ⟨seen, List.mem_cons_self, by simp, by cases seen <;> rfl⟩
        · exact .inl ⟨c, List.mem_cons_of_mem _ h, rfl, rfl⟩
      · next hne =>
        rcases List.mem_cons.mp h with rfl | h
        · exact .inl ⟨c, List.mem_cons_self, rfl, rfl⟩
        · rcases ih h with ⟨s, hs, hc⟩ | ⟨rfl, hs⟩
          · exact .inl ⟨s, List.mem_cons_of_mem _ hs, hc⟩
          · exact .inr ⟨rfl, List.forall_mem_cons.mpr ⟨by simpa using hne, hs⟩⟩

theorem typeIn_concat (l : List Argument) (a : Argument) (b : BufferId) :
    typeIn (l ++ [a]) b = if touchesIn l b then typeIn l b else typeIn [a] b := by
  by_cases h : touchesIn l b = true
  · obtain ⟨x, hx⟩ := Option.isSome_iff_exists.mp (List.find?_isSome.mpr (List.any_eq_true.mp h))
    simp [typeIn, List.find?_append, h, hx]
  · have hnone : l.find? (fun a => a.buffer? == some b) = none := by
      simpa [touchesIn, List.find?_eq_none] using h
    simp [typeIn, List.find?_append, h, hnone]

/-- A merged access has the type of the first argument on its buffer. -/
theorem type_of_mem_mergeAccesses {l : List Argument} {c : Argument} {b : BufferId}
    (h : c ∈ mergeAccesses l) (hb : c.buffer? = some b) : c.type = typeIn l b := by
  induction l using List.reverseRecOn generalizing c with
  | nil => simp [mergeAccesses] at h
  | append_singleton l a ih =>
      have hold : ∀ s ∈ mergeAccesses l, s.buffer? = some b → touchesIn l b = true := by
        intro s hs hsb
        rw [← touchesIn_mergeAccesses, touchesIn, List.any_eq_true]
        exact ⟨s, hs, by simp [hsb]⟩
      rw [mergeAccesses_concat] at h
      rw [typeIn_concat]
      split at h
      · rcases mem_mergeAccess h with ⟨s, hs, hcb, hct⟩ | ⟨rfl, hs⟩
        · rw [if_pos (hold s hs (hcb ▸ hb)), hct, ih hs (hcb ▸ hb)]
        · have hnot : ¬ touchesIn l b = true := by
            rw [← touchesIn_mergeAccesses, touchesIn, List.any_eq_true]
            rintro ⟨s, hmem, hsb⟩
            have halias := Argument.aliases_iff.mpr ⟨b, by simpa using hsb, hb⟩
            simp [hs s hmem] at halias
          rw [if_neg hnot]
          simp [typeIn, hb]
      · rw [if_pos (hold c h hb), ih h hb]

theorem exists_buffer_of_mem_mergeAccesses {l : List Argument} {c : Argument}
    (h : c ∈ mergeAccesses l) : ∃ b, c.buffer? = some b := by
  induction l using List.reverseRecOn generalizing c with
  | nil => simp [mergeAccesses] at h
  | append_singleton l a ih =>
      rw [mergeAccesses_concat] at h
      split at h
      · next harray =>
        rcases mem_mergeAccess h with ⟨s, hs, hcb, -⟩ | ⟨rfl, -⟩
        · exact hcb ▸ ih hs
        · exact Argument.isArray_iff.mp harray
      · exact ih h

theorem eraseDups_concat (l : List BufferId) (b : BufferId) :
    (l ++ [b]).eraseDups = if b ∈ l then l.eraseDups else l.eraseDups ++ [b] := by
  rw [List.eraseDups_append, List.removeAll, List.filter_singleton]
  by_cases h : b ∈ l <;> simp [h, List.eraseDups_cons]

/-- Merging keeps the buffers in the order of their first occurrence. -/
theorem buffers_eq_eraseDups (l : List Argument) :
    (mergeAccesses l).map Argument.buffer? =
      ((l.filterMap Argument.buffer?).eraseDups).map some := by
  induction l using List.reverseRecOn with
  | nil => rfl
  | append_singleton l a ih =>
      rw [mergeAccesses_concat]
      cases hb : a.buffer? with
      | none =>
          have harray : a.isArray = false := by
            cases a <;> simp_all [Argument.buffer?, Argument.isArray]
          simpa [harray, hb] using ih
      | some b =>
          have harray : a.isArray = true := Argument.isArray_iff.mpr ⟨b, hb⟩
          rw [if_pos harray, buffers_mergeAccess _ harray, ih, hb, List.filterMap_append,
            List.filterMap_cons_some hb, List.filterMap_nil, eraseDups_concat]
          by_cases hin : b ∈ l.filterMap Argument.buffer?
          · rw [if_pos hin, if_pos (by simpa using hin)]
          · rw [if_neg hin, if_neg (by simpa using hin)]
            simp

namespace Element

variable {e later : Element} {p : DependencyPolicy} {b : BufferId} {bs : List BufferId}

theorem mem_buffers : b ∈ e.buffers ↔ e.touches b = true := by
  simp [buffers, touches, touchesIn]

/-- **The accesses of an element**, one for each buffer in the order of their first occurrence. -/
theorem accesses_eq (e : Element) : e.accesses = e.buffers.map e.accessTo := by
  have hself : ∀ c ∈ e.accesses, c.buffer?.map e.accessTo = some c := by
    intro c hc
    obtain ⟨b, hb⟩ := exists_buffer_of_mem_mergeAccesses hc
    have htype := type_of_mem_mergeAccesses hc hb
    have hconst := isConst_of_access hc hb
    cases c with
    | scalar t v => simp [Argument.buffer?] at hb
    | array t b' k =>
        obtain rfl : b' = b := by simpa [Argument.buffer?] using hb
        simp_all [accessTo, Argument.buffer?, Argument.type, Argument.isConst]
  refine List.map_injective_iff.mpr (fun _ _ => Option.some.inj) ?_
  calc e.accesses.map some = e.accesses.map fun c => c.buffer?.map e.accessTo :=
        (List.map_congr_left hself).symm
    _ = (e.accesses.map Argument.buffer?).map (Option.map e.accessTo) := by simp
    _ = (e.buffers.map e.accessTo).map some := by
        rw [accesses, buffers_eq_eraseDups]
        simp [buffers]

theorem nodup_buffers (e : Element) : e.buffers.Nodup := by
  have h := buffers_mergeAccesses e.arguments
  rw [buffers_eq_eraseDups] at h
  exact h.of_map _

theorem accessTo_mem (h : e.touches b = true) : e.accessTo b ∈ e.accesses := by
  rw [accesses_eq]
  exact List.mem_map_of_mem (mem_buffers.mpr h)

@[simp] theorem buffer?_accessTo (e : Element) (b : BufferId) :
    (e.accessTo b).buffer? = some b := rfl

/-- The accesses that a later element waits for, if those to the buffers `bs` are active. -/
theorem dependencies_eq (p : DependencyPolicy) (later : Element)
    (hbs : ∀ b ∈ bs, e.touches b = true) (h : e.active = bs.map e.accessTo) :
    e.dependencies p later = (bs.filter fun b => decide (p.Conflict e later b)).map e.accessTo := by
  rw [dependencies, h, List.filter_map]
  refine congrArg _ (List.filter_congr fun b hb => ?_)
  rw [Bool.eq_iff_iff, decide_eq_true_iff]
  exact conflicting?_isSome (accessTo_mem (hbs b hb)) rfl

/-- What a later element leaves active, if the accesses to the buffers `bs` are. -/
theorem active_supersededBy (hbs : ∀ b ∈ bs, e.touches b = true)
    (h : e.active = bs.map e.accessTo) :
    (e.supersededBy p later).active = (bs.filter fun b => !p.takesOver later b).map e.accessTo := by
  simp only [supersededBy, h, List.filter_map]
  refine congrArg _ (List.filter_congr fun b hb => ?_)
  have hmem := accessTo_mem (hbs b hb)
  cases hx : conflicting? p (e.accessTo b) later.accesses with
  | some x => simp [hx, supersedes_of_conflicting? rfl hx]
  | none =>
      have hnot : ¬ p.Conflict e later b := by
        rw [← conflicting?_isSome hmem rfl, hx]
        simp
      have : p.takesOver later b ≠ true := fun htakes =>
        hnot (DependencyPolicy.conflict_of_takesOver (hbs b hb) htakes)
      simpa [hx] using this

end Element
end LaunchGraph
