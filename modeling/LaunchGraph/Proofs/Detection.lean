import LaunchGraph.Proofs.Accesses

/-!
# Detection — one element against all that come after it

When later elements come one after the other, an element is asked by each of them in turn what it
has to be waited for (`Element.detected`).  An answer is picked from the accesses that are active,
and takes those away that the later element supersedes, so it depends on everybody who asked
before.

What is left of the element after some of them (`Element.Left`) can be told from the arguments: it
holds the buffers that none of them took over (`Element.kept`), and whoever comes next waits for
those on which the two conflict (`Element.contested`).  So the answers follow a rule about raw
arguments, with no mention of merged or active accesses (`Element.detected_by_arguments`).
-/

namespace LaunchGraph.Element

/-- The accesses that each of the later elements has to wait for, where they come in turn. -/
def detected (p : DependencyPolicy) : Element → List Element → List (List Argument)
  | _, [] => []
  | e, later :: rest => e.dependencies p later :: detected p (e.supersededBy p later) rest

/-- The buffers of the element that none of the later elements takes over. -/
def kept (p : DependencyPolicy) (e : Element) (later : List Element) : List BufferId :=
  e.buffers.filter fun b => later.all fun z => !p.takesOver z b

/-- Those of them on which the element conflicts with `y`, who comes after the later elements. -/
def contested (p : DependencyPolicy) (e y : Element) (later : List Element) : List BufferId :=
  (e.kept p later).filter fun b => decide (p.Conflict e y b)

/-- What is left of element `e` after the later elements: its accesses to the buffers it has kept
are active. -/
structure Left (p : DependencyPolicy) (e : Element) (later : List Element) (x : Element) :
    Prop where
  arguments : x.arguments = e.arguments
  active : x.active = (e.kept p later).map e.accessTo

variable {p : DependencyPolicy} {e x : Element} {later : List Element} {b : BufferId}

theorem mem_kept : b ∈ e.kept p later ↔
    e.touches b = true ∧ ∀ z ∈ later, p.takesOver z b = false := by
  simp [kept, mem_buffers]

theorem mem_contested {y : Element} : b ∈ e.contested p y later ↔
    p.Conflict e y b ∧ ∀ z ∈ later, p.takesOver z b = false := by
  rw [contested, List.mem_filter, mem_kept, decide_eq_true_iff]
  exact ⟨fun h => ⟨h.2, h.1.2⟩, fun h => ⟨⟨h.1.1, h.2⟩, h.1⟩⟩

theorem contested_sublist (p : DependencyPolicy) (e y : Element) (later : List Element) :
    (e.contested p y later).Sublist e.buffers :=
  List.filter_sublist.trans List.filter_sublist

@[simp] theorem kept_nil : e.kept p [] = e.buffers := by simp [kept]

theorem kept_concat (z : Element) : e.kept p (later ++ [z]) =
    (e.kept p later).filter fun b => !p.takesOver z b := by
  simp [kept, List.filter_filter, Bool.and_comm]

theorem accesses_congr (h : x.arguments = e.arguments) (p : DependencyPolicy)
    (later : List Element) : x.kept p later = e.kept p later ∧ x.accessTo = e.accessTo := by
  refine ⟨by rw [kept, kept, buffers, buffers, h], funext fun b => ?_⟩
  rw [accessTo, accessTo, writes_congr h, h]

namespace Left

/-- Nothing is lost before anybody has come. -/
theorem new (p : DependencyPolicy) (work : Work) (arguments : List Argument) :
    Left p (.new work arguments) [] (.new work arguments) where
  arguments := rfl
  active := by
    rw [kept_nil]
    exact accesses_eq (.new work arguments)

/-- The element that is left may be spoken of in place of the whole one. -/
theorem active_self (h : Left p e later x) : x.active = (x.kept p later).map x.accessTo := by
  obtain ⟨hkept, haccess⟩ := accesses_congr h.arguments p later
  rw [h.active, hkept, haccess]

/-- **What the next element has to wait for.** -/
theorem dependencies (h : Left p e later x) (y : Element) :
    x.dependencies p y = (e.contested p y later).map e.accessTo := by
  obtain ⟨hkept, haccess⟩ := accesses_congr h.arguments p later
  rw [dependencies_eq p y (fun b hb => (mem_kept.mp hb).1) h.active_self, hkept, haccess, contested]
  refine congrArg _ (List.filter_congr fun b _ => ?_)
  rw [decide_eq_decide]
  exact DependencyPolicy.conflict_congr h.arguments rfl p b

/-- **The next element takes over buffers**, and the rest is left. -/
theorem supersededBy (h : Left p e later x) (y : Element) :
    Left p e (later ++ [y]) (x.supersededBy p y) where
  arguments := h.arguments
  active := by
    obtain ⟨hkept, haccess⟩ := accesses_congr h.arguments p later
    rw [active_supersededBy (fun b hb => (mem_kept.mp hb).1) h.active_self, hkept, haccess,
      kept_concat]

/-- The answer to the element that comes after some more of them. -/
theorem detected (h : Left p e later x) (more : List Element) (y : Element) (rest : List Element) :
    (x.detected p (more ++ y :: rest))[more.length]? =
      some ((e.contested p y (later ++ more)).map e.accessTo) := by
  induction more generalizing later x with
  | nil => simp [Element.detected, h.dependencies y]
  | cons z more ih => simpa [Element.detected] using ih (h.supersededBy z)

end Left

theorem isConst_accessTo (e : Element) (b : BufferId) : (e.accessTo b).isConst = true ↔
    ∀ a ∈ e.arguments, a.buffer? = some b → a.isConst = true := by
  simp [accessTo, Argument.isConst, writes, writesIn]

/-- **What a sequence of later elements waits for is a matter of raw arguments.**  Of all buffers
among the arguments of an element, in the order of their first occurrence and each once, the
element that comes after `earlier` has to wait for those on which its arguments conflict with those
of the element, if the arguments of nobody before it took over the buffer.  It waits for one access
to each, which is constant if all arguments on the buffer are. -/
theorem detected_by_arguments (p : DependencyPolicy) (work : Work) (arguments : List Argument)
    (earlier : List Element) (y : Element) (rest : List Element) :
    let e := Element.new work arguments
    (e.detected p (earlier ++ y :: rest))[earlier.length]? =
      some ((((arguments.filterMap Argument.buffer?).eraseDups).filter fun b =>
        p.Conflict e y b ∧ ∀ z ∈ earlier, p.takesOver z b = false).map e.accessTo) ∧
    ∀ b, (e.accessTo b).buffer? = some b ∧ ((e.accessTo b).isConst = true ↔
      ∀ a ∈ arguments, a.buffer? = some b → a.isConst = true) := by
  intro e
  refine ⟨?_, fun b => ⟨rfl, e.isConst_accessTo b⟩⟩
  rw [(Left.new p work arguments).detected earlier y rest, List.nil_append, contested, kept,
    List.filter_filter]
  refine congrArg (fun bs => some (bs.map e.accessTo)) (List.filter_congr fun b _ => ?_)
  rw [Bool.eq_iff_iff]
  simp [e]

-- A reader of the first buffer has to wait for its writer and leaves it to be waited for; the
-- writer that comes next takes it over.  A scalar with the number of a buffer is no access to it.
example :
    let e := Element.new (.launch 1 "k" {}) [.array .float 7 true, .scalar .sint64 (.buffer 9),
      .array .float 8 true, .array .float 7 false]
    let reads := Element.ofAccess 7 .float false
    let writes := Element.new (.launch 1 "k" {}) [.array .float 7 false, .array .float 8 false]
    e.detected .withConst [reads, writes, reads] =
      [[.array .float 7 false], [.array .float 7 false, .array .float 8 true], []] := by
  decide +kernel

end LaunchGraph.Element
