import LaunchGraph.Proofs.Barriers
import LaunchGraph.Proofs.Kernels

/-!
# Launches — a call of a kernel is all or nothing

A call that is refused on account of its kernel or its values changes nothing at all.  Any other
call is counted and makes one vertex, whatever else happens on the way: completions are noted, work
that was held back is issued, and there may be no stream for the vertex, which has then failed
(`Context.LaunchOutcome`).

The work of a vertex never changes, so how often a kernel was launched can be read off the graph
(`Dag.launches`).  A kernel that is declared has not been launched and has no vertices, and from
then on, if it is launched by calls alone, its count is the number of its vertices
(`Context.launchCount_ran`).  Over any further run the count of a kernel, whatever it was, grows by
the number of its vertices that are new (`Context.CountsLaunches`).
-/

namespace LaunchGraph

/-- The kernel that the work launches. -/
def Work.kernel? : Work → Option KernelId
  | .launch id _ _ => some id
  | .access .. => none

namespace Dag

/-- The work of the vertices, in order. -/
def works (d : Dag) : List Work := d.vertices.map fun x => x.element.work

/-- How many vertices are launches of kernel `id`. -/
def launches (d : Dag) (id : KernelId) : Nat := d.works.countP fun w => w.kernel? = some id

@[simp] theorem length_works (d : Dag) : d.works.length = d.vertices.length :=
  List.length_map _

theorem getElem?_works (d : Dag) (v : VertexId) :
    d.works[v]? = (d.element? v).map Element.work := by
  rw [works, List.getElem?_map, element?, Option.map_map]
  rfl

/-- The work of old vertices stays. -/
theorem Grows.works {d d' : Dag} (h : d.Grows d') : d.works <+: d'.works := by
  refine List.prefix_iff_getElem?.mpr fun v hv => ?_
  obtain ⟨el, hel⟩ := exists_element? (d := d) (v := v) (by simpa using hv)
  obtain ⟨el', hel', hcontinues⟩ := h.element v el hel
  rw [← List.getElem?_eq_getElem hv, getElem?_works, getElem?_works, hel, hel', Option.map_some,
    Option.map_some, hcontinues.work]

end Dag

namespace Stage

variable {P : Rules} {s t : Stage}

theorem Coherent.works_move (h : s.Coherent) (hm : Move P s t) :
    ∃ more, t.dag.works = s.dag.works ++ more ∧ ∀ w ∈ more, ∃ u e, P.admits u e ∧ e.work = w := by
  obtain ⟨more, hmore⟩ := (h.grows hm).dag.works
  refine ⟨more, hmore.symm, fun w hw => ?_⟩
  obtain ⟨i, hi⟩ := List.mem_iff_getElem?.mp hw
  have hw' : t.dag.works[s.dag.works.length + i]? = some w := by
    rw [← hmore, List.getElem?_append_right (Nat.le_add_right _ _), Nat.add_sub_cancel_left, hi]
  rw [Dag.getElem?_works] at hw'
  obtain ⟨el, hel, rfl⟩ := Option.map_eq_some_iff.mp hw'
  rcases h.element_cases hm hel with ⟨x, hx, -⟩ | ⟨-, -, e, hP, hwork⟩
  · have hlt := Dag.lt_of_element? hx
    rw [Dag.length_works] at hlt
    exact absurd hlt (Nat.not_lt.mpr (Nat.le_add_right _ _))
  · exact ⟨s, e, hP, hwork.symm⟩

/-- **New vertices have the work of elements that were admitted**, and old ones keep theirs. -/
theorem Coherent.works_steps (h : s.Coherent) (hm : Steps P s t) :
    ∃ more, t.dag.works = s.dag.works ++ more ∧ ∀ w ∈ more, ∃ u e, P.admits u e ∧ e.work = w := by
  induction hm with
  | refl => exact ⟨[], by simp, by simp⟩
  | tail hm hstep ih =>
      obtain ⟨more, hworks, hadmitted⟩ := ih
      rcases hstep with hmove | hdist
      · obtain ⟨more', hworks', hadmitted'⟩ := (h.steps hm).works_move hmove
        refine ⟨more ++ more', by rw [hworks', hworks, List.append_assoc], fun w hw => ?_⟩
        exact (List.mem_append.mp hw).elim (hadmitted w) (hadmitted' w)
      · exact ⟨more, by rw [hdist.dag, hworks], hadmitted⟩

/-- Where no launch of a kernel is admitted, there are no more of them. -/
theorem Coherent.launches_steps (h : s.Coherent) (hm : Steps P s t) {id : KernelId}
    (hP : ∀ u e, P.admits u e → e.work.kernel? ≠ some id) :
    t.dag.launches id = s.dag.launches id := by
  obtain ⟨more, hworks, hadmitted⟩ := h.works_steps hm
  have hnone : more.countP (fun w => w.kernel? = some id) = 0 := by
    refine List.countP_eq_zero.mpr fun w hw => ?_
    obtain ⟨u, e, he, rfl⟩ := hadmitted w hw
    simpa using hP u e he
  rw [Dag.launches, hworks, List.countP_append, hnone]
  rfl

end Stage

/-! ### One call -/

namespace Context

/-- The call of kernel `k`, which is known under number `id`, is counted, and its launch is the one
vertex that is new. -/
structure Launches (c : Context) (id : KernelId) (k : Kernel) (config : LaunchConfig)
    (values : List CallValue) (el : Element) (c' : Context) : Prop where
  known : c.kernels.get? id = some k
  kernels : c'.kernels = c.kernels.insert id { k with launchCount := k.launchCount + 1 }
  grows : c.dag.Grows c'.dag
  length : c'.dag.vertices.length = c.dag.vertices.length + 1
  vertex : c'.dag.element? c.dag.vertices.length = some el
  work : el.work = .launch id k.name config
  arguments : k.bind values = .ok el.arguments

/-- What becomes of a call of a kernel. -/
inductive LaunchOutcome (c : Context) (id : KernelId) (config : LaunchConfig)
    (values : List CallValue) : Except Halt VertexId → Context → Prop where
  | unknown (hk : c.kernels.get? id = none) :
      LaunchOutcome c id config values (.error (.error (.unknownKernel s!"#{id}"))) c
  /-- The number of values, or one of them, does not fit. -/
  | refused {k : Kernel} {error : Error} (hk : c.kernels.get? id = some k)
      (hr : k.Misfit values error) : LaunchOutcome c id config values (.error (.error error)) c
  | placed {k : Kernel} {el : Element} {c' : Context} (h : c.Launches id k config values el c') :
      LaunchOutcome c id config values (.ok c.dag.vertices.length) c'
  /-- The device is out of streams. -/
  | unplaced {k : Kernel} {el : Element} {c' : Context} {n : Nat} {reason : String}
      (h : c.Launches id k config values el c') (hlimit : c.device.machine.streamLimit.isSome)
      (hstate : el.state = .failed) (hcause : el.failure = some (.launch reason))
      (hstream : el.stream = none) (hqueue : c.dag.vertices.length ∉ c'.queue.pending) :
      LaunchOutcome c id config values (.error (.error (.device (.outOfStreams n)))) c'

end Context

namespace Stage

variable {s : Stage}

/-- The stage where one more launch of kernel `k` is counted. -/
def counted (s : Stage) (k : Kernel) : Stage :=
  { s with kernels := s.kernels.insert k.id { k with launchCount := k.launchCount + 1 } }

/-- A call that is accepted is counted, and then its element is registered. -/
theorem Coherent.launches (h : s.Coherent) (hd : s.due = []) {k : Kernel} {config : LaunchConfig}
    {values : List CallValue} {arguments : List Argument} (hk : s.kernels.get? k.id = some k)
    (hb : k.bind values = .ok arguments) :
    ∃ r c', (Context.register (.new (.launch k.id k.name config) arguments)).run
        (s.counted k).toContext = (r, c') ∧
      s.toContext.LaunchOutcome k.id config values r c' := by
  have hm : Move (fun _ _ => True : Stage → Element → Prop) s (s.counted k) :=
    .adjust (adjusts_registry s _ _ _)
  have hs := h.move hm
  obtain ⟨r, t, hrun, hmoves, hr⟩ := hs.register (P := fun _ _ => True) hd
    (Element.unused_new (.launch k.id k.name config) arguments) fun _ _ => trivial
  have hkernels : t.kernels = (s.counted k).kernels := by
    have hkept := congrArg Prod.fst (Context.keepsKernels_register
      (.new (.launch k.id k.name config) arguments) (s.counted k).toContext).1
    rwa [hrun] at hkept
  have hgrows := (hs.grows_steps hmoves.steps).dag
  refine ⟨r, t.toContext, hrun, ?_⟩
  rcases hr with ⟨rfl, htaken, -⟩ | ⟨n, rfl, haway⟩
  · obtain ⟨el, hel, hwork, harguments⟩ := htaken.element
    exact .placed ⟨hk, hkernels, hgrows, htaken.length, hel, hwork, harguments ▸ hb⟩
  · refine .unplaced ⟨hk, hkernels, hgrows, haway.length, haway.element, rfl, hb⟩
      haway.limited rfl rfl rfl fun hmem => ?_
    -- only what is in the graph already can be held back
    obtain ⟨x, hx⟩ := h.element_of_held (List.mem_append_right _ (haway.queue ▸ hmem))
    exact Nat.lt_irrefl _ (Dag.lt_of_element? hx)

/-- **Every call of a kernel has one of these outcomes.** -/
theorem Coherent.launchOutcome (h : s.Coherent) (hd : s.due = []) (hn : s.toContext.Numbered)
    (id : KernelId) (config : LaunchConfig) (values : List CallValue) :
    ∃ r c', (Context.launch id config values).run s.toContext = (r, c') ∧
      s.toContext.LaunchOutcome id config values r c' := by
  cases hk : s.kernels.get? id with
  | none =>
      refine ⟨_, _, ?_, .unknown hk⟩
      rw [Context.launch, Action.run_gets_bind, hk]
      rfl
  | some k =>
      rw [Context.launch, Action.run_gets_bind, hk]
      cases hb : k.bind values with
      | error error =>
          refine ⟨_, _, ?_, .refused hk (Kernel.bind_eq_error_iff.mp hb)⟩
          simp only [Kernel.launch, hb]
          rfl
      | ok arguments =>
          obtain rfl : k.id = id := hn id k hk
          simp only [Kernel.launch, hb]
          exact h.launches hd hk hb

end Stage

/-! ### Many calls -/

namespace Context

namespace Launches

variable {c c' : Context} {id : KernelId} {k : Kernel} {config : LaunchConfig}
  {values : List CallValue} {el : Element}

theorem works (h : c.Launches id k config values el c') :
    c'.dag.works = c.dag.works ++ [.launch id k.name config] := by
  obtain ⟨more, hmore⟩ := h.grows.works
  have hlength : more.length = 1 := by
    have heq := congrArg List.length hmore
    rw [List.length_append, Dag.length_works, Dag.length_works, h.length] at heq
    exact Nat.add_left_cancel heq
  obtain ⟨w, rfl⟩ := List.length_eq_one_iff.mp hlength
  have hlast := Dag.getElem?_works c'.dag c.dag.vertices.length
  rw [← hmore, h.vertex, Option.map_some, h.work, ← Dag.length_works] at hlast
  rw [← hmore, Option.some.inj (List.getElem?_concat_length.symm.trans hlast)]

theorem launches (h : c.Launches id k config values el c') (j : KernelId) :
    c'.dag.launches j = c.dag.launches j + if id = j then 1 else 0 := by
  rw [Dag.launches, h.works, List.countP_append, List.countP_singleton]
  simp [Dag.launches, Work.kernel?]

theorem launchCount (h : c.Launches id k config values el c') (j : KernelId) :
    c'.launchCount j = c.launchCount j + if id = j then 1 else 0 := by
  unfold Context.launchCount
  rw [h.kernels, Table.get?_insert]
  split
  · next heq =>
    rw [← heq, h.known]
    rfl
  · rfl

end Launches

/-- What is counted is what is in the graph, after a call as before. -/
theorem LaunchOutcome.launchCount_eq {c c' : Context} {j : KernelId} {config : LaunchConfig}
    {values : List CallValue} {r : Except Halt VertexId}
    (h : c.LaunchOutcome j config values r c') {id : KernelId}
    (hcount : c.launchCount id = c.dag.launches id) :
    c'.launchCount id = c'.dag.launches id := by
  cases h with
  | unknown | refused => exact hcount
  | placed h | unplaced h => rw [h.launchCount, h.launches, hcount]

/-- From `c` to `c'`, the count of kernel `id` has grown by the number of its launches that are new
in the graph. -/
def CountsLaunches (c : Context) (id : KernelId) (c' : Context) : Prop :=
  ∀ k, c.kernels.get? id = some k → ∃ k' n, c'.kernels.get? id = some k' ∧
    k'.launchCount = k.launchCount + n ∧ c'.dag.launches id = c.dag.launches id + n

namespace CountsLaunches

variable {c c' c'' : Context} {id : KernelId}

theorem refl (c : Context) (id : KernelId) : c.CountsLaunches id c :=
  fun k hk => ⟨k, 0, hk, rfl, rfl⟩

theorem trans (h : c.CountsLaunches id c') (h' : c'.CountsLaunches id c'') :
    c.CountsLaunches id c'' := by
  intro k hk
  obtain ⟨k', n, hk', hcount, hlaunches⟩ := h k hk
  obtain ⟨k'', n', hk'', hcount', hlaunches'⟩ := h' k' hk'
  exact ⟨k'', n + n', hk'', by rw [hcount', hcount, Nat.add_assoc],
    by rw [hlaunches', hlaunches, Nat.add_assoc]⟩

/-- A launch is counted as its own kernel's. -/
theorem of_launches {j : KernelId} {k : Kernel} {config : LaunchConfig} {values : List CallValue}
    {el : Element} (h : c.Launches j k config values el c') : c.CountsLaunches id c' := by
  intro x hx
  by_cases hj : j = id
  · subst hj
    obtain rfl : k = x := Option.some.inj (h.known.symm.trans hx)
    refine ⟨{ k with launchCount := k.launchCount + 1 }, 1, ?_, rfl, ?_⟩
    · rw [h.kernels, Table.get?_insert, if_pos rfl]
    · rw [h.launches, if_pos rfl]
  · refine ⟨x, 0, ?_, rfl, ?_⟩
    · rw [h.kernels, Table.get?_insert, if_neg hj, hx]
    · rw [h.launches, if_neg hj]

theorem of_launchOutcome {j : KernelId} {config : LaunchConfig} {values : List CallValue}
    {r : Except Halt VertexId} (h : c.LaunchOutcome j config values r c') :
    c.CountsLaunches id c' := by
  cases h with
  | unknown | refused => exact .refl c id
  | placed h | unplaced h => exact .of_launches h

end CountsLaunches

/-- The command launches kernel `id`, if at all, by a call, and does not give its number, which
context `c` knows, to another kernel. -/
def Command.Spares (c : Context) (id : KernelId) : Command → Prop
  | .register e => e.work.kernel? ≠ some id
  | .declare .. => id < c.nextKernel
  | _ => True

/-- The command launches kernel `id`, if at all, by a call.  Where it makes known a kernel `id` that
was made elsewhere, the kernel has not been launched there, and its number is none of those that are
given out here, which begin with one and are less than `given`. -/
def Command.Tallies (given id : KernelId) : Command → Prop
  | .register e => e.work.kernel? ≠ some id
  | .registerKernel k => k.id = id → k.launchCount = 0 ∧ (id = 0 ∨ given ≤ id)
  | _ => True

end Context

namespace Stage

variable {s : Stage}

/-- What a command does to the vertices of a kernel: it is a call, or there are as many as
before. -/
theorem Coherent.launches_cases (h : s.Coherent) (hd : s.due = []) (hn : s.toContext.Numbered)
    {command : Context.Command} (hc : command.Contained) {id : KernelId}
    (hregister : ∀ e, command = .register e → e.work.kernel? ≠ some id) :
    (∃ j config values r, s.toContext.LaunchOutcome j config values r
      ((Context.perform command).run s.toContext).2) ∨
    (∀ j config values, command ≠ .launch j config values) ∧
      ((Context.perform command).run s.toContext).2.dag.launches id = s.dag.launches id := by
  by_cases hcall : ∃ j config values, command = .launch j config values
  · obtain ⟨j, config, values, rfl⟩ := hcall
    obtain ⟨r, c', hrun, houtcome⟩ := h.launchOutcome hd hn j config values
    rw [Context.perform, Action.snd_run_bind_pure, hrun]
    exact .inl ⟨j, config, values, r, houtcome⟩
  · have hother : ∀ j config values, command ≠ .launch j config values :=
      fun j config values heq => hcall ⟨j, config, values, heq⟩
    have hsubmits : ∀ e, command.Submits s.toContext e → e.work.kernel? ≠ some id := by
      intro e he
      cases command with
      | register e' => exact he.1 ▸ hregister e' rfl
      | launch j config values => exact absurd rfl (hother j config values)
      | access a write =>
          obtain rfl := he
          exact (Option.some_ne_none id).symm
      | _ => exact he.elim
    obtain ⟨r, t, hrun, hsteps, -⟩ := h.perform_steps (P := fun _ e => e.work.kernel? ≠ some id)
      hd hc fun e he _ _ => hsubmits e he
    rw [hrun]
    exact .inr ⟨hother, h.launches_steps hsteps fun _ _ he => he⟩

/-- **Every command counts the launches of a kernel** that it makes by calls. -/
theorem Coherent.countsLaunches (h : s.Coherent) (hd : s.due = []) (hn : s.toContext.Numbered)
    {command : Context.Command} (hc : command.Contained) {id : KernelId}
    (hspares : command.Spares s.toContext id) :
    s.toContext.CountsLaunches id ((Context.perform command).run s.toContext).2 := by
  have hregister : ∀ e, command = .register e → e.work.kernel? ≠ some id := by
    rintro e rfl
    exact hspares
  rcases h.launches_cases hd hn hc hregister with ⟨j, config, values, r, houtcome⟩ | ⟨hother, hsame⟩
  · exact .of_launchOutcome houtcome
  · intro k hk
    have hdeclare : ∀ name signature, command = .declare name signature → id < s.nextKernel := by
      rintro name signature rfl
      exact hspares
    have hkernels :=
      (Context.restocks_perform s.toContext command).get?_eq hk (hother id) hdeclare
    exact ⟨k, 0, hkernels, rfl, hsame⟩

/-- **After every command, what is counted is what is in the graph**, if it was so before and the
command does not give the number of a kernel that is known to another. -/
theorem Coherent.launchCount_perform (h : s.Coherent) (hd : s.due = [])
    (hn : s.toContext.Numbered) {command : Context.Command} (hc : command.Contained)
    {given id : KernelId} (htallies : command.Tallies given id)
    (hfresh : s.nextKernel ≤ id →
      id < ((Context.perform command).run s.toContext).2.nextKernel → s.kernels.get? id = none)
    (hcount : s.toContext.launchCount id = s.dag.launches id) :
    ((Context.perform command).run s.toContext).2.launchCount id =
      ((Context.perform command).run s.toContext).2.dag.launches id := by
  have hregister : ∀ e, command = .register e → e.work.kernel? ≠ some id := by
    rintro e rfl
    exact htallies
  rcases h.launches_cases hd hn hc hregister with ⟨j, config, values, r, houtcome⟩ | ⟨hother, hsame⟩
  · exact houtcome.launchCount_eq hcount
  · have hmade : ∀ k, command = .registerKernel k → k.id = id → k.launchCount = 0 := by
      rintro k rfl hid
      exact (htallies hid).1
    rw [hsame, ← hcount]
    exact (Context.restocks_perform s.toContext command).launchCount_eq (hother id) hmade hfresh

end Stage

namespace Context

theorem nextKernel_le_after (c : Context) (commands : List Command) :
    c.nextKernel ≤ (c.after commands).nextKernel := by
  induction commands generalizing c with
  | nil => exact Nat.le_refl _
  | cons command rest ih => exact Nat.le_trans (restocks_perform c command).nextKernel_le (ih _)

theorem Command.Spares.later {c c' : Context} {id : KernelId} {command : Command}
    (h : command.Spares c id) (hle : c.nextKernel ≤ c'.nextKernel) : command.Spares c' id := by
  cases command with
  | declare name signature => exact Nat.lt_of_lt_of_le h hle
  | _ => exact h

/-- Over any further run, the launches of a kernel that are made by calls are counted. -/
theorem countsLaunches_after {options : ContextOptions} {commands more : List Command}
    (hc : ∀ x ∈ commands, x.Contained) {id : KernelId}
    (hmore : ∀ x ∈ more, x.Contained ∧ x.Spares (ran options commands) id) :
    (ran options commands).CountsLaunches id ((ran options commands).after more) := by
  induction more using List.reverseRecOn with
  | nil => exact .refl _ id
  | append_singleton earlier command ih =>
      have hearlier : ∀ x ∈ earlier, x.Contained ∧ x.Spares (ran options commands) id :=
        fun x hx => hmore x (List.mem_append_left _ hx)
      obtain ⟨hcontained, hspares⟩ := hmore command (by simp)
      have hall : ∀ x ∈ commands ++ earlier, x.Contained := fun x hx =>
        (List.mem_append.mp hx).elim (hc x) fun hx => (hearlier x hx).1
      have hran : (ran options commands).after earlier = ran options (commands ++ earlier) :=
        (after_append _ commands earlier).symm
      obtain ⟨s, hs, -, h, hd⟩ := Stage.exists_stage_ran options (P := fun _ _ => True) hall
        fun _ _ _ _ _ _ => trivial
      have hs' : Stage.toContext s = (ran options commands).after earlier := hs.trans hran.symm
      rw [after_concat]
      refine (ih hearlier).trans ?_
      rw [← hs']
      refine h.countsLaunches hd (hs ▸ numbered_ran options _) hcontained (hspares.later ?_)
      rw [hs']
      exact nextKernel_le_after _ earlier

/-- A kernel that is known has a number that was given out, or one that is not to be given out. -/
theorem lt_nextKernel_or_le {options : ContextOptions} {commands : List Command}
    {given id : KernelId} (htallies : ∀ x ∈ commands, x.Tallies given id)
    (hknown : ((ran options commands).kernels.get? id).isSome) :
    id < (ran options commands).nextKernel ∨ given ≤ id := by
  induction commands using List.reverseRecOn with
  | nil => cases hknown
  | append_singleton earlier command ih =>
      have hr := restocks_perform (ran options earlier) command
      rw [← ran_concat] at hr
      rcases hr.known_cases hknown with hknown | hgiven | ⟨k, rfl, hid⟩
      · exact (ih (fun x hx => htallies x (List.mem_append_left _ hx)) hknown).imp_left
          fun hlt => Nat.lt_of_lt_of_le hlt hr.nextKernel_le
      · exact .inl hgiven
      · obtain ⟨-, rfl | hle⟩ := htallies (.registerKernel k) (by simp) hid
        · exact .inl (nextKernel_le_after (.new options {}) _)
        · exact .inr hle

/-- **A kernel that is launched by calls alone has as many vertices as are counted.** -/
theorem launchCount_ran {options : ContextOptions} {commands : List Command}
    (hc : ∀ x ∈ commands, x.Contained) {given id : KernelId}
    (htallies : ∀ x ∈ commands, x.Tallies given id)
    (hgiven : (ran options commands).nextKernel ≤ given) :
    (ran options commands).launchCount id = (ran options commands).dag.launches id := by
  induction commands using List.reverseRecOn with
  | nil => rfl
  | append_singleton earlier command ih =>
      have hc' : ∀ x ∈ earlier, x.Contained := fun x hx => hc x (List.mem_append_left _ hx)
      have htallies' : ∀ x ∈ earlier, x.Tallies given id :=
        fun x hx => htallies x (List.mem_append_left _ hx)
      rw [ran_concat] at hgiven ⊢
      have hle := (restocks_perform (ran options earlier) command).nextKernel_le
      have hcount := ih hc' htallies' (Nat.le_trans hle hgiven)
      -- a number that is given out now is not that of a kernel that was made elsewhere
      have hfresh : (ran options earlier).nextKernel ≤ id →
          id < ((perform command).run (ran options earlier)).2.nextKernel →
          (ran options earlier).kernels.get? id = none := by
        intro hnext hlt
        refine Option.not_isSome_iff_eq_none.mp fun hknown => ?_
        rcases lt_nextKernel_or_le htallies' hknown with hid | hid
        · exact Nat.not_lt.mpr hnext hid
        · exact Nat.not_lt.mpr (Nat.le_trans hgiven hid) hlt
      obtain ⟨s, hs, -, h, hd⟩ := Stage.exists_stage_ran options (P := fun _ _ => True) hc'
        fun _ _ _ _ _ _ => trivial
      rw [← hs] at hfresh hcount ⊢
      exact h.launchCount_perform hd (hs ▸ numbered_ran options earlier) (hc command (by simp))
        (htallies command (by simp)) hfresh hcount

/-- **A call of a kernel is all or nothing.**  After any contained run, a call of a kernel that is
not known, or with values that do not fit, is refused and leaves everything as it is, the device
included.  Every other call is counted once, as this kernel's, and makes one vertex; it is an error
only if no stream can be had, and then the vertex has failed on its own account, has no stream and
is not held back.

So the count of a kernel that is launched by calls alone is the number of vertices that are launched
from it, from when it is declared, or made known unlaunched.  Of any other kernel this much is true:
over a further run that launches it by calls alone, its count grows by the number of vertices that
are launched from it. -/
theorem launch_all_or_nothing (options : ContextOptions) (commands : List Command)
    (hc : ∀ x ∈ commands, x.Contained) (id : KernelId) :
    let c := ran options commands
    (∀ config values, ∃ r c', (launch id config values).run c = (r, c') ∧
      c.LaunchOutcome id config values r c') ∧
    ((∀ x ∈ commands, x.Tallies c.nextKernel id) → c.launchCount id = c.dag.launches id) ∧
    ∀ more : List Command, (∀ x ∈ more, x.Contained ∧ x.Spares c id) →
      c.CountsLaunches id (c.after more) := by
  refine ⟨fun config values => ?_, fun htallies => launchCount_ran hc htallies (Nat.le_refl _),
    fun more hmore => countsLaunches_after hc hmore⟩
  obtain ⟨s, hs, -, h, hd⟩ := Stage.exists_stage_ran options (P := fun _ _ => True) hc
    fun _ _ _ _ _ _ => trivial
  rw [← hs]
  exact h.launchOutcome hd (hs ▸ numbered_ran options commands) id config values

/-- Two arrays, a kernel that takes an array and a number, and one stream, which a launch on the
first array occupies. -/
def oneStream : List Command :=
  [.allocate .float 4, .allocate .float 4, .declare "scale" "pointer float, sint32",
   .device (.limitStreams 1), .launch 1 {} [.array 0 .float, .int 2]]

/-- A launch for which there is no stream, a call without a number, and a launch that follows the
first one on its stream. -/
def moreCalls : List Command :=
  [.launch 1 {} [.array 1 .float, .int 2], .launch 1 {} [.array 1 .float],
   .launch 1 {} [.array 0 .float, .int 3]]

theorem launch_all_or_nothing_oneStream :
    (∀ x ∈ oneStream, x.Contained ∧ x.Tallies (ran {} oneStream).nextKernel 1) ∧
    (∀ x ∈ moreCalls, x.Contained ∧ x.Spares (ran {} oneStream) 1) ∧
    (∃ c', (launch 1 {} [.array 1 .float, .int 2]).run (ran {} oneStream) =
        (.error (.error (.device (.outOfStreams 1))), c') ∧
      (ran {} oneStream).LaunchOutcome 1 {} [.array 1 .float, .int 2]
        (.error (.error (.device (.outOfStreams 1)))) c') ∧
    (ran {} oneStream).launchCount 1 = 1 ∧
    ∃ k, ((ran {} oneStream).after moreCalls).kernels.get? 1 = some k ∧ k.launchCount = 3 ∧
      ((ran {} oneStream).after moreCalls).dag.launches 1 = 3 := by
  have hc : ∀ x ∈ oneStream, x.Contained ∧ x.Tallies (ran {} oneStream).nextKernel 1 := by
    simp only [oneStream, List.forall_mem_cons]
    exact ⟨⟨trivial, trivial⟩, ⟨trivial, trivial⟩, ⟨trivial, trivial⟩, ⟨rfl, trivial⟩,
      ⟨trivial, trivial⟩, by simp⟩
  have hmore : ∀ x ∈ moreCalls, x.Contained ∧ x.Spares (ran {} oneStream) 1 := by
    simp only [moreCalls, List.forall_mem_cons]
    exact ⟨⟨trivial, trivial⟩, ⟨trivial, trivial⟩, ⟨trivial, trivial⟩, by simp⟩
  obtain ⟨houtcome, htally, hcounts⟩ :=
    launch_all_or_nothing {} oneStream (fun x hx => (hc x hx).1) 1
  refine ⟨hc, hmore, ?_, ?_, ?_⟩
  · obtain ⟨r, c', hrun, h⟩ := houtcome {} [.array 1 .float, .int 2]
    have hr : ((launch 1 {} [.array 1 .float, .int 2]).run (ran {} oneStream)).1 =
        .error (.error (.device (.outOfStreams 1))) := by decide +kernel
    rw [hrun] at hr
    subst hr
    exact ⟨c', hrun, h⟩
  · rw [htally fun x hx => (hc x hx).2]
    decide +kernel
  · have hone : ((ran {} oneStream).kernels.get? 1).map Kernel.launchCount = some 1 := by
      decide +kernel
    have hthree : ((ran {} oneStream).after moreCalls).dag.launches 1 =
        (ran {} oneStream).dag.launches 1 + 2 := by decide +kernel
    obtain ⟨k, hk, hcount⟩ := Option.map_eq_some_iff.mp hone
    obtain ⟨k', n, hk', hcount', hlaunches⟩ := hcounts moreCalls hmore k hk
    obtain rfl : n = 2 := Nat.add_left_cancel (hlaunches.symm.trans hthree)
    exact ⟨k', hk', by rw [hcount', hcount], by decide +kernel⟩

-- The device has to answer: a call that cannot learn how the running work stands has been counted
-- when it is given up, and has made no vertex.
example :
    let c := ran {} (oneStream ++ [.device (.planFault .eventStatus {}),
      .launch 1 {} [.array 0 .float, .int 3]])
    c.launchCount 1 = 2 ∧ c.dag.launches 1 = 1 := by
  decide +kernel

end Context

end LaunchGraph
