import LaunchGraph.Proofs.Runs

/-!
# Steps of the graph — all that ever happens to a graph

Whatever a context is asked to do, and whatever comes of it, its graph changes in a few ways only
(`Dag.Step`): an element is appended, and bound to a stream if one can be had; and a vertex that is
not over starts, finishes or fails.  A step that changes an element in place has just seen that it
is not over, and calls only the device in between.

Nothing is assumed of the context or the device: an operation may fail at any call, and it has
changed the graph by steps all the same (`Context.Stepping.perform`).  So what every step keeps, every
run keeps; the edges of its graph are linked (`Context.linked_ran`), whatever is done to the device.
-/

namespace LaunchGraph

namespace Dag

/-- One change that a context makes to its graph. -/
inductive Step (d : Dag) : Dag → Prop where
  /-- An element is appended. -/
  | append {e : Element} {d' : Dag} (h : d.append e = .ok d') : Step d d'
  /-- An element is appended and bound to a stream. -/
  | place {e : Element} {d' : Dag} (h : d.append e = .ok d') (t : StreamId) :
      Step d (d'.modifyElement d.vertices.length fun e => e.bind t)
  | start {v : VertexId} {e : Element} (he : d.element? v = some e) (ht : e.isTerminal = false)
      (event : EventId) : Step d (d.modifyElement v fun e => e.start event)
  | finish {v : VertexId} {e : Element} (he : d.element? v = some e) (ht : e.isTerminal = false) :
      Step d (d.modifyElement v Element.finish)
  | fail {v : VertexId} {e : Element} (he : d.element? v = some e) (ht : e.isTerminal = false)
      (cause : FailureCause) : Step d (d.modifyElement v fun e => e.fail cause)

/-- Steps, one after the other. -/
def Steps : Dag → Dag → Prop := Relation.ReflTransGen Step

theorem Linked.append {d d' : Dag} {e : Element} (h : d.Linked) (ha : d.append e = .ok d') :
    d'.Linked := by
  by_cases he : e.id = none
  · obtain ⟨d'', hd'', happ⟩ := append_eq h he
    obtain rfl : d' = d'' := Except.ok.inj (ha.symm.trans hd'')
    exact happ.linked
  · simp [Dag.append, Option.isSome_iff_ne_none.mpr he] at ha

theorem Linked.step {d d' : Dag} (h : d.Linked) (hs : d.Step d') : d'.Linked := by
  cases hs with
  | append ha => exact h.append ha
  | place ha t => exact (h.append ha).modifyElement _ _
  | start | finish | fail => exact h.modifyElement _ _

theorem Linked.steps {d d' : Dag} (h : d.Linked) (hs : d.Steps d') : d'.Linked := by
  induction hs with
  | refl => exact h
  | tail _ hstep ih => exact ih.step hstep

end Dag

/-! ### Failure spreads -/

namespace Scheduler

/-- Only vertices that have not been handed over fail. -/
theorem steps_failUnissued (parent : VertexId) (children : List VertexId) (s : Scheduler) :
    s.dag.Steps (failUnissued parent children s).2.dag := by
  fun_induction failUnissued parent children s with
  | case1 => exact .refl
  | case2 _ _ _ _ _ _ ih => exact ih
  | case3 child rest s e he hs t failed u hrest ih =>
      rw [hrest] at ih
      have ht : e.isTerminal = false := Element.isTerminal_of_unstarted (by simpa using hs)
      exact .head (.fail he ht (.parent parent)) ih
  | case4 _ _ _ _ ih => exact ih

theorem steps_failFrom (s : Scheduler) (bound : Nat) (queue : List VertexId) :
    s.dag.Steps (s.failFrom bound queue).dag := by
  induction bound generalizing s queue with
  | zero => exact .refl
  | succ bound ih =>
      cases queue with
      | nil => exact .refl
      | cons p rest => exact (steps_failUnissued p _ s).trans (ih _ _)

/-- A vertex that is not over fails, and its descendants with it. -/
theorem steps_failDescendants {s t : Scheduler} {v : VertexId} {e : Element}
    (he : s.dag.element? v = some e) (ht : e.isTerminal = false) {cause : FailureCause}
    (hdag : t.dag = s.dag.modifyElement v fun e => e.fail cause) :
    s.dag.Steps (t.failDescendants v).dag := by
  have hfailed : s.dag.Step t.dag := hdag ▸ .fail he ht cause
  exact .head hfailed (steps_failFrom t _ _)

end Scheduler

namespace Context

/-- A vertex that is over stays as it is when it is to fail. -/
theorem steps_failVertex (c : Context) (v : VertexId) (cause : FailureCause) :
    c.dag.Steps (c.failVertex v cause).dag := by
  unfold failVertex
  split
  · next e he =>
    split
    · exact .refl
    · next ht =>
      exact Scheduler.steps_failDescendants (s := c.toScheduler) he (by simpa using ht) rfl
  · exact .refl

end Context

/-! ### Steps that leave the graph as it is -/

namespace Scheduler

/-- The step leaves the graph as it is. -/
abbrev KeepsDag {α : Type} (x : Action Scheduler α) : Prop := x.Keeps Scheduler.dag

theorem keepsDag_onDevice {α : Type} (x : Action Device α) : KeepsDag (onDevice x) :=
  fun _ => ⟨rfl, fun _ _ => trivial⟩

theorem keepsDag_synchronizeParents (v : VertexId) : KeepsDag (synchronizeParents v) :=
  (keeps_boundStream v).seq fun _ => (Action.Keeps.gets _).seq fun _ =>
    (Action.Keeps.ofExcept _).seq fun _ =>
      (Action.Keeps.each (fun _ => keepsDag_onDevice _) _).seq fun _ => .done _

theorem keepsDag_recordCompletion (v : VertexId) : KeepsDag (recordCompletion v) :=
  (keeps_boundStream v).seq fun _ => (keepsDag_onDevice _).seq fun _ =>
    (keeps_modifyPool (fun _ _ => rfl) _).seq fun _ => (keepsDag_onDevice _).seq fun _ => .done _

theorem keepsDag_releaseEvent (event : EventId) : KeepsDag (releaseEvent event) :=
  keeps_releaseEvent (fun _ _ => rfl) (keepsDag_onDevice _)

theorem keepsDag_cleanup : KeepsDag cleanup :=
  keeps_cleanup (fun _ _ => rfl) (fun _ => keepsDag_onDevice _) fun _ => keepsDag_onDevice _

theorem keepsDag_acquire : KeepsDag acquire :=
  keeps_acquire (fun _ _ => rfl) (keepsDag_onDevice _)

/-- Choosing a stream for a vertex binds it, or leaves the graph as it is. -/
theorem dag_assign (s : Scheduler) (v : VertexId) :
    ((assign v).run s).2.dag = s.dag ∨
      ∃ t, ((assign v).run s).2.dag = s.dag.modifyElement v fun e => e.bind t := by
  cases he : s.dag.element? v with
  | none =>
      have hrun : (element v).run s = (.error (.breach (.noVertex v)), s) := by simp [element, he]
      rw [assign, Action.run_bind_error hrun]
      exact .inl rfl
  | some e =>
      have hkeeps : KeepsDag (s.findStream v) := by
        unfold findStream
        split
        · exact .done _
        · exact keepsDag_acquire
      rw [run_assign_eq he]
      cases hrun : (s.findStream v).run s with
      | mk r t =>
          have ht := (hkeeps s).1
          rw [hrun] at ht
          cases r with
          | error error =>
              rw [Action.run_bind_error hrun]
              exact .inl ht
          | ok stream =>
              rw [Action.run_bind_ok hrun, ← show t.dag = s.dag from ht]
              exact .inr ⟨stream, rfl⟩

end Scheduler

/-! ### Steps of a context -/

namespace Context

/-- The step leaves the graph as it is. -/
abbrev KeepsDag {α : Type} (x : Action Context α) : Prop := x.Keeps fun c => c.dag

theorem keepsDag_onScheduler {α : Type} {x : Action Scheduler α} (h : Scheduler.KeepsDag x) :
    KeepsDag (onScheduler x) :=
  h.zoom (fun _ _ => rfl) fun _ => rfl

theorem keepsDag_onDevice {α : Type} (x : Action Device α) : KeepsDag (onDevice x) :=
  keepsDag_onScheduler (Scheduler.keepsDag_onDevice x)

theorem keepsDag_poll (v : VertexId) : KeepsDag (poll v) := by
  refine (keeps_element v).seq fun e => ?_
  cases e.event with
  | some event => exact (keepsDag_onDevice _).seq fun _ => .done _
  | none => exact .done _

theorem keepsDag_enqueue (v : VertexId) (mustFlush : Bool) : KeepsDag (enqueue v mustFlush) :=
  fun _ => ⟨rfl, fun _ _ => trivial⟩

theorem keepsDag_drainQueue : KeepsDag drainQueue := fun _ => ⟨rfl, fun _ _ => trivial⟩

/-- From a context with graph `d`, what is done changes the graph by steps, whatever its outcome. -/
def Stepping {α : Type} (d : Dag) (x : Action Context α) : Prop :=
  ∀ c : Context, c.dag = d → d.Steps (x.run c).2.dag

/-- Where the graph has changed by steps, it does so as the rest is done. -/
theorem steps_bind {α β : Type} {d : Dag} {x : Action Context α} {f : α → Action Context β}
    {c : Context} (hx : d.Steps (x.run c).2.dag) (hf : ∀ a d', Stepping d' (f a)) :
    d.Steps ((x >>= f).run c).2.dag := by
  cases hrun : x.run c with
  | mk r t =>
      rw [hrun] at hx
      cases r with
      | ok a =>
          rw [Action.run_bind_ok hrun]
          exact hx.trans (hf a t.dag t rfl)
      | error e =>
          rw [Action.run_bind_error hrun]
          exact hx

namespace Stepping

variable {α β : Type} {d : Dag}

theorem of_keeps {x : Action Context α} (h : KeepsDag x) : Stepping d x := fun c hc => by
  rw [show (x.run c).2.dag = d from (h c).1.trans hc]
  exact .refl

theorem bind {x : Action Context α} {f : α → Action Context β} (hx : Stepping d x)
    (hf : ∀ a d', Stepping d' (f a)) : Stepping d (x >>= f) :=
  fun c hc => steps_bind (hx c hc) hf

/-- After a step that leaves the graph as it is, it is still the same graph. -/
theorem seq {x : Action Context α} {f : α → Action Context β} (hx : KeepsDag x)
    (hf : ∀ a, Stepping d (f a)) : Stepping d (x >>= f) := by
  intro c hc
  have ht := (hx c).1.trans hc
  cases hrun : x.run c with
  | mk r t =>
      rw [hrun] at ht
      cases r with
      | ok a =>
          rw [Action.run_bind_ok hrun]
          exact hf a t ht
      | error e =>
          rw [Action.run_bind_error hrun, show t.dag = d from ht]
          exact .refl

theorem modify {g : Context → Context} (h : ∀ c, c.dag = d → d.Steps (g c).dag) :
    Stepping d (Action.modify g) := h

theorem each {f : β → Action Context Unit} (hf : ∀ d b, Stepping d (f b)) (l : List β) :
    Stepping d (Action.each f l) := by
  induction l generalizing d with
  | nil => exact .of_keeps (.done ())
  | cons b rest ih => exact (hf d b).bind fun _ _ => ih

/-- An element that has been looked up is that of its vertex. -/
theorem element_bind {v : VertexId} {f : Element → Action Context β}
    (hf : ∀ e, d.element? v = some e → Stepping d (f e)) : Stepping d (element v >>= f) := by
  rintro c rfl
  cases hv : c.dag.element? v with
  | some e =>
      rw [element, Action.run_bind_ok (run_onScheduler (Scheduler.run_element hv))]
      exact hf e hv c rfl
  | none =>
      have hrun : (Scheduler.element v).run c.toScheduler =
          (.error (.breach (.noVertex v)), c.toScheduler) := by simp [Scheduler.element, hv]
      rw [element, Action.run_bind_error (run_onScheduler hrun)]
      exact .refl

theorem failVertex (v : VertexId) (cause : FailureCause) :
    Stepping d (Action.modify fun c => c.failVertex v cause) :=
  .modify fun c hc => hc ▸ steps_failVertex c v cause

theorem finishVertex (d : Dag) (v : VertexId) : Stepping d (Context.finishVertex v) := by
  refine element_bind fun e he => seq (.modify fun _ => rfl) fun _ => ?_
  cases ht : e.isTerminal with
  | true => exact .of_keeps (.done ())
  | false =>
      refine bind (.modify fun c hc => ?_) fun _ d' => .of_keeps ?_
      · subst hc
        exact .single (.finish he ht)
      · cases e.event with
        | some event => exact keepsDag_onScheduler (Scheduler.keepsDag_releaseEvent event)
        | none => exact .done ()

theorem observe (d : Dag) : Stepping d Context.observe := by
  refine seq (.gets _) fun running => seq (.collect keepsDag_poll running) fun statuses =>
    bind (each finishVertex _) fun _ d' => .modify ?_
  generalize (statuses.filter fun s => s.2 = .failed).map Prod.fst = failed
  rintro c rfl
  induction failed generalizing c with
  | nil => exact .refl
  | cons v rest ih => exact (steps_failVertex c v _).trans (ih _)

theorem issueVertex (d : Dag) (v : VertexId) : Stepping d (Context.issueVertex v) := by
  refine element_bind fun e he => ?_
  cases ht : e.isTerminal with
  | true => exact .of_keeps (.done ())
  | false =>
      refine seq (keepsDag_onScheduler (Scheduler.keeps_boundStream v)) fun stream =>
        seq (keepsDag_onScheduler (Scheduler.keepsDag_synchronizeParents v)).attempt
          fun synchronized => ?_
      dsimp only
      split
      · exact failVertex v _
      · exact failVertex v _
      · exact failVertex v _
      · refine seq (keepsDag_onDevice _).attempt fun issued => ?_
        cases issued with
        | error error => exact failVertex v _
        | ok =>
            refine seq (keepsDag_onScheduler (Scheduler.keepsDag_recordCompletion v)).attempt
              fun recorded => ?_
            cases recorded with
            | ok event =>
                refine .modify fun c hc => ?_
                subst hc
                exact .single (.start he ht event)
            | error error =>
                refine bind (.modify fun c hc => ?_) fun _ _ => .of_keeps (.fail error)
                subst hc
                exact Scheduler.steps_failDescendants (s := c.toScheduler) he ht rfl

/-- The new vertex is bound, or fails, and the others are as they were. -/
theorem enroll (d : Dag) (e : Element) : Stepping d (Context.enroll e) := by
  rintro c rfl
  cases happ : c.dag.append e with
  | error b =>
      have hrun : (Scheduler.append e).run c.toScheduler = (.error (.breach b), c.toScheduler) := by
        simp [Scheduler.append, Action.run, happ]
      rw [Context.enroll, Action.run_bind_error (run_onScheduler hrun)]
      exact .refl
  | ok d₁ =>
      rw [Context.enroll, Action.run_bind_ok (Stage.run_append happ)]
      refine steps_bind ?_ fun assigned d' => ?_
      · rw [Action.snd_run_attempt]
        rcases Scheduler.dag_assign { c.toScheduler with dag := d₁ } c.dag.vertices.length with
          hdag | ⟨t, hdag⟩
        · exact .single (hdag ▸ .append happ)
        · exact .single (hdag ▸ .place happ t)
      · cases assigned with
        | error error => exact (failVertex _ _).bind fun _ _ => .of_keeps (.fail error)
        | ok stream => exact seq (keepsDag_enqueue _ _) fun ready => .of_keeps (.done _)

theorem register (d : Dag) (e : Element) : Stepping d (Context.register e) := by
  rw [register_eq_enroll]
  refine (observe d).bind fun _ d' => (enroll d' e).bind fun enrolled d' =>
    bind (each issueVertex _) fun _ d' => ?_
  cases e.work.blocksHost with
  | false => exact .of_keeps (.done _)
  | true =>
      refine seq (keeps_element _) fun el => ?_
      cases el.isTerminal with
      | true => exact .of_keeps (.done _)
      | false =>
          exact seq (keepsDag_onDevice _) fun _ => (observe d').bind fun _ _ => .of_keeps (.done _)

theorem flush (d : Dag) : Stepping d Context.flush :=
  (observe d).bind fun _ _ => seq keepsDag_drainQueue fun _ => each issueVertex _

theorem synchronize (d : Dag) : Stepping d Context.synchronize :=
  (flush d).bind fun _ d' => seq (keepsDag_onDevice _) fun _ => observe d'

theorem wait (d : Dag) (v : VertexId) : Stepping d (Context.wait v) := by
  have hverdict : ∀ d', Stepping d' (do
      let e ← element v
      Action.ofExcept (verdict v e)) := fun _ =>
    .of_keeps ((keeps_element v).seq fun _ => .ofExcept _)
  refine (flush d).bind fun _ d' => seq (keeps_element v) fun e => ?_
  cases e.isTerminal with
  | true => exact hverdict d'
  | false =>
      cases e.stream with
      | some stream =>
          exact seq (keepsDag_onDevice _) fun _ => (observe d').bind fun _ => hverdict
      | none => exact (observe d').bind fun _ => hverdict

theorem cleanup (d : Dag) : Stepping d Context.cleanup := by
  have hgive : ∀ d', Stepping d' (onScheduler Scheduler.cleanup) := fun _ =>
    .of_keeps (keepsDag_onScheduler Scheduler.keepsDag_cleanup)
  refine seq (.gets _) fun busy => ?_
  cases busy with
  | true => exact (synchronize d).bind fun _ => hgive
  | false => exact hgive d

theorem launch (d : Dag) (id : KernelId) (config : LaunchConfig) (values : List CallValue) :
    Stepping d (Context.launch id config values) := by
  refine seq (.gets _) fun kernel => ?_
  cases kernel with
  | none => exact .of_keeps (.fail _)
  | some k =>
      exact seq (.ofExcept _) fun out => seq (.modify fun _ => rfl) fun _ => register d out.1

/-- **Every command changes the graph by steps.** -/
theorem perform (d : Dag) (command : Command) : Stepping d (Context.perform command) := by
  cases command with
  | allocate type length =>
      have hkeeps : KeepsDag (allocateArray type length) :=
        (keepsDag_onDevice _).seq fun _ => .modify_seq (fun _ => rfl) (.done _)
      exact .of_keeps (hkeeps.seq fun _ => .done _)
  | registerArray a => exact .of_keeps (.modify_seq (fun _ => rfl) (.done _))
  | declare name signature =>
      have hnew : KeepsDag (newKernel name signature) :=
        (Action.Keeps.gets _).seq fun _ => (Action.Keeps.ofExcept _).seq fun _ =>
          .modify_seq (fun _ => rfl) (.done _)
      have hkeeps : KeepsDag (declareKernel name signature) :=
        hnew.seq fun _ => .modify_seq (fun _ => rfl) (.done _)
      exact .of_keeps (hkeeps.seq fun _ => .done _)
  | registerKernel k => exact .of_keeps (.modify_seq (fun _ => rfl) (.done _))
  | launch id config values => exact (launch d id config values).bind fun _ _ => .of_keeps (.done _)
  | access a write =>
      exact bind (seq (.modify fun _ => rfl) fun _ => register d _) fun _ _ => .of_keeps (.done _)
  | register e => exact (register d e).bind fun _ _ => .of_keeps (.done _)
  | wait v => exact (wait d v).bind fun _ _ => .of_keeps (.done _)
  | state v =>
      exact bind ((observe d).bind fun _ _ => .of_keeps ((keeps_element v).seq fun _ => .done _))
        fun _ _ => .of_keeps (.done _)
  | flush => exact (flush d).bind fun _ _ => .of_keeps (.done _)
  | synchronize => exact (synchronize d).bind fun _ _ => .of_keeps (.done _)
  | cleanup => exact (cleanup d).bind fun _ _ => .of_keeps (.done _)
  | isActive =>
      exact bind ((observe d).bind fun _ _ => .of_keeps (.gets _)) fun _ _ => .of_keeps (.done _)
  | hasPending => exact .of_keeps ((Action.Keeps.gets _).seq fun _ => .done _)
  | summary => exact .of_keeps ((Action.Keeps.gets _).seq fun _ => .done _)
  | device command => exact .of_keeps ((keepsDag_onDevice _).seq fun _ => .done _)

end Stepping

/-- Over any number of commands, the graph changes by steps. -/
theorem steps_after (c : Context) (commands : List Command) :
    c.dag.Steps (c.after commands).dag := by
  induction commands generalizing c with
  | nil => exact .refl
  | cons command rest ih => exact (Stepping.perform c.dag command c rfl).trans (ih _)

/-- **The edges of every graph are linked**, whatever is done to the context and to the device. -/
theorem linked_ran (options : ContextOptions) (commands : List Command) :
    (ran options commands).dag.Linked :=
  (Dag.Linked.empty options.dependency).steps (steps_after (new options {}) commands)

end Context

end LaunchGraph
