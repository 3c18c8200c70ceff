import LaunchGraph.Proofs.Listing
import LaunchGraph.Proofs.Submission

/-!
# Runs of checked workloads

A workload that passes the check can be run to its end, whatever the policies are
(`Workload.checked_outcome`): no call fails, every step becomes the vertex with its number, all of
them finish, and the device has executed each step once.

Once everything has been submitted, synchronizing completes it (`Stage.Complete`).  There is no more
to submit then, so it stays complete while the steps are waited for and the context is cleaned up.
-/

namespace LaunchGraph

namespace Stage

variable {options : ContextOptions} {labels : List String} {s t : Stage}

/-- Where the script has been submitted, there is no more to submit. -/
theorem OnScript.length_eq (h : s.OnScript options labels)
    (hlength : s.dag.vertices.length = labels.length) (hm : Moves (Scripted labels) s t)
    (ht : t.OnScript options labels) : t.dag.vertices.length = labels.length :=
  Nat.le_antisymm ht.length_le (hlength ▸ (h.coherent.grows_steps hm.steps).dag.length)

/-- There are `n` vertices, and all of them have finished. -/
structure Complete (n : Nat) (s : Stage) : Prop where
  length : s.dag.vertices.length = n
  finished : ∀ v < n, s.dag.IsFinished v

namespace Complete

theorem state? {n : Nat} (hc : s.Complete n) {v : VertexId} {x : Lifecycle}
    (hx : s.dag.state? v = some x) : x = .finished := by
  obtain ⟨el, hel, hstate⟩ := Dag.state?_eq_some.mp hx
  obtain ⟨el', hel', hfinished⟩ := hc.finished v (hc.length ▸ Dag.lt_of_element? hel)
  obtain rfl : el = el' := Option.some.inj (hel.symm.trans hel')
  exact hstate.symm.trans hfinished

theorem state_summary {n : Nat} (hc : s.Complete n) {v : VertexSummary}
    (hv : v ∈ s.summary.vertices) : v.state = .finished := by
  obtain ⟨x, hx, rfl⟩ := List.mem_map.mp hv
  obtain ⟨i, hi⟩ := List.getElem?_of_mem hx
  exact hc.state? (Dag.state?_of_element? (Dag.element?_eq_some.mpr ⟨x, hi, rfl⟩))

/-- What is complete stays complete. -/
theorem moves (hc : s.Complete labels.length) (hs : s.OnScript options labels)
    (ht : t.OnScript options labels) (hm : Moves (Scripted labels) s t) :
    t.Complete labels.length where
  length := hs.length_eq hc.length hm ht
  finished v hv := by
    obtain ⟨el, hel, hstate⟩ := hc.finished v hv
    obtain ⟨el', hel', hcontinues⟩ := (hs.coherent.grows_steps hm.steps).dag.element v el hel
    exact ⟨el', hel', (hcontinues.state (Element.isTerminal_of_finished hstate)).trans hstate⟩

/-- Nothing is held back, as that would not have finished. -/
theorem pending_eq_nil {n : Nat} (hc : s.Complete n) (h : s.Coherent) : s.queue.pending = [] := by
  refine List.eq_nil_iff_forall_not_mem.mpr fun v hv => ?_
  rcases h.agenda.held_state v (List.mem_append_right _ hv) with hx | hx <;>
    cases hc.state? hx

theorem running_eq_nil {n : Nat} (hc : s.Complete n) (h : s.Coherent) : s.running = [] := by
  refine List.eq_nil_iff_forall_not_mem.mpr fun v hv => ?_
  cases hc.state? ((h.agenda.mem_running v).mp hv)

/-- Waiting for a vertex succeeds where everything has finished. -/
theorem wait (hc : s.Complete labels.length) (hs : s.OnScript options labels) {v : VertexId}
    (hv : v < labels.length) : Serves options labels s (Session.request (Context.wait v))
      fun _ t => t.Complete labels.length := by
  obtain ⟨r, t, hrun, hmoves, rfl, hdue, -⟩ := hs.coherent.flush (P := Scripted labels) hs.due
  have hct := hc.moves hs (hs.next hmoves hdue) hmoves
  obtain ⟨el, hel, hstate⟩ := hct.finished v hv
  refine .request hs ⟨.ok (), t, ?_, hmoves, (), rfl, hdue, hct⟩
  have hterminal := Element.isTerminal_of_finished hstate
  have hverdict : Context.verdict v el = .ok () := by simp only [Context.verdict, hstate]
  rw [Context.wait, Action.run_bind_ok hrun, Action.run_bind_ok (run_element hel), if_pos hterminal]
  refine (Action.run_bind_ok (run_element hel)).trans ?_
  rw [hverdict, Action.run_ofExcept_ok]

/-- Cleaning up succeeds where everything has finished, and nothing has to be waited for. -/
theorem cleanup (hc : s.Complete labels.length) (hs : s.OnScript options labels) :
    ∃ t, Context.cleanup.run s.toContext = (.ok (), Stage.toContext t) ∧
      t.OnScript options labels ∧ t.Complete labels.length := by
  have hpending := hc.pending_eq_nil hs.coherent
  have hrunning := hc.running_eq_nil hs.coherent
  obtain ⟨r, t, hrun, hmoves, rfl, hdue⟩ :=
    hs.coherent.giveBack (P := { admits := Scripted labels }) hs.due hpending hrunning
  have ht := hs.next hmoves hdue
  refine ⟨t, ?_, ht, hc.moves hs ht hmoves⟩
  rw [Context.cleanup, Action.run_gets_bind]
  simpa [Context.hasPending, hpending, hrunning] using hrun

end Complete

/-- Synchronizing completes what was submitted. -/
theorem OnScript.synchronize (h : s.OnScript options labels)
    (hlength : s.dag.vertices.length = labels.length) :
    Serves options labels s (Session.request Context.synchronize) fun _ t =>
      t.Complete labels.length := by
  obtain ⟨r, t, hrun, hmoves, rfl, hdue, hpending, hrunning⟩ :=
    h.coherent.synchronize (P := Scripted labels) h.due
  have ht := h.next hmoves hdue
  have hlength' := h.length_eq hlength hmoves ht
  refine .request h ⟨_, t, hrun, hmoves, (), rfl, hdue, hlength', fun v hv => ?_⟩
  exact ht.coherent.finished_of_rest hdue hpending hrunning ht.failureFree.not_failed
    (hlength'.symm ▸ hv)

end Stage

/-! ### Whole runs -/

namespace Workload

/-- Running a workload up to the point where everything has been carried out. -/
def submitAll (w : Workload) : Action Session (List VertexId) := do
  let arrays ← w.allocateArrays
  let kernels ← w.declareKernels
  let vertices ← Action.collect (submit arrays kernels) w.steps
  Session.request Context.synchronize
  pure vertices

/-- Running a workload, where an error of any call ends the run. -/
def strictReplay (w : Workload) : Action Session (List VertexId) := do
  let vertices ← w.submitAll
  Action.each (fun v => Session.request (Context.wait v)) vertices
  pure vertices

theorem replay_eq_submitAll (w : Workload) : w.replay = (do
    let vertices ← w.submitAll
    Action.each (fun v => do
      let _ ← Action.attempt (Session.request (Context.wait v))) vertices
    pure vertices) := by
  simp only [replay, submitAll, bind_assoc, pure_bind]

/-- A run in which no call fails is the run that passes over failed steps. -/
theorem run_replay_of_strict {w : Workload} {s t : Session} {vertices : List VertexId}
    (h : w.strictReplay.run s = (.ok vertices, t)) : w.replay.run s = (.ok vertices, t) := by
  obtain ⟨vs, u, hsubmit, hwaits⟩ := Action.exists_run_of_bind h
  obtain ⟨_, u', heach, hpure⟩ := Action.exists_run_of_bind hwaits
  rw [replay_eq_submitAll, Action.run_bind_ok hsubmit,
    Action.run_bind_ok (Action.run_each_attempt heach)]
  exact hpure

/-- The labels of the steps, in order. -/
def labels (w : Workload) : List String := w.steps.map Step.label

variable {w : Workload}

/-- A sound workload is submitted as a whole, and carried out. -/
theorem Sound.serves_submitAll (hw : w.Sound) :
    Stage.Serves w.options w.labels (.initial w.options) w.submitAll fun vertices t =>
      vertices = List.range w.steps.length ∧ t.Complete w.labels.length := by
  refine .bind (Stage.OnScript.initial.allocateArrays hw) ?_
  rintro arrays s hs ⟨hnamed, hallocated, hlength⟩
  refine .bind (hs.declareKernels hw) ?_
  rintro kernels t ht ⟨hknown, hbuffers, hlength'⟩
  have hequipped : t.Equipped w arrays kernels :=
    ⟨hnamed, fun name a ha => hbuffers ▸ hallocated name a ha, hknown⟩
  -- the steps that are done are the vertices, in order
  refine .bind (Stage.Serves.collect (I := fun done vertices u => u.Equipped w arrays kernels ∧
    u.dag.vertices.length = done.length ∧ vertices = List.range done.length) ?_ ht
    ⟨hequipped, hlength'.trans hlength, rfl⟩) ?_
  · rintro done step rest vertices u hsteps hu ⟨hequipped, hlength, rfl⟩
    have hstep : w.steps[u.dag.vertices.length]? = some step := by simp [hlength, hsteps]
    refine (hu.submit hw hequipped hstep).imp ?_
    rintro v x ⟨rfl, hx, hequipped'⟩
    exact ⟨hequipped', by simpa [← hlength] using hx, by simp [hlength, List.range_succ]⟩
  · rintro vertices u hu ⟨-, hlength, hvertices⟩
    refine .bind (hu.synchronize (by simp [labels, hlength])) fun _ x hx hcomplete => ?_
    exact .pure hx ⟨hvertices, hcomplete⟩

/-- No call fails when a sound workload is run. -/
theorem Sound.serves_strictReplay (hw : w.Sound) :
    Stage.Serves w.options w.labels (.initial w.options) w.strictReplay fun vertices t =>
      vertices = List.range w.steps.length ∧ t.Complete w.labels.length := by
  refine .bind hw.serves_submitAll ?_
  rintro vertices s hs ⟨rfl, hcomplete⟩
  refine .bind (Q := fun _ t => t.Complete w.labels.length) ?_ fun _ t ht hct => .pure ht ⟨rfl, hct⟩
  refine .each (fun v hv t ht hct => hct.wait ht ?_) hs hcomplete
  simpa [labels] using hv

end Workload

/-- In the outcome of a workload every step is the vertex with its number and has finished, the
device has executed each step once, and there are no more streams than it allows. -/
structure Outcome.Complete (w : Workload) (o : Outcome) : Prop where
  vertices : o.vertices = List.range w.steps.length
  finished : ∀ v < w.steps.length, o.context.dag.IsFinished v
  vertexCount : o.summary.vertexCount = w.steps.length
  states : ∀ v ∈ o.summary.vertices, v.state = .finished
  failed : o.summary.failed = 0
  executed : o.context.device.machine.executed.Perm w.labels
  streams : ∀ max, w.options.maxStreams = some max → o.summary.streamCount ≤ max

namespace Workload

variable {w : Workload}

/-- The outcome of a run that succeeds and leaves a context that can be cleaned up. -/
theorem outcome_of_run {vertices : List VertexId} {c c' : Context}
    (hreplay : w.replay.run w.session = (.ok vertices, ⟨c, .serving⟩))
    (hcleanup : Context.cleanup.run c = (.ok (), c')) :
    w.outcome = .ok ⟨vertices, c.summary, c'⟩ := by
  have hsummary : (Session.request (Action.gets Context.summary)).run ⟨c, .serving⟩ =
      (.ok c.summary, ⟨c, .serving⟩) := rfl
  have hshutdown : Session.shutdown.run ⟨c, .serving⟩ = (.ok (), ⟨c', .ended⟩) := by
    simp only [Action.run, Session.shutdown, Session.finish] at hcleanup ⊢
    rw [hcleanup]
  simp only [outcome, hreplay, hsummary, hshutdown]
  rfl

/-- The summary of a complete stage, with what the device has run when it is cleaned up, is a
complete outcome. -/
theorem Sound.complete (hw : w.Sound) {s t : Stage} (hs : s.OnScript w.options w.labels)
    (hcs : s.Complete w.labels.length) (ht : t.OnScript w.options w.labels)
    (hct : t.Complete w.labels.length) :
    Outcome.Complete w ⟨List.range w.steps.length, s.summary, t.toContext⟩ := by
  have hsteps : w.labels.length = w.steps.length := by simp [labels]
  constructor
  case vertices => rfl
  case finished => exact fun v hv => hct.finished v (hsteps ▸ hv)
  case vertexCount => exact hcs.length.trans hsteps
  case states => exact fun v hv => hcs.state_summary hv
  case failed =>
    refine List.length_eq_zero_iff.mpr (List.filter_eq_nil_iff.mpr fun v hv => ?_)
    simp [hcs.state_summary hv]
  case executed =>
    exact ht.coherent.executed_perm (Stage.labelled_moves ht.moves) (Stage.follows_moves ht.moves)
      (hct.length ▸ hct.finished) hct.length
  case streams =>
    intro max hmax
    exact (Stage.withinLimit_steps hs.moves.steps).size max hmax fun hzero =>
      hw.streams (hzero ▸ hmax)

/-- **A workload that passes the check runs to its end**, whatever policies are chosen for it: no
call fails, not even that of waiting for a step, and the outcome is complete. -/
theorem checked_outcome (file : WorkloadFile) (w : Workload) (h : file.check = .ok w)
    (a : Arguments) : ∃ o, (Program.choose a w).outcome = .ok o ∧
      ((Program.choose a w).strictReplay.run (Program.choose a w).session).1 = .ok o.vertices ∧
      o.Complete (Program.choose a w) := by
  have hw := (WorkloadFile.check_sound h).choose a
  obtain ⟨vertices, s, hrun, hs, rfl, hcomplete⟩ := hw.serves_strictReplay
  obtain ⟨t, hcleanup, ht, hcomplete'⟩ := hcomplete.cleanup hs
  exact ⟨_, outcome_of_run (run_replay_of_strict hrun) hcleanup, congrArg Prod.fst hrun,
    hw.complete hs hcomplete ht hcomplete'⟩

/-- A kernel on one array, and a read of that array, on one stream. -/
def scaleThenRead : WorkloadFile where
  options := { maxStreams := some 1 }
  arrays := Table.empty.insert "x" ⟨"float", 4⟩
  kernels := Table.empty.insert "scale" "pointer float, sint32"
  launches := [{ kernel := some "scale", args := [.string "x", .int 4] }, { access := some "x" }]

theorem checked_outcome_scaleThenRead : ∃ w o, scaleThenRead.check = .ok w ∧
    (Program.choose { issue := some .deferred } w).outcome = .ok o ∧ o.vertices = [0, 1] ∧
    o.context.device.machine.executed.Perm ["scale", "array-read"] ∧ o.summary.streamCount ≤ 1 := by
  have hcheck : (scaleThenRead.check.toOption.map fun w => (w.labels, w.options.maxStreams)) =
      some (["scale", "array-read"], some 1) := by decide +kernel
  cases hw : scaleThenRead.check with
  | error e => simp [hw, Except.toOption] at hcheck
  | ok w =>
      obtain ⟨hlabels, hmax⟩ : w.labels = ["scale", "array-read"] ∧
          w.options.maxStreams = some 1 := by
        simpa [hw, Except.toOption] using hcheck
      have hsteps : w.steps.length = 2 := by
        simpa [labels] using congrArg List.length hlabels
      obtain ⟨o, ho, -, hcomplete⟩ := checked_outcome scaleThenRead w hw { issue := some .deferred }
      refine ⟨w, o, rfl, ho, ?_, hlabels ▸ hcomplete.executed, hcomplete.streams 1 hmax⟩
      exact hcomplete.vertices.trans (congrArg List.range hsteps)

end Workload

end LaunchGraph
