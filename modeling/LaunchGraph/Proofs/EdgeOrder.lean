import LaunchGraph.Proofs.Runs

/-!
# Edges hold on the device

An edge of the graph is a promise about the device: the child runs after the parent, and it does
not succeed where the parent failed.  The promise is kept in different ways — by the order of one
stream, by a wait for the event of the parent, or because the parent was seen to be finished
before the child was issued — and `Timeline` carries all of them.  Here is what remains of it for
a whole run: the order of the history, and the states of the vertices at the end of every command.
-/

namespace LaunchGraph

namespace Dag

/-- The device has launched vertex `u` and then recorded its completion, the two being next to
each other on their stream; `failed` says how it ended. While the vertex has an event, that is the
one recorded. -/
def CompletedIn (d : Dag) (u : VertexId) (failed : Bool) (history : List Retired) : Prop :=
  ∃ k : Ticket, k.vertex = u ∧ k.Ran failed history ∧
    ∀ el e, d.element? u = some el → el.event = some e → e = k.event

/-- Where a finished child has finished parents only, nothing below a failed vertex is finished. -/
theorem not_finished_of_path {d : Dag} (h : ∀ u v, d.HasEdge u v → d.IsFinished v → d.IsFinished u)
    {u w : VertexId} (hu : d.isFailed u = true) (hpath : d.Path u w) : ¬ d.IsFinished w := by
  intro hw
  obtain ⟨el, hel, hfinished⟩ := isFinished_of_path h hpath hw
  simp [isFailed_iff, state?_of_element? hel, hfinished] at hu

end Dag

/-- The launch of a parent and its recording have run before the launch of its child. -/
theorem Timeline.completed {d : Dag} {m : Machine} {tickets : List Ticket}
    (h : Timeline d m tickets) {u v : VertexId} (huv : d.HasEdge u v) {before after : List Retired}
    {r : Retired} {job : Job} (hh : m.history = before ++ r :: after) (hr : r.op = .launch job)
    (hv : job.vertex = some v) :
    ∃ f, d.CompletedIn u f before ∧ (r.failed = false → f = false) := by
  obtain ⟨k, hk, rfl, f, hran, hf⟩ := h.ordered before r after hh job u v hr hv huv
  refine ⟨f, ⟨k, rfl, hran, fun el e hel he => ?_⟩, hf⟩
  obtain ⟨t, -, hticket⟩ := h.ticket k.vertex el e hel he
  exact congrArg Ticket.event (h.ledger.vertex_inj _ hticket k hk rfl)

namespace Context

/-- **Edges are respected, and failure is closed.**  After any contained run, no vertex has been
launched twice, and for every edge: if the child has been launched, the launch and the recording
of the parent were over before that; if the launch of the child succeeded, so did that of the
parent; and a finished child has a finished parent.  So nothing below a failed vertex is
finished. -/
theorem edges_respected (options : ContextOptions) (commands : List Command)
    (hc : ∀ command ∈ commands, command.Contained) :
    (Machine.launchedVertices (ran options commands).device.machine.history).Nodup ∧
    (∀ u v, (ran options commands).dag.HasEdge u v →
      (∀ before r after job,
        (ran options commands).device.machine.history = before ++ r :: after →
        r.op = .launch job → job.vertex = some v →
        ∃ f, (ran options commands).dag.CompletedIn u f before ∧ (r.failed = false → f = false)) ∧
      ((ran options commands).dag.IsFinished v → (ran options commands).dag.IsFinished u)) ∧
    ∀ u w, (ran options commands).dag.isFailed u = true → (ran options commands).dag.Path u w →
      ¬ (ran options commands).dag.IsFinished w := by
  obtain ⟨s, hs, -, hcoherent, -⟩ := Stage.exists_stage_ran options (P := fun _ _ => True) hc
    fun _ _ _ _ _ _ => trivial
  rw [← hs]
  have htimeline := hcoherent.timeline
  refine ⟨htimeline.ledger.launched_nodup, fun u v huv => ⟨?_, ?_⟩, fun u w hu hpath => ?_⟩
  · intro before r after job hh hr hv
    exact htimeline.completed huv hh hr hv
  · exact htimeline.finished_of_child u v huv
  · exact Dag.not_finished_of_path htimeline.finished_of_child hu hpath

/-- A launch that waits for another stream: what it waits for has run, and was recorded, before
it. -/
theorem edges_respected_forkJoin :
    ∃ f, (ran {} (fork ++ [join, .device .runUntilIdle])).dag.CompletedIn 0 f
      [⟨0, .launch ⟨some 0, "left", false⟩, false⟩, ⟨1, .launch ⟨some 1, "right", false⟩, false⟩,
       ⟨0, .record 0, false⟩, ⟨1, .record 1, false⟩, ⟨2, .wait 0, false⟩, ⟨2, .wait 1, false⟩] ∧
      (false = false → f = false) := by
  have hc : ∀ command ∈ fork ++ [join, .device .runUntilIdle], command.Contained ∧ command.IsFresh :=
    contained_forkJoin [.runUntilIdle] (by simp [Device.Command.isContained])
  have hedge : (ran {} (fork ++ [join, .device .runUntilIdle])).dag.HasEdge 0 2 := by decide_cbv
  have hhistory : (ran {} (fork ++ [join, .device .runUntilIdle])).device.machine.history =
      [⟨0, .launch ⟨some 0, "left", false⟩, false⟩, ⟨1, .launch ⟨some 1, "right", false⟩, false⟩,
       ⟨0, .record 0, false⟩, ⟨1, .record 1, false⟩, ⟨2, .wait 0, false⟩, ⟨2, .wait 1, false⟩] ++
      ⟨2, .launch ⟨some 2, "join", false⟩, false⟩ :: [⟨2, .record 2, false⟩] := by decide_cbv
  have h := (edges_respected {} (fork ++ [join, .device .runUntilIdle])
    fun command hmem => (hc command hmem).1).2.1 0 2 hedge
  exact h.1 _ _ _ ⟨some 2, "join", false⟩ hhistory rfl rfl

end Context

end LaunchGraph
