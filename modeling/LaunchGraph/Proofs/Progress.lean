import LaunchGraph.Proofs.Runs

/-!
# Progress

Queues of a device can block each other for good: one stream waits for an event that is to be
recorded behind a wait on another, and the other way round.  A context never queues such work.
Whatever is submitted, rejected, failed or freed in whatever order, as long as work is queued the
device can run some of it, so it can always be run until it is idle.

The order that excludes a circle of waits is that of the events: work waits only for events that
were made before its own (`Machine.Ledger.wait_lt`, kept by every move).
-/

namespace LaunchGraph.Context

/-- **The device never deadlocks.**  After any contained run: if some stream has work queued, a
step of the device runs an operation; the device can be run until it is idle, with nothing left;
each of its streams can be drained; and no further command finds the device stuck. -/
theorem device_makes_progress (options : ContextOptions) (commands : List Command)
    (hc : ∀ command ∈ commands, command.Contained) :
    (∀ t lane, (ran options commands).device.machine.streams.get? t = some lane →
      lane.ops ≠ [] → 0 < (ran options commands).device.machine.step.1) ∧
    (∃ d, Device.syncDevice.run (ran options commands).device = (.ok (), d) ∧
      d.machine.pendingOperations = 0) ∧
    (∀ t, (ran options commands).device.machine.streams.contains t = true →
      ∃ d, (Device.syncStream t).run (ran options commands).device = (.ok (), d) ∧
        ∀ lane, d.machine.streams.get? t = some lane → lane.ops = []) ∧
    ∀ command, command.Contained → ∀ h,
      ((perform command).run (ran options commands)).1 = .error h → ¬ h.IsStall := by
  obtain ⟨s, hs, -, hcoherent, hdue⟩ := Stage.exists_stage_ran options (P := fun _ _ => True) hc
    fun _ _ _ _ _ _ => trivial
  rw [← hs]
  have horderly := hcoherent.timeline.ledger.orderly
  refine ⟨fun t lane ht hne => horderly.step_pos ht hne, ?_, fun t ht => ?_, fun command hcon => ?_⟩
  · exact ⟨_, Device.run_call hcoherent.faults horderly.run_syncDevice,
      horderly.settle_pendingOperations⟩
  · obtain ⟨m, hrun, -, hempty⟩ := horderly.run_syncStream ht
    exact ⟨_, Device.run_call hcoherent.faults hrun, hempty⟩
  · obtain ⟨r, u, hrun, -, -, hr⟩ := hcoherent.perform_steps (P := fun _ _ => True) hdue hcon
      fun _ _ _ _ => trivial
    rw [hrun]
    exact hr

/-- A launch that waits for two others is queued, and the device can run something. -/
theorem device_makes_progress_forkJoin : 0 < (ran {} (fork ++ [join])).device.machine.step.1 :=
  (device_makes_progress {} (fork ++ [join]) fun command hmem =>
    (contained_forkJoin [] (by simp) command hmem).1).1 2
    ⟨[.wait 0, .wait 1, .launch ⟨some 2, "join", false⟩, .record 2], false⟩ (by decide_cbv) (by simp)

end LaunchGraph.Context
