import LaunchGraph.Proofs.Machine

/-!
# The machine — queues that cannot block each other

A machine stalls when every first operation waits for an event whose recording is queued behind
another wait.  `Machine.Orderly` excludes that: an event that is pending has its recording queued,
and on each stream a wait stands only in front of recordings of later events.  Events are numbered
in the order they are made, so the pending event with the lowest number can always be reached
(`Orderly.exists_advance`).

An orderly machine settles with nothing left, and every stream of it can be drained.
-/

namespace LaunchGraph.Machine

/-- On each stream the events waited for are earlier than the events recorded behind, and the
recording of every pending event is queued. -/
structure Orderly (m : Machine) : Prop where
  wait_lt : ∀ s lane, m.streams.get? s = some lane →
    lane.ops.Pairwise fun a b => ∀ d e, a = .wait d → b = .record e → d < e
  queued_of_pending : ∀ e, m.events.get? e = some .pending →
    ∃ s lane, m.streams.get? s = some lane ∧ .record e ∈ lane.ops

namespace Orderly

/-- The first operation of a stream, if it cannot run, waits for a pending event. -/
theorem blocked {m : Machine} {s : StreamId} {op : Op} {rest : List Op} {p : Bool}
    (hs : m.streams.get? s = some ⟨op :: rest, p⟩) (h : m.advance s = none) :
    ∃ e, op = .wait e ∧ m.events.get? e = some .pending := by
  simp only [advance, hs, Option.map_eq_none_iff] at h
  cases op with
  | wait e =>
      refine ⟨e, rfl, ?_⟩
      simp only [outcome?] at h
      split at h <;> simp_all
  | launch job => simp [outcome?] at h
  | record e => simp [outcome?] at h

/-- While an event is pending, some stream can advance. -/
theorem exists_advance_of_pending {m : Machine} (hm : m.Orderly) (e : EventId)
    (he : m.events.get? e = some .pending) : ∃ s, (m.advance s).isSome := by
  -- strong induction on the event: the stream its recording is queued on can advance, or its
  -- first operation waits for an earlier pending event
  induction e using Nat.strongRecOn with
  | ind e ih =>
      obtain ⟨s, ⟨ops, p⟩, hs, hmem⟩ := hm.queued_of_pending e he
      cases hops : ops with
      | nil => simp [hops] at hmem
      | cons op rest =>
          subst hops
          cases ha : m.advance s with
          | some m' => exact ⟨s, by simp [ha]⟩
          | none =>
              obtain ⟨d, rfl, hd⟩ := blocked hs ha
              have hrest : .record e ∈ rest := by simpa using hmem
              have hlt : d < e :=
                (List.pairwise_cons.mp (hm.wait_lt s _ hs)).1 _ hrest d e rfl rfl
              exact ih d hlt hd

/-- **An orderly machine is never stuck.**  While an operation is queued, some stream can
advance. -/
theorem exists_advance {m : Machine} (hm : m.Orderly) {s : StreamId} {lane : Lane}
    (hs : m.streams.get? s = some lane) (hne : lane.ops ≠ []) : ∃ t, (m.advance t).isSome := by
  obtain ⟨ops, p⟩ := lane
  cases ops with
  | nil => exact absurd rfl hne
  | cons op rest =>
      cases ha : m.advance s with
      | some m' => exact ⟨s, by simp [ha]⟩
      | none =>
          obtain ⟨e, -, he⟩ := blocked hs ha
          exact hm.exists_advance_of_pending e he

/-- Where nothing advances, nothing is queued. -/
theorem pending_eq_zero_of_idle {m : Machine} (hm : m.Orderly) (h : m.Idle) :
    m.pendingOperations = 0 := by
  refine pendingOperations_eq_zero.mpr fun s lane hs => ?_
  by_contra hne
  obtain ⟨t, ht⟩ := hm.exists_advance hs hne
  simp [h t] at ht

/-! ### Progress keeps the order -/

theorem advance {m m' : Machine} {s : StreamId} (hm : m.Orderly) (h : m.advance s = some m') :
    m'.Orderly := by
  obtain ⟨op, rest, p, f, hs, ho, rfl⟩ := advance_cases h
  refine ⟨fun t lane ht => ?_, fun e he => ?_⟩
  · rw [get?_retire] at ht
    split at ht
    · next heq =>
      subst heq
      obtain rfl : ⟨rest, f && !rest.isEmpty⟩ = lane := by simpa [hs] using ht
      exact (List.pairwise_cons.mp (hm.wait_lt s _ hs)).2
    · exact hm.wait_lt t lane ht
  · rw [events_retire] at he
    split at he
    · split at he <;> cases he
    · next hne =>
      obtain ⟨t, lane, ht, hmem⟩ := hm.queued_of_pending e he
      by_cases heq : s = t
      · subst heq
        obtain rfl : ⟨op :: rest, p⟩ = lane := by simpa [hs] using ht
        refine ⟨s, ⟨rest, f && !rest.isEmpty⟩, by simp [hs], ?_⟩
        rcases List.mem_cons.mp hmem with heq | hmem
        · exact absurd heq.symm hne
        · exact hmem
      · exact ⟨t, lane, by simp [heq, ht], hmem⟩

theorem advances {m m' : Machine} (hm : m.Orderly) (h : Advances m m') : m'.Orderly :=
  h.keeps (fun _ _ _ ha hm => hm.advance ha) hm

/-- A step of an orderly machine that has work runs something. -/
theorem step_pos {m : Machine} (hm : m.Orderly) {s : StreamId} {lane : Lane}
    (hs : m.streams.get? s = some lane) (hne : lane.ops ≠ []) : 0 < m.step.1 := by
  refine Nat.pos_of_ne_zero fun h₀ => ?_
  obtain ⟨t, ht⟩ := hm.exists_advance hs hne
  simp [step_eq_zero_iff.mp h₀ t] at ht

theorem settle_pendingOperations {m : Machine} (hm : m.Orderly) :
    m.settle.pendingOperations = 0 :=
  (hm.advances (advances_settle m)).pending_eq_zero_of_idle (settle_idle m)

/-- An orderly machine runs until nothing is left. -/
theorem run_syncDevice {m : Machine} (hm : m.Orderly) :
    syncDevice.run m = (.ok (), m.settle) := by
  simp [syncDevice, Action.run, hm.settle_pendingOperations]

theorem drainWithin_ok {m : Machine} (hm : m.Orderly) {s : StreamId} {bound : Nat}
    (hs : m.streams.contains s = true) (hb : m.pendingOperations ≤ bound) :
    ((drainWithin s bound).run m).1 = .ok () ∧
      ∀ lane, ((drainWithin s bound).run m).2.streams.get? s = some lane → lane.ops = [] := by
  induction bound generalizing m with
  | zero =>
      obtain ⟨lane, hl⟩ := Table.contains_iff.mp hs
      have hops : lane.ops = [] := pendingOperations_eq_zero.mp (by omega) s lane hl
      simp [drainWithin, Action.run, hl, hops]
  | succ bound ih =>
      obtain ⟨lane, hl⟩ := Table.contains_iff.mp hs
      by_cases hops : lane.ops = []
      · simp [drainWithin, Action.run, hl, hops]
      · have hpos := hm.step_pos hl hops
        have hcount := pendingOperations_stepOver m m.streams.keys
        have hadv := advances_step m
        cases hst : m.step with
        | mk n m' =>
            have hst' : m.stepOver m.streams.keys = (n, m') := hst
            rw [hst] at hpos hadv
            rw [hst'] at hcount
            simp only at hpos hcount hadv
            have hrun : (drainWithin s (bound + 1)).run m = (drainWithin s bound).run m' := by
              obtain ⟨k, rfl⟩ : ∃ k, n = k + 1 := ⟨n - 1, by omega⟩
              simp [drainWithin, Action.run, hl, hops, hst]
            rw [hrun]
            exact ih (hm.advances hadv) (by rw [hadv.contains]; exact hs) (by omega)

/-- Every stream of an orderly machine can be drained. -/
theorem run_syncStream {m : Machine} (hm : m.Orderly) {s : StreamId}
    (hs : m.streams.contains s = true) :
    ∃ m', (syncStream s).run m = (.ok (), m') ∧ Advances m m' ∧
      ∀ lane, m'.streams.get? s = some lane → lane.ops = [] := by
  obtain ⟨hok, hempty⟩ := hm.drainWithin_ok hs (Nat.le_refl m.pendingOperations)
  exact ⟨_, Prod.ext hok rfl, advances_drainWithin s _ m, hempty⟩

end Orderly

end LaunchGraph.Machine
