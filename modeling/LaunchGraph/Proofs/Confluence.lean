import LaunchGraph.Proofs.Runs

/-!
# Confluence of the device

Nothing says in which order the streams of the device advance.  It does not matter: as long as the
recording of an event is queued once at most, and the event is pending until then
(`Machine.Recordable`), two streams that can advance do so in either order with the same effect
(`Machine.Recordable.diamond`).  So there is one state in which nothing advances any more, up to
the order of what has run (`Machine.Advances.agrees_of_idle`), and the device finds it whenever it
is told to run until it is idle.
-/

namespace LaunchGraph

namespace Machine

/-! ### Devices that differ in the order of what has run -/

/-- The devices are the same, up to the order in which operations have run. -/
structure Agrees (m m' : Machine) : Prop where
  eq : m' = { m with history := m'.history }
  history : m.history.Perm m'.history

namespace Agrees

variable {m m₁ m' : Machine}

theorem refl (m : Machine) : Agrees m m := ⟨rfl, .refl _⟩

theorem symm (h : Agrees m m') : Agrees m' m := by
  obtain ⟨heq, hperm⟩ := h
  refine ⟨?_, hperm.symm⟩
  rw [heq]

theorem trans (h : Agrees m m₁) (h' : Agrees m₁ m') : Agrees m m' := by
  refine ⟨?_, h.history.trans h'.history⟩
  rw [h'.eq, h.eq]

theorem events (h : Agrees m m') : m'.events = m.events := by rw [h.eq]

theorem streams (h : Agrees m m') : m'.streams = m.streams := by rw [h.eq]

theorem executed (h : Agrees m m') : m.executed.Perm m'.executed :=
  h.history.filterMap _

/-- What can advance, and what becomes of it, does not depend on the order of what has run. -/
theorem advance (h : Agrees m m') {s : StreamId} (ha : m.advance s = some m₁) :
    ∃ m₁', m'.advance s = some m₁' ∧ Agrees m₁ m₁' := by
  obtain ⟨op, rest, p, f, hs, ho, rfl⟩ := advance_cases ha
  have ho' : m'.outcome? p op = some f := by
    rw [h.eq]
    exact ho
  refine ⟨m'.retire s op rest f, by simp [Machine.advance, h.streams, hs, ho'], ?_, ?_⟩
  · rw [h.eq]
    rfl
  · exact h.history.append_right _

theorem advances (h : Agrees m m') (ha : Advances m m₁) :
    ∃ m₁', Advances m' m₁' ∧ Agrees m₁ m₁' := by
  induction ha generalizing m' with
  | refl => exact ⟨m', .refl m', h⟩
  | more hstep _ ih =>
      obtain ⟨m₂, hstep', h₂⟩ := h.advance hstep
      obtain ⟨m₃, hmore, h₃⟩ := ih h₂
      exact ⟨m₃, .more hstep' hmore, h₃⟩

end Agrees

/-! ### Two streams that can advance -/

/-- The recording of an event is queued on one stream at most, at most once there, and the event
is pending until then. -/
structure Recordable (m : Machine) : Prop where
  once : ∀ t lane, m.streams.get? t = some lane → ∀ e, lane.ops.count (.record e) ≤ 1
  apart : ∀ t u lane lane', m.streams.get? t = some lane → m.streams.get? u = some lane' →
    ∀ e, .record e ∈ lane.ops → .record e ∈ lane'.ops → t = u
  pending : ∀ t lane, m.streams.get? t = some lane → ∀ e, .record e ∈ lane.ops →
    m.events.get? e = some .pending

/-- Two operations that run on different streams leave the same device, whichever is first. -/
theorem retire_comm (m : Machine) {s t : StreamId} (hne : s ≠ t) {op op' : Op}
    (hop : ∀ e, op = .record e → op' ≠ .record e) (rest rest' : List Op) (f f' : Bool) :
    Agrees ((m.retire s op rest f).retire t op' rest' f')
      ((m.retire t op' rest' f').retire s op rest f) := by
  have hstreams := m.streams.modify_comm hne (fun _ => ⟨rest, f && !rest.isEmpty⟩)
    (fun _ => ⟨rest', f' && !rest'.isEmpty⟩)
  refine ⟨?_, ?_⟩
  · cases op with
    | wait d => simp [retire, hstreams]
    | launch job => simp [retire, hstreams]
    | record d =>
        cases op' with
        | wait e => simp [retire, hstreams]
        | launch job => simp [retire, hstreams]
        | record e =>
            have hde : d ≠ e := fun h => hop d rfl (h ▸ rfl)
            simp [retire, hstreams, m.events.insert_comm hde]
  · simp only [history_retire, List.append_assoc]
    exact (List.Perm.swap _ _ []).append_left m.history

namespace Recordable

variable {m m' m₁ m₂ : Machine}

/-- An operation that can run is not affected by what runs on another stream. -/
theorem outcome?_retire (h : m.Recordable) {s : StreamId} {op : Op} {rest : List Op} {p f : Bool}
    (hs : m.streams.get? s = some ⟨op :: rest, p⟩) {p' f' : Bool} {op' : Op}
    (ho : m.outcome? p' op' = some f') : (m.retire s op rest f).outcome? p' op' = some f' := by
  cases op' with
  | launch job => exact ho
  | record e => exact ho
  | wait e =>
      -- had the event just been recorded, it would have been pending
      have hop : op ≠ .record e := by
        rintro rfl
        simp [outcome?, h.pending s _ hs e List.mem_cons_self] at ho
      simpa only [outcome?, events_retire, if_neg hop] using ho

/-- **Two streams that can advance do so in either order, with the same effect.** -/
theorem diamond (h : m.Recordable) {s t : StreamId} (hne : s ≠ t) (hs : m.advance s = some m₁)
    (ht : m.advance t = some m₂) :
    ∃ m₃ m₄, m₁.advance t = some m₃ ∧ m₂.advance s = some m₄ ∧ Agrees m₃ m₄ := by
  obtain ⟨op, rest, p, f, hlane, ho, rfl⟩ := advance_cases hs
  obtain ⟨op', rest', p', f', hlane', ho', rfl⟩ := advance_cases ht
  have hop : ∀ e, op = .record e → op' ≠ .record e := by
    rintro e rfl rfl
    exact hne (h.apart s t _ _ hlane hlane' e List.mem_cons_self List.mem_cons_self)
  have h₁ := h.outcome?_retire (f := f) hlane ho'
  have h₂ := h.outcome?_retire (f := f') hlane' ho
  refine ⟨_, _, ?_, ?_, m.retire_comm hne hop rest rest' f f'⟩
  · simp [advance, hne, hlane', h₁]
  · simp [advance, hne.symm, hlane, h₂]

theorem advance (h : m.Recordable) {s : StreamId} (ha : m.advance s = some m') :
    m'.Recordable := by
  obtain ⟨op, rest, p, f, hs, -, rfl⟩ := advance_cases ha
  -- what is queued was queued before
  have hold : ∀ {t lane}, (m.retire s op rest f).streams.get? t = some lane →
      ∃ lane', m.streams.get? t = some lane' ∧ lane.ops.Sublist lane'.ops :=
    retire_lane_sublist hs
  refine ⟨fun t lane ht e => ?_, fun t u lane lane' ht hu e he he' => ?_, fun t lane ht e he => ?_⟩
  · obtain ⟨lane', ht', hsub⟩ := hold ht
    exact (hsub.count_le _).trans (h.once t lane' ht' e)
  · obtain ⟨x, hx, hsub⟩ := hold ht
    obtain ⟨x', hx', hsub'⟩ := hold hu
    exact h.apart t u x x' hx hx' e (hsub.subset he) (hsub'.subset he')
  · obtain ⟨lane', ht', hsub⟩ := hold ht
    have hop : op ≠ .record e := by
      rintro rfl
      -- it was queued once, and that one has run
      rcases retire_lane_cases hs ht with ⟨rfl, rfl⟩ | ⟨hne, ht⟩
      · have hcount := h.once t _ hs e
        have := List.count_pos_iff.mpr he
        simp only [List.count_cons_self] at hcount
        lia
      · exact hne (h.apart t s _ _ ht hs e he List.mem_cons_self)
    rw [events_retire, if_neg hop]
    exact h.pending t lane' ht' e (hsub.subset he)

/-- Where the tickets account for the device, every event is recorded once. -/
theorem of_ledger {tickets : List Ticket} (h : m.Ledger tickets) : m.Recordable := by
  refine ⟨fun t lane ht e => ?_, fun t u lane lane' ht hu e he he' => ?_, h.pending_of_record⟩
  · refine Nat.not_lt.mp fun htwice => ?_
    have hsub : [Op.record e, .record e].Sublist lane.ops :=
      List.replicate_sublist_iff.mpr htwice
    have := (h.increasing t lane ht).sublist hsub
    simp at this
  · obtain ⟨k, hk, rfl, hke⟩ := (h.shape t lane ht).ticket_of_record he
    obtain ⟨l, hl, rfl, hle⟩ := (h.shape u lane' hu).ticket_of_record he'
    rw [h.event_inj k hk l hl (hke.trans hle.symm)]

end Recordable

/-! ### Running until nothing advances -/

namespace Advances

variable {m m₁ m₂ m' : Machine}

theorem eq_of_idle (h : Advances m m') (hm : m.Idle) : m' = m := by
  cases h with
  | refl => rfl
  | more hstep _ => simp [hm _] at hstep

/-- Whatever else happens until nothing advances, a stream that can advance may as well do so
first. -/
theorem advance_first (h : m.Recordable) (ha : Advances m m') (hidle : m'.Idle) {s : StreamId}
    (hs : m.advance s = some m₁) : ∃ m₁', Advances m₁ m₁' ∧ Agrees m' m₁' := by
  induction ha generalizing m₁ with
  | refl => simp [hidle s] at hs
  | @more m m₂ m' t ht hrest ih =>
      by_cases hst : s = t
      · subst hst
        obtain rfl : m₁ = m₂ := Option.some.inj (hs.symm.trans ht)
        exact ⟨m', hrest, .refl m'⟩
      · -- it advances after the first one with the same effect, and by induction the rest follows
        obtain ⟨m₃, m₄, h₃, h₄, hagrees⟩ := h.diamond hst hs ht
        obtain ⟨m₅, h₅, hagrees₅⟩ := ih (h.advance ht) hidle h₄
        obtain ⟨m₆, h₆, hagrees₆⟩ := hagrees.symm.advances h₅
        exact ⟨m₆, .more h₃ h₆, hagrees₅.trans hagrees₆⟩

theorem idle_of_agrees (h : Agrees m m') (hm : m.Idle) : m'.Idle := by
  intro s
  refine Option.eq_none_iff_forall_ne_some.mpr fun m₁ hs => ?_
  obtain ⟨m₂, hs', -⟩ := h.symm.advance hs
  simp [hm s] at hs'

/-- **There is one state in which nothing advances**, up to the order of what has run. -/
theorem agrees_of_idle (h : m.Recordable) (h₁ : Advances m m₁) (hidle₁ : m₁.Idle)
    (h₂ : Advances m m₂) (hidle₂ : m₂.Idle) : Agrees m₁ m₂ := by
  induction h₁ generalizing m₂ with
  | refl =>
      rw [h₂.eq_of_idle hidle₁]
      exact .refl _
  | more hstep _ ih =>
      obtain ⟨m₃, h₃, hagrees⟩ := advance_first h h₂ hidle₂ hstep
      exact (ih (h.advance hstep) hidle₁ h₃ (idle_of_agrees hagrees hidle₂)).trans hagrees.symm

end Advances

/-! ### Calls to advance -/

/-- The device after calls to advance some streams; a call has no effect where the stream is empty
or has to wait. -/
def advanceEach (m : Machine) : List StreamId → Machine
  | [] => m
  | s :: rest =>
      match m.advance s with
      | some m' => m'.advanceEach rest
      | none => m.advanceEach rest

theorem advances_advanceEach (m : Machine) (calls : List StreamId) :
    Advances m (m.advanceEach calls) := by
  induction calls generalizing m with
  | nil => exact .refl m
  | cons s rest ih =>
      simp only [advanceEach]
      split
      · next m' hs => exact .more hs (ih m')
      · exact ih m

theorem Advances.exists_calls {m m' : Machine} (h : Advances m m') :
    ∃ calls, m' = m.advanceEach calls := by
  induction h with
  | refl m => exact ⟨[], rfl⟩
  | @more m m₁ m' s hs _ ih =>
      obtain ⟨calls, rfl⟩ := ih
      exact ⟨s :: calls, by simp only [advanceEach, hs]⟩

/-- Running until idle ends where nothing advances; it succeeds if nothing is left. -/
theorem run_syncDevice_eq (m : Machine) :
    syncDevice.run m = (if m.settle.pendingOperations = 0 then .ok ()
      else .error (.error (.device (.stalled m.settle.pendingOperations))), m.settle) := by
  simp only [syncDevice, Action.run]
  split <;> rfl

end Machine

/-- **The device is confluent.**  However calls to advance its streams are ordered, once none has
an effect any more the events, the queues and the poisoned streams are the same, and the same
launches have run.  Running until idle ends there, and succeeds exactly if no operation is left;
otherwise every stream that is not empty waits for a pending event.  What this asks of the device,
that every event is recorded once and pending until then, holds in every contained run. -/
theorem device_confluent :
    (∀ m : Machine, m.Recordable →
      (∀ calls calls', (m.advanceEach calls).Idle → (m.advanceEach calls').Idle →
        (m.advanceEach calls').events = (m.advanceEach calls).events ∧
        (m.advanceEach calls').streams = (m.advanceEach calls).streams ∧
        (m.advanceEach calls').executed.Perm (m.advanceEach calls).executed) ∧
      ∃ r m', Machine.syncDevice.run m = (r, m') ∧
        (∃ calls, m' = m.advanceEach calls) ∧ m'.Idle ∧
        (r = .ok () ↔ m'.pendingOperations = 0) ∧
        (r ≠ .ok () → r = .error (.error (.device (.stalled m'.pendingOperations))) ∧
          ∀ t lane, m'.streams.get? t = some lane → lane.ops ≠ [] →
            ∃ e rest, lane.ops = .wait e :: rest ∧ m'.events.get? e = some .pending)) ∧
    ∀ options commands, (∀ command ∈ commands, Context.Command.Contained command) →
      (Context.ran options commands).device.machine.Recordable := by
  refine ⟨fun m h => ⟨fun calls calls' hidle hidle' => ?_, ?_⟩, fun options commands hc => ?_⟩
  · have hagrees := Machine.Advances.agrees_of_idle h (m.advances_advanceEach calls) hidle
      (m.advances_advanceEach calls') hidle'
    exact ⟨hagrees.events, hagrees.streams, hagrees.executed.symm⟩
  · refine ⟨_, _, m.run_syncDevice_eq, m.advances_settle.exists_calls, m.settle_idle, ?_, ?_⟩
    · by_cases hzero : m.settle.pendingOperations = 0 <;> simp [hzero]
    · intro herror
      have hne : m.settle.pendingOperations ≠ 0 := fun hzero => herror (if_pos hzero)
      refine ⟨if_neg hne, ?_⟩
      rintro t ⟨_ | ⟨op, rest⟩, p⟩ ht hops
      · exact absurd rfl hops
      · obtain ⟨e, rfl, he⟩ := Machine.Orderly.blocked ht (m.settle_idle t)
        exact ⟨e, rest, rfl, he⟩
  · obtain ⟨s, hs, -, h, -⟩ := Stage.exists_stage_ran (P := fun _ _ => True) options hc
      fun _ _ _ _ _ _ => trivial
    rw [← hs]
    exact .of_ledger h.timeline.ledger

/-- Two streams that wait for each other, and one that does not. -/
def Machine.crossed : Machine where
  nextStream := 3
  nextEvent := 2
  streams := ((Table.empty.insert 0 ⟨[.wait 1, .record 0], false⟩).insert 1
    ⟨[.wait 0, .record 1], false⟩).insert 2 ⟨[.launch ⟨none, "alone", false⟩], false⟩
  events := (Table.empty.insert 0 .pending).insert 1 .pending

theorem Machine.recordable_crossed : crossed.Recordable := by
  have hlane : ∀ {t lane}, crossed.streams.get? t = some lane →
      (t = 0 ∧ lane = ⟨[.wait 1, .record 0], false⟩) ∨
      (t = 1 ∧ lane = ⟨[.wait 0, .record 1], false⟩) ∨
      (t = 2 ∧ lane = ⟨[.launch ⟨none, "alone", false⟩], false⟩) := by
    intro t lane ht
    simp only [crossed, Table.get?_insert, Table.get?_empty] at ht
    grind
  refine ⟨fun t lane ht e => ?_, fun t u lane lane' ht hu e he he' => ?_, fun t lane ht e he => ?_⟩
  · rcases hlane ht with ⟨-, rfl⟩ | ⟨-, rfl⟩ | ⟨-, rfl⟩ <;>
      simp [List.count_cons, List.count_nil] <;> split <;> simp
  · rcases hlane ht with ⟨rfl, rfl⟩ | ⟨rfl, rfl⟩ | ⟨rfl, rfl⟩ <;>
      rcases hlane hu with ⟨rfl, rfl⟩ | ⟨rfl, rfl⟩ | ⟨rfl, rfl⟩ <;> simp_all
  · rcases hlane ht with ⟨-, rfl⟩ | ⟨-, rfl⟩ | ⟨-, rfl⟩ <;>
      simp at he <;> subst he <;> decide

open Context Machine in
/-- Two launches run in one order or in the other before the launch that waits for both; and two
streams that wait for each other stay as they are. -/
theorem device_confluent_forkJoin :
    (let m := (ran {} (fork ++ [join])).device.machine
     (m.advanceEach [0, 0, 1, 1, 2, 2, 2, 2]).executed = ["left", "right", "join"] ∧
     (m.advanceEach [1, 0, 1, 2, 0, 2, 2, 2, 2]).executed = ["right", "left", "join"] ∧
     (m.advanceEach [1, 0, 1, 2, 0, 2, 2, 2, 2]).events =
       (m.advanceEach [0, 0, 1, 1, 2, 2, 2, 2]).events) ∧
    ∃ r m', syncDevice.run crossed = (r, m') ∧ r ≠ .ok () ∧ m'.executed = ["alone"] ∧
      ∀ t lane, m'.streams.get? t = some lane → lane.ops ≠ [] →
        ∃ e rest, lane.ops = .wait e :: rest ∧ m'.events.get? e = some .pending := by
  refine ⟨?_, ?_⟩
  · intro m
    have hm : m = (ran {} (fork ++ [join])).device.machine := rfl
    clear_value m
    have hcontained : ∀ command ∈ fork ++ [join], command.Contained := fun command hmem =>
      (contained_forkJoin [] (by simp) command (by simpa using hmem)).1
    have hrecordable : m.Recordable := hm ▸ device_confluent.2 {} _ hcontained
    have hidle : (m.advanceEach [0, 0, 1, 1, 2, 2, 2, 2]).step.1 = 0 ∧
        (m.advanceEach [1, 0, 1, 2, 0, 2, 2, 2, 2]).step.1 = 0 := by
      rw [hm]
      decide +kernel
    refine ⟨?_, ?_, ((device_confluent.1 m hrecordable).1 _ _ (step_eq_zero_iff.mp hidle.1)
      (step_eq_zero_iff.mp hidle.2)).1⟩
    · rw [hm]
      decide +kernel
    · rw [hm]
      decide +kernel
  · obtain ⟨r, m', hrun, -, -, -, herror⟩ :=
      (device_confluent.1 crossed recordable_crossed).2
    have hr : r ≠ .ok () := by
      rw [show r = (syncDevice.run crossed).1 by rw [hrun]]
      decide +kernel
    have hm' : (syncDevice.run crossed).2.executed = ["alone"] := by decide +kernel
    rw [hrun] at hm'
    exact ⟨r, m', hrun, hr, hm', (herror hr).2⟩

end LaunchGraph
