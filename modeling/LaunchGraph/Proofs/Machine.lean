import LaunchGraph.Device.Machine
import LaunchGraph.Proofs.Tables

/-!
# The machine — what a step of the device does

Everything that makes the machine progress is a sequence of `Machine.advance`, each of which takes
the first operation off one stream (`advance_cases`).  `Machine.Advances` is the reflexive and
transitive closure; `step`, `settle` and `drainWithin` stay inside it.

Every advance leaves one operation fewer, so the number of queued operations bounds `settle` and
`drainWithin`: `settle` ends where nothing advances (`settle_idle`).

What the context queues on a stream it puts behind what is there (`Machine.extend`): waits, and
work, which is a launch and the recording of a new event (`Machine.withWork`).
-/

namespace LaunchGraph.Machine

/-! ### One advance -/

/-- An advance retires the first operation of its stream, which does not have to wait. -/
theorem advance_cases {m m' : Machine} {s : StreamId} (h : m.advance s = some m') :
    ∃ op rest poisoned failed, m.streams.get? s = some ⟨op :: rest, poisoned⟩ ∧
      m.outcome? poisoned op = some failed ∧ m' = m.retire s op rest failed := by
  unfold advance at h
  split at h
  · next op rest poisoned hs =>
    obtain ⟨failed, ho, rfl⟩ := Option.map_eq_some_iff.mp h
    exact ⟨op, rest, poisoned, failed, hs, ho, rfl⟩
  · cases h

@[simp] theorem get?_retire (m : Machine) (s t : StreamId) (op : Op) (rest : List Op) (f : Bool) :
    (m.retire s op rest f).streams.get? t =
      if s = t then (m.streams.get? t).map fun _ => ⟨rest, f && !rest.isEmpty⟩
      else m.streams.get? t := by
  simp [retire]

@[simp] theorem history_retire (m : Machine) (s : StreamId) (op : Op) (rest : List Op) (f : Bool) :
    (m.retire s op rest f).history = m.history ++ [⟨s, op, f⟩] := rfl

@[simp] theorem contains_retire (m : Machine) (s t : StreamId) (op : Op) (rest : List Op)
    (f : Bool) : (m.retire s op rest f).streams.contains t = m.streams.contains t := by
  simp [retire]

/-- The events once `op` has run: a recorded event is over, all others are as before. -/
theorem events_retire (m : Machine) (s : StreamId) (op : Op) (rest : List Op) (f : Bool)
    (e : EventId) :
    (m.retire s op rest f).events.get? e =
      if op = .record e then some (if f then .failed else .complete) else m.events.get? e := by
  cases op with
  | wait d => simp [retire]
  | launch job => simp [retire]
  | record d => by_cases h : d = e <;> simp [retire, h]

/-! ### Sequences of advances -/

/-- Some streams have advanced, one after the other. -/
inductive Advances : Machine → Machine → Prop where
  | refl (m : Machine) : Advances m m
  | more {m m₁ m' : Machine} {s : StreamId} (h : m.advance s = some m₁) (t : Advances m₁ m') :
      Advances m m'

namespace Advances

theorem trans {m m₁ m' : Machine} (h₁ : Advances m m₁) (h₂ : Advances m₁ m') : Advances m m' := by
  induction h₁ with
  | refl => exact h₂
  | more h _ ih => exact .more h (ih h₂)

theorem contains {m m' : Machine} (h : Advances m m') (s : StreamId) :
    m'.streams.contains s = m.streams.contains s := by
  induction h with
  | refl => rfl
  | more h _ ih =>
      obtain ⟨op, rest, p, f, -, -, rfl⟩ := advance_cases h
      rw [ih, contains_retire]

theorem keeps {P : Machine → Prop} (hP : ∀ m m' s, m.advance s = some m' → P m → P m')
    {m m' : Machine} (h : Advances m m') (hm : P m) : P m' := by
  induction h with
  | refl => exact hm
  | more h _ ih => exact ih (hP _ _ _ h hm)

end Advances

theorem advances_stepOver (m : Machine) (l : List StreamId) : Advances m (m.stepOver l).2 := by
  induction l generalizing m with
  | nil => exact .refl m
  | cons s rest ih =>
      simp only [stepOver]
      split
      · next m' h => exact .more h (ih m')
      · exact ih m

theorem advances_step (m : Machine) : Advances m m.step.2 := advances_stepOver m m.streams.keys

theorem advances_settleWithin (m : Machine) (bound : Nat) : Advances m (m.settleWithin bound) := by
  induction bound generalizing m with
  | zero => exact .refl m
  | succ bound ih =>
      simp only [settleWithin]
      split
      · exact .refl m
      · next m' _ h => exact .trans (by simpa [h] using advances_step m) (ih m')

theorem advances_settle (m : Machine) : Advances m m.settle := advances_settleWithin m _

theorem advances_drainWithin (s : StreamId) (bound : Nat) (m : Machine) :
    Advances m ((drainWithin s bound).run m).2 := by
  induction bound generalizing m with
  | zero =>
      simp only [drainWithin, Action.run]
      split
      · exact .refl m
      · split <;> exact .refl m
  | succ bound ih =>
      simp only [drainWithin, Action.run]
      split
      · exact .refl m
      · split
        · exact .refl m
        · split
          · exact .refl m
          · next m' _ h => exact .trans (by simpa [h] using advances_step m) (ih m')

/-! ### Counting what is queued -/

/-- Changing the lane at `k` changes the number of queued operations by as much. -/
theorem queued_modifyAt {k : StreamId} {lane lane' : Lane} {l : List (StreamId × Lane)}
    (h : Table.lookup k l = some lane) :
    queued ((Table.modifyAt k (fun _ => lane') l).map Prod.snd) + lane.ops.length =
      queued (l.map Prod.snd) + lane'.ops.length := by
  induction l with
  | nil => simp [Table.lookup] at h
  | cons entry rest ih =>
      by_cases hk : entry.1 = k
      · obtain rfl : entry.2 = lane := by simpa [Table.lookup, hk] using h
        simp only [Table.modifyAt, hk, if_pos, List.map_cons, queued]
        omega
      · have := ih (by simpa [Table.lookup, hk] using h)
        simp only [Table.modifyAt, hk, if_neg, not_false_iff, List.map_cons, queued]
        omega

/-- Every advance leaves one operation fewer. -/
theorem pendingOperations_advance {m m' : Machine} {s : StreamId} (h : m.advance s = some m') :
    m'.pendingOperations + 1 = m.pendingOperations := by
  obtain ⟨op, rest, p, f, hs, -, rfl⟩ := advance_cases h
  have := @queued_modifyAt s _ ⟨rest, f && !rest.isEmpty⟩ _ hs
  simp only [pendingOperations, Table.values, retire, Table.modify, List.length_cons] at this ⊢
  omega

theorem queued_eq_zero {l : List Lane} : queued l = 0 ↔ ∀ lane ∈ l, lane.ops = [] := by
  induction l with
  | nil => simp [queued]
  | cons lane rest ih => simp [queued, ih]

/-- Nothing is queued exactly if the queue of every stream is empty. -/
theorem pendingOperations_eq_zero {m : Machine} :
    m.pendingOperations = 0 ↔ ∀ s lane, m.streams.get? s = some lane → lane.ops = [] := by
  unfold pendingOperations
  rw [queued_eq_zero]
  constructor
  · intro h s lane hs
    exact h lane (Table.mem_values_iff.mpr ⟨s, hs⟩)
  · intro h lane hl
    obtain ⟨s, hs⟩ := Table.mem_values_iff.mp hl
    exact h s lane hs

/-- A step leaves as many operations fewer as it counts. -/
theorem pendingOperations_stepOver (m : Machine) (l : List StreamId) :
    (m.stepOver l).2.pendingOperations + (m.stepOver l).1 = m.pendingOperations := by
  induction l generalizing m with
  | nil => rfl
  | cons s rest ih =>
      simp only [stepOver]
      split
      · next m' h =>
        have h₁ := pendingOperations_advance h
        have h₂ := ih m'
        simp only
        omega
      · exact ih m

/-- A step that counts nothing found no stream that could advance. -/
theorem advance_eq_none_of_stepOver {m : Machine} {l : List StreamId} (h : (m.stepOver l).1 = 0) :
    ∀ s ∈ l, m.advance s = none := by
  induction l with
  | nil => simp
  | cons s rest ih =>
      simp only [stepOver] at h
      split at h
      · simp at h
      · next hs =>
        intro t ht
        rcases List.mem_cons.mp ht with rfl | ht
        · exact hs
        · exact ih h t ht

/-- Nothing advances in the machine. -/
def Idle (m : Machine) : Prop := ∀ s, m.advance s = none

theorem advance_eq_none {m : Machine} {s : StreamId} (h : m.streams.contains s = false) :
    m.advance s = none := by
  simp [advance, Table.get?_eq_none_iff.mpr h]

theorem step_eq_zero_iff {m : Machine} : m.step.1 = 0 ↔ m.Idle := by
  constructor
  · intro h s
    cases hc : m.streams.contains s with
    | true => exact advance_eq_none_of_stepOver h s (Table.mem_keys_iff.mpr hc)
    | false => exact advance_eq_none hc
  · intro h
    have : ∀ l, (m.stepOver l).1 = 0 := by
      intro l
      induction l with
      | nil => rfl
      | cons s rest ih => simp [stepOver, h s, ih]
    exact this _

theorem settleWithin_idle {m : Machine} {bound : Nat} (h : m.pendingOperations ≤ bound) :
    (m.settleWithin bound).Idle := by
  induction bound generalizing m with
  | zero =>
      refine step_eq_zero_iff.mp ?_
      have := pendingOperations_stepOver m m.streams.keys
      simp only [settleWithin, step]
      omega
  | succ bound ih =>
      have hstep := pendingOperations_stepOver m m.streams.keys
      simp only [settleWithin]
      split
      · next h₀ => exact step_eq_zero_iff.mp (by rw [h₀])
      · next n m' hn h₁ =>
        have h₂ : m.stepOver m.streams.keys = (n, m') := h₁
        rw [h₂] at hstep
        refine ih ?_
        have : n ≠ 0 := hn
        simp only at hstep
        omega

/-- Settling ends where nothing advances. -/
theorem settle_idle (m : Machine) : m.settle.Idle := settleWithin_idle (Nat.le_refl _)

/-! ### The parts of a device that has advanced -/

section Retire

variable {m : Machine} {s t : StreamId} {op : Op} {rest : List Op} {p f : Bool}

/-- A stream of the new device is the shortened one, or as before. -/
theorem retire_lane_cases (hs : m.streams.get? s = some ⟨op :: rest, p⟩) {lane : Lane}
    (ht : (m.retire s op rest f).streams.get? t = some lane) :
    (t = s ∧ lane = ⟨rest, f && !rest.isEmpty⟩) ∨ (t ≠ s ∧ m.streams.get? t = some lane) := by
  rw [get?_retire] at ht
  split at ht
  · next heq => exact .inl ⟨heq.symm, by simpa [← heq, hs] using ht.symm⟩
  · next hne => exact .inr ⟨fun heq => hne heq.symm, ht⟩

theorem retire_lane_sublist (hs : m.streams.get? s = some ⟨op :: rest, p⟩) {lane : Lane}
    (ht : (m.retire s op rest f).streams.get? t = some lane) :
    ∃ lane₀, m.streams.get? t = some lane₀ ∧ lane.ops.Sublist lane₀.ops := by
  rcases retire_lane_cases hs ht with ⟨rfl, rfl⟩ | ⟨-, ht⟩
  · exact ⟨_, hs, List.sublist_cons_self _ _⟩
  · exact ⟨lane, ht, List.Sublist.refl _⟩

/-- An event of the new device is the one just recorded, or as before. -/
theorem retire_event_cases {e : EventId} {st : EventStatus}
    (he : (m.retire s op rest f).events.get? e = some st) :
    (op = .record e ∧ st = if f then .failed else .complete) ∨
      (op ≠ .record e ∧ m.events.get? e = some st) := by
  rw [events_retire] at he
  split at he
  · next hop => exact .inl ⟨hop, (Option.some.inj he).symm⟩
  · next hop => exact .inr ⟨hop, he⟩

theorem retire_pending {e : EventId}
    (he : (m.retire s op rest f).events.get? e = some .pending) :
    op ≠ .record e ∧ m.events.get? e = some .pending := by
  rcases retire_event_cases he with ⟨-, hst⟩ | h
  · split at hst <;> cases hst
  · exact h

end Retire

/-! ### Devices with more work -/

/-- The device with operations queued on stream `s`. -/
def extend (m : Machine) (s : StreamId) (ops : List Op) : Machine :=
  { m with streams := m.streams.modify s fun l => { l with ops := l.ops ++ ops } }

/-- The device with the recording of a new event queued on stream `s`. -/
def withRecord (m : Machine) (s : StreamId) : Machine :=
  { m.extend s [.record m.nextEvent] with
    nextEvent := m.nextEvent + 1
    events := m.events.insert m.nextEvent .pending }

/-- The device with waits, a launch and the recording of a new event queued on stream `s`. -/
def withWork (m : Machine) (s : StreamId) (waits : List EventId) (job : Job) : Machine :=
  { m.extend s (waits.map .wait ++ [.launch job, .record m.nextEvent]) with
    nextEvent := m.nextEvent + 1
    events := m.events.insert m.nextEvent .pending }

/-- The device refuses the work of an element. -/
def Refuses (m : Machine) (e : Element) : Prop :=
  m.rejected.contains e.label = true ∨ (m.missingBuffer? e.arguments).isSome

instance (m : Machine) (e : Element) : Decidable (m.Refuses e) :=
  inferInstanceAs (Decidable (_ ∨ _))

/-- The two devices have the same streams, events and history. -/
structure SameWork (m m' : Machine) : Prop where
  nextStream : m'.nextStream = m.nextStream
  nextEvent : m'.nextEvent = m.nextEvent
  streams : m'.streams = m.streams
  events : m'.events = m.events
  history : m'.history = m.history

/-- The device with a new stream. -/
def addStream (m : Machine) : Machine :=
  { m with nextStream := m.nextStream + 1, streams := m.streams.insert m.nextStream {} }

section Extend

variable {m : Machine} {s t : StreamId} {ops : List Op} {lane : Lane}

theorem extend_lane_cases (ht : (m.extend s ops).streams.get? t = some lane) :
    ∃ lane₀, m.streams.get? t = some lane₀ ∧
      (lane = lane₀ ∨ (s = t ∧ lane = { lane₀ with ops := lane₀.ops ++ ops })) := by
  simp only [extend, Table.get?_modify] at ht
  split at ht
  · next heq =>
    obtain ⟨lane₀, ht₀, rfl⟩ := Option.map_eq_some_iff.mp ht
    exact ⟨lane₀, ht₀, .inr ⟨heq, rfl⟩⟩
  · exact ⟨lane, ht, .inl rfl⟩

theorem extend_get?_self (ops : List Op) (ht : m.streams.get? t = some lane) :
    (m.extend t ops).streams.get? t = some { lane with ops := lane.ops ++ ops } := by
  simp [extend, ht]

/-- A stream keeps what it has at its front. -/
theorem extend_get? (s : StreamId) (ops : List Op) (ht : m.streams.get? t = some lane) :
    ∃ more, (m.extend s ops).streams.get? t = some { lane with ops := lane.ops ++ more } := by
  by_cases heq : s = t
  · subst heq
    exact ⟨ops, extend_get?_self ops ht⟩
  · exact ⟨[], by simp [extend, heq, ht]⟩

@[simp] theorem contains_extend (m : Machine) (s t : StreamId) (ops : List Op) :
    (m.extend s ops).streams.contains t = m.streams.contains t := by
  simp [extend]

@[simp] theorem extend_nil (m : Machine) (s : StreamId) : m.extend s [] = m := by
  have h : m.streams.modify s (fun l => { l with ops := l.ops ++ [] }) = m.streams :=
    Table.ext_get? fun t => by by_cases heq : s = t <;> simp [heq]
  simp only [extend, h]

theorem extend_extend (m : Machine) (s : StreamId) (ops more : List Op) :
    (m.extend s ops).extend s more = m.extend s (ops ++ more) := by
  simp only [extend, Machine.mk.injEq, true_and, and_true]
  refine Table.ext_get? fun t => ?_
  by_cases heq : s = t <;> simp [heq, Function.comp_def]

theorem withRecord_extend (m : Machine) (s : StreamId) (waits : List EventId) (job : Job) :
    (m.extend s (waits.map .wait ++ [.launch job])).withRecord s = m.withWork s waits job := by
  simp only [withRecord, withWork]
  rw [extend_extend]
  simp [extend]

theorem events_withWork (m : Machine) (s : StreamId) (waits : List EventId) (job : Job)
    (e : EventId) : (m.withWork s waits job).events.get? e =
      if m.nextEvent = e then some .pending else m.events.get? e := by
  simp [withWork]

theorem withWork_eq (m : Machine) (s : StreamId) (waits : List EventId) (job : Job) :
    m.withWork s waits job = (m.extend s (waits.map .wait)).withWork s [] job := by
  simp only [withWork, List.map_nil, List.nil_append]
  rw [extend_extend]
  rfl

end Extend

end LaunchGraph.Machine
