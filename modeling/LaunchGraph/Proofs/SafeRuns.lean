import LaunchGraph.Proofs.Accesses
import LaunchGraph.Proofs.Runs

/-!
# Runs in which nothing fails

Failure comes from outside: a label is rejected or let fail, the streams are limited, or a buffer
that work refers to is not allocated.  A run is *safe* if none of this is done to it
(`Context.Safe`).  In a safe run nothing fails (`Context.Safe.not_failed`): no move that makes a
vertex fail is possible, since the device is healthy, refuses nothing and has no limit
(`Stage.FailureFree`), and all other moves keep it so.
-/

namespace LaunchGraph

namespace Machine

/-- Nothing has failed on the device, and nothing that is queued is to fail. -/
structure Healthy (m : Machine) : Prop where
  lane : ∀ t lane, m.streams.get? t = some lane →
    lane.poisoned = false ∧ ∀ job, .launch job ∈ lane.ops → job.fails = false
  event : ∀ e, m.events.get? e ≠ some .failed

/-- The device accepts whatever refers to allocated buffers only. -/
theorem not_refuses {m : Machine} {e : Element} (hr : m.rejected = [])
    (hb : ∀ b, e.touches b = true → b ∈ m.buffers) : ¬ m.Refuses e := by
  rintro (hlabel | hmissing)
  · simp [hr] at hlabel
  · obtain ⟨b, hfind⟩ := Option.isSome_iff_exists.mp hmissing
    have hmem := List.mem_of_find?_eq_some hfind
    have htouches : e.touches b = true := by
      obtain ⟨a, ha, hab⟩ := List.mem_filterMap.mp hmem
      simp only [Element.touches, touchesIn, List.any_eq_true]
      exact ⟨a, ha, by simp [hab]⟩
    simpa [hb b htouches] using List.find?_some hfind

namespace Healthy

variable {m : Machine}

/-- Without failure behind it or before it, an operation does not fail. -/
theorem outcome? (h : m.Healthy) {t : StreamId} {op : Op} {rest : List Op} {p f : Bool}
    (ht : m.streams.get? t = some ⟨op :: rest, p⟩) (ho : m.outcome? p op = some f) :
    f = false := by
  obtain ⟨hp, hjobs⟩ := h.lane t _ ht
  cases op with
  | wait e =>
      cases he : m.events.get? e with
      | none => simp_all [Machine.outcome?]
      | some status =>
          cases status with
          | pending => simp [Machine.outcome?, he] at ho
          | complete => simp_all [Machine.outcome?]
          | failed => exact absurd he (h.event e)
  | launch job =>
      have hjob := hjobs job List.mem_cons_self
      simp_all [Machine.outcome?]
  | record e => simp_all [Machine.outcome?]

theorem advance (h : m.Healthy) {m' : Machine} {t : StreamId} (ha : m.advance t = some m') :
    m'.Healthy := by
  obtain ⟨op, rest, p, f, ht, ho, rfl⟩ := advance_cases ha
  obtain rfl := h.outcome? ht ho
  refine ⟨fun u lane hu => ?_, fun e he => ?_⟩
  · rcases retire_lane_cases ht hu with ⟨rfl, rfl⟩ | ⟨-, hu⟩
    · exact ⟨rfl, fun job hmem => (h.lane u _ ht).2 job (List.mem_cons_of_mem _ hmem)⟩
    · exact h.lane u lane hu
  · rcases retire_event_cases he with ⟨-, hst⟩ | ⟨-, he⟩
    · simp at hst
    · exact h.event e he

theorem sameWork (h : m.Healthy) {m' : Machine} (hw : m.SameWork m') : m'.Healthy :=
  ⟨by rw [hw.streams]; exact h.lane, by rw [hw.events]; exact h.event⟩

theorem addStream (h : m.Healthy) : m.addStream.Healthy := by
  refine ⟨fun t lane ht => ?_, h.event⟩
  by_cases heq : m.nextStream = t
  · obtain rfl : ({} : Lane) = lane := by simpa [Machine.addStream, heq] using ht
    simp
  · exact h.lane t lane (by simpa [Machine.addStream, heq] using ht)

theorem withWork (h : m.Healthy) (t : StreamId) (waits : List EventId) {job : Job}
    (hj : job.fails = false) : (m.withWork t waits job).Healthy := by
  refine ⟨fun u lane hu => ?_, fun e he => ?_⟩
  · obtain ⟨lane₀, hu₀, rfl | ⟨rfl, rfl⟩⟩ := extend_lane_cases hu
    · exact h.lane u lane hu₀
    · refine ⟨(h.lane t lane₀ hu₀).1, fun job' hmem => ?_⟩
      rcases List.mem_append.mp hmem with hmem | hmem
      · exact (h.lane t lane₀ hu₀).2 job' hmem
      · obtain rfl : job' = job := by simpa using hmem
        exact hj
  · by_cases heq : m.nextEvent = e
    · simp [Machine.withWork, heq] at he
    · exact h.event e (by simpa [Machine.withWork, heq] using he)

theorem empty (m : Machine) : Healthy { m with streams := .empty, events := .empty } :=
  ⟨by simp, by simp⟩

theorem eraseEvent (h : m.Healthy) (e : EventId) :
    Healthy { m with events := m.events.erase e } := by
  refine ⟨h.lane, fun e' he' => ?_⟩
  by_cases heq : e = e'
  · simp [heq] at he'
  · exact h.event e' (by simpa [heq] using he')

end Healthy

end Machine

namespace Stage

/-- Nothing has failed, and there is nothing that could make something fail. -/
structure FailureFree (s : Stage) : Prop where
  element : ∀ v x, s.dag.element? v = some x →
    x.isFailed = false ∧ ∀ b, x.touches b = true → b ∈ s.machine.buffers
  healthy : s.machine.Healthy
  rejected : s.machine.rejected = []
  failing : s.machine.failing = []
  unlimited : s.machine.streamLimit = none

namespace FailureFree

variable {P : Rules} {s t : Stage}

theorem initial (options : ContextOptions) : (Stage.initial options).FailureFree where
  element := by simp [Stage.initial, Context.new, Dag.element?]
  healthy := ⟨by simp [Stage.initial, Context.new], by simp [Stage.initial, Context.new]⟩
  rejected := rfl
  failing := rfl
  unlimited := rfl

theorem not_failed (h : s.FailureFree) (v : VertexId) : s.dag.isFailed v = false := by
  cases hx : s.dag.element? v with
  | none => simp [Dag.isFailed, hx]
  | some x => simpa [Dag.isFailed_eq hx] using (h.element v x hx).1

/-- A change that leaves the settings of the device as they are, and the device healthy. -/
theorem of_undisturbed (h : s.FailureFree) (hu : Undisturbed s t) (hhealthy : t.machine.Healthy)
    (helement : ∀ v x, t.dag.element? v = some x →
      x.isFailed = false ∧ ∀ b, x.touches b = true → b ∈ s.machine.buffers) : t.FailureFree where
  element v x hx :=
    ⟨(helement v x hx).1, fun b hb => hu.buffers b ((helement v x hx).2 b hb)⟩
  healthy := hhealthy
  rejected := hu.rejected.trans h.rejected
  failing := hu.failing.trans h.failing
  unlimited := hu.streamLimit.trans h.unlimited

/-- The element of a vertex changes, and does not fail. -/
theorem modifyElement (h : s.FailureFree) {v : VertexId} {g : Element → Element}
    (hstate : ∀ x, (g x).isFailed = false) (harguments : ∀ x, (g x).arguments = x.arguments) :
    ∀ w x, (s.dag.modifyElement v g).element? w = some x →
      x.isFailed = false ∧ ∀ b, x.touches b = true → b ∈ s.machine.buffers := by
  intro w x hx
  rcases Dag.element?_modifyElement_cases hx with ⟨rfl, old, ho, rfl⟩ | ⟨-, hx⟩
  · refine ⟨hstate old, fun b hb => (h.element w old ho).2 b ?_⟩
    simpa [Element.touches, harguments] using hb
  · exact h.element w x hx

/-- A new element on allocated buffers comes in and is bound to a stream. -/
theorem append (h : s.FailureFree) {e : Element} {d : Dag} (ha : s.dag.Appended e d)
    (hu : e.Unused) (hb : ∀ b, e.touches b = true → b ∈ s.machine.buffers) (t : StreamId) :
    ∀ w x, (d.modifyElement s.dag.vertices.length fun e => e.bind t).element? w = some x →
      x.isFailed = false ∧ ∀ b, x.touches b = true → b ∈ s.machine.buffers := by
  intro w x hx
  rcases Dag.element?_modifyElement_inv ha.element?_new hx with ⟨rfl, rfl⟩ | ⟨hne, hx⟩
  · exact ⟨by simp [Element.isFailed, Element.bind, hu.state], hb⟩
  · rcases ha.element?_cases hx with ⟨rfl, -⟩ | ⟨-, old, active, ho, rfl⟩
    · exact absurd rfl hne
    · exact h.element w old ho

/-- Nothing fails in a move, if what is admitted refers to allocated buffers. -/
theorem move (h : s.FailureFree) (hs : s.Coherent)
    (hP : ∀ s e, P.admits s e → ∀ b, e.touches b = true → b ∈ s.machine.buffers) (hm : Move P s t) :
    t.FailureFree := by
  have hu := hs.undisturbed hm
  cases hm with
  | advance ha => exact h.of_undisturbed hu (h.healthy.advance ha) h.element
  | adjust ha => exact h.of_undisturbed hu (h.healthy.sameWork ha.work) (ha.dag ▸ h.element)
  | finish hv hr he hc hp =>
      refine h.of_undisturbed hu (h.healthy.eraseEvent _) ?_
      exact h.modifyElement (g := Element.finish) (fun _ => rfl) fun _ => rfl
  | crash _ _ _ hc _ => exact absurd hc (h.healthy.event _)
  | cascade hfailed => simp [h.not_failed] at hfailed
  | skip => exact h.of_undisturbed hu h.healthy h.element
  | shun _ _ _ hfailed => simp [h.not_failed] at hfailed
  | reject _ _ hv _ _ _ hr =>
      exact absurd hr (Machine.not_refuses h.rejected (h.element _ _ hv).2)
  | issue =>
      refine h.of_undisturbed hu (h.healthy.withWork _ _ (by simp [h.failing])) ?_
      exact h.modifyElement (g := fun e => e.start _) (fun _ => rfl) fun _ => rfl
  | @enlist e d t' sch hunused he hd ha =>
      obtain ⟨happ, hs'⟩ := hs.assigned hunused hd ha
      refine h.of_undisturbed hu ?_ ?_
      · rcases hs'.machine with ⟨hm, -⟩ | ⟨hm, -⟩
        · simpa [Stage.machine, hm] using h.healthy
        · simpa [Stage.machine, hm] using h.healthy.addStream
      · simp only [hs'.dag]
        exact h.append happ hunused (hP s e he) t'
  | refuse hunused _ hd ha =>
      obtain ⟨-, hs'⟩ := hs.limited hunused hd ha
      have hlimit := hs'.limit
      simp [h.unlimited] at hlimit
  | drain => exact h.of_undisturbed hu h.healthy h.element
  | cleanup _ _ _ hc =>
      rw [Scheduler.run_cleanup hs.faults hs.owned.slots hs.owned.events] at hc
      obtain ⟨-, rfl⟩ := Prod.mk.inj hc
      exact h.of_undisturbed hu (.empty s.machine) h.element

theorem moves (h : s.FailureFree) (hs : s.Coherent)
    (hP : ∀ s e, P.admits s e → ∀ b, e.touches b = true → b ∈ s.machine.buffers) (hm : Moves P s t) :
    t.FailureFree := by
  induction hm with
  | refl => exact h
  | tail hm hstep ih => exact ih.move (hs.moves hm) hP hstep

end FailureFree

end Stage

namespace Context

/-- Nothing is done to make work fail: the commands leave the settings of the device as they are,
and whatever they submit refers only to buffers that are allocated by then. -/
def Safe : Context → List Command → Prop
  | _, [] => True
  | c, command :: rest =>
      command.isCalm = true ∧
        (∀ e, command.Submits c e → ∀ b, e.touches b = true → b ∈ c.device.machine.buffers) ∧
        Safe ((perform command).run c).2 rest

end Context

namespace Stage

/-- A safe run ends in a stage where nothing has failed. -/
theorem FailureFree.after {s : Stage} (h : s.FailureFree) (hs : s.Coherent) (hd : s.due = [])
    {commands : List Context.Command} (hc : ∀ command ∈ commands, command.Contained)
    (hsafe : s.toContext.Safe commands) :
    ∃ t, Stage.toContext t = s.toContext.after commands ∧ t.FailureFree := by
  induction commands generalizing s with
  | nil => exact ⟨s, rfl, h⟩
  | cons command rest ih =>
      obtain ⟨hcalm, hallocated, hrest⟩ := hsafe
      -- the buffers that were there when the command began are there when it submits its element
      obtain ⟨r, t, hrun, hmoves, hdue, -⟩ := hs.perform
        (P := { admits := fun t e => ∀ b, e.touches b = true → b ∈ t.machine.buffers }) hd
        (hc command (by simp)) hcalm
        (fun e he t hm b hb => (hs.undisturbed_moves hm).buffers b (hallocated e he b hb))
        fun _ _ _ => trivial
      rw [hrun] at hrest
      obtain ⟨u, hu, hfree⟩ := ih (h.moves hs (fun _ _ hP => hP) hmoves) (hs.moves hmoves) hdue
        (fun c hmem => hc c (by simp [hmem])) hrest
      refine ⟨u, hu.trans ?_, hfree⟩
      simp only [Context.after, List.foldl_cons, hrun]

end Stage

namespace Context

theorem safe_append {c : Context} {l l' : List Command} :
    c.Safe (l ++ l') ↔ c.Safe l ∧ (c.after l).Safe l' := by
  induction l generalizing c with
  | nil => simp [Safe, after]
  | cons command rest ih => simp [Safe, ih, after, and_assoc]

/-- **In a safe run nothing fails.** -/
theorem Safe.not_failed {options : ContextOptions} {commands : List Command}
    (h : (new options {}).Safe commands) (hc : ∀ command ∈ commands, command.Contained)
    (v : VertexId) : (ran options commands).dag.isFailed v = false := by
  obtain ⟨t, ht, hfree⟩ : ∃ t, Stage.toContext t = ran options commands ∧ t.FailureFree :=
    (Stage.FailureFree.initial options).after (.initial options) rfl hc h
  rw [← ht]
  exact hfree.not_failed v

end Context

end LaunchGraph
