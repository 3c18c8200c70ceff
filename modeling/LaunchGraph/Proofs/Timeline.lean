import LaunchGraph.Proofs.Ledger

/-!
# The timeline — the device runs parents before their children

A launch that is queued is held back by what stands in front of it on its stream: for each parent,
the parent has run; or its recording, or a wait for its event, still stands in front
(`Machine.Cleared`).  If the parent has failed, the stream is poisoned by then, or a wait in front
will poison it.

`Timeline` states this for a graph and a device, together with what a vertex says about its ticket
in each state of its life.  Its consequence for the history is the field `ordered`: when a launch
has run, the launch and the recording of each parent have run before it, and if the launch did not
fail, neither did its parents.
-/

namespace LaunchGraph

namespace Machine

/-- A launch behind `front` cannot run before the work of ticket `k` is over, and fails if that
failed. -/
def Cleared (m : Machine) (poisoned : Bool) (front : List Op) (k : Ticket) : Prop :=
  k.Ran false m.history ∨
  (k.Ran true m.history ∧
    (poisoned = true ∨ ∃ e, .wait e ∈ front ∧ m.events.get? e = some .failed)) ∨
  (m.events.get? k.event = some .pending ∧ (.record k.event ∈ front ∨ .wait k.event ∈ front))

/-- A poisoned stream stays poisoned by what runs on it. -/
theorem outcome?_poisoned {m : Machine} {op : Op} {f : Bool}
    (h : m.outcome? true op = some f) : f = true := by
  cases op with
  | wait e =>
      simp only [outcome?] at h
      split at h <;> simp_all
  | launch job => simpa [outcome?] using h.symm
  | record e => simpa [outcome?] using h.symm

namespace Cleared

variable {m : Machine} {tickets : List Ticket} {k : Ticket} {s : StreamId} {op : Op}
  {rest : List Op} {p f : Bool}

/-- An event that has failed is not recorded again. -/
theorem failed_retire (h : m.Ledger tickets) (hs : m.streams.get? s = some ⟨op :: rest, p⟩)
    {e : EventId} (he : m.events.get? e = some .failed) :
    (m.retire s op rest f).events.get? e = some .failed := by
  rw [events_retire, if_neg]
  · exact he
  · rintro rfl
    have := h.pending_of_record s _ hs e (by simp)
    simp [he] at this

/-- Progress on another stream keeps a launch held back. -/
theorem elsewhere (h : m.Ledger tickets) (hk : k ∈ tickets)
    (hs : m.streams.get? s = some ⟨op :: rest, p⟩) (ho : m.outcome? p op = some f)
    {t : StreamId} (hne : t ≠ s) {lane : Lane} (ht : m.streams.get? t = some lane)
    {front : List Op} (hfront : ∀ o ∈ front, o ∈ lane.ops) (hc : m.Cleared lane.poisoned front k) :
    (m.retire s op rest f).Cleared lane.poisoned front k := by
  rcases hc with hran | ⟨hran, hpoison⟩ | ⟨hpending, hmem⟩
  · exact .inl (hran.append _)
  · refine .inr (.inl ⟨hran.append _, hpoison.imp_right ?_⟩)
    rintro ⟨e, hmem, he⟩
    exact ⟨e, hmem, failed_retire h hs he⟩
  · by_cases hop : op = .record k.event
    · subst hop
      have hran := h.ran_of_record hk hs ho
      have ht' : (m.retire s (.record k.event) rest f).streams.get? t = some lane := by
        simpa [Ne.symm hne] using ht
      have hwait : .wait k.event ∈ front :=
        hmem.resolve_left fun hr => h.record_not_mem_retire hs ht' (hfront _ hr)
      cases f with
      | false => exact .inl hran
      | true => exact .inr (.inl ⟨hran, .inr ⟨k.event, hwait, by simp [events_retire]⟩⟩)
    · exact .inr (.inr ⟨by rw [events_retire, if_neg hop]; exact hpending, hmem⟩)

/-- Progress on its own stream brings a launch closer and keeps it held back. -/
theorem here (h : m.Ledger tickets) (hk : k ∈ tickets)
    (hs : m.streams.get? s = some ⟨op :: rest, p⟩) (ho : m.outcome? p op = some f)
    {front : List Op} (hc : m.Cleared p (op :: front) k) :
    (m.retire s op rest f).Cleared f front k := by
  rcases hc with hran | ⟨hran, hpoison⟩ | ⟨hpending, hmem⟩
  · exact .inl (hran.append _)
  · refine .inr (.inl ⟨hran.append _, ?_⟩)
    rcases hpoison with rfl | ⟨e, hmem, he⟩
    · exact .inl (outcome?_poisoned ho)
    · rcases List.mem_cons.mp hmem with rfl | hmem
      · exact .inl (by simpa [outcome?, he] using ho.symm)
      · exact .inr ⟨e, hmem, failed_retire h hs he⟩
  · by_cases hop : op = .record k.event
    · subst hop
      have hran := h.ran_of_record hk hs ho
      cases f with
      | false => exact .inl hran
      | true => exact .inr (.inl ⟨hran, .inl rfl⟩)
    · have hwait : op ≠ .wait k.event := by
        rintro rfl
        simp [outcome?, hpending] at ho
      refine .inr (.inr ⟨by rw [events_retire, if_neg hop]; exact hpending, ?_⟩)
      simpa [Ne.symm hop, Ne.symm hwait] using hmem

/-- With nothing in front, the work is over, and if it failed, the stream is poisoned. -/
theorem of_nil (hc : m.Cleared p [] k) :
    ∃ g, k.Ran g m.history ∧ (p = false → g = false) := by
  rcases hc with hran | ⟨hran, hpoison⟩ | ⟨-, hmem⟩
  · exact ⟨false, hran, fun _ => rfl⟩
  · refine ⟨true, hran, fun hp => ?_⟩
    simp [hp] at hpoison
  · simp at hmem

theorem mono {m' : Machine} {front front' : List Op} (hc : m.Cleared p front k)
    (hh : m'.history = m.history) (hf : ∀ o ∈ front, o ∈ front')
    (hp : m.events.get? k.event = some .pending → m'.events.get? k.event = some .pending)
    (he : ∀ e, m.events.get? e = some .failed → m'.events.get? e = some .failed) :
    m'.Cleared p front' k := by
  rcases hc with hran | ⟨hran, hpoison⟩ | ⟨hpending, hmem⟩
  · exact .inl (hh ▸ hran)
  · refine .inr (.inl ⟨hh ▸ hran, hpoison.imp_right ?_⟩)
    rintro ⟨e, hmem, hfailed⟩
    exact ⟨e, hf _ hmem, he e hfailed⟩
  · exact .inr (.inr ⟨hp hpending, hmem.imp (hf _) (hf _)⟩)

end Cleared

end Machine

/-- The device runs the vertices of the graph in order, as far as the edges go. -/
structure Timeline (d : Dag) (m : Machine) (tickets : List Ticket) : Prop where
  ledger : m.Ledger tickets
  started : ∀ k ∈ tickets, ∃ el, d.element? k.vertex = some el ∧ el.isStarted = true
  ticket : ∀ v el e, d.element? v = some el → el.event = some e →
    ∃ t, el.stream = some t ∧ ⟨v, t, e⟩ ∈ tickets
  event_of_running : ∀ v el, d.element? v = some el → el.state = .running →
    ∃ e, el.event = some e ∧ m.events.contains e = true
  running_of_pending : ∀ k ∈ tickets, m.events.get? k.event = some .pending →
    ∃ el, d.element? k.vertex = some el ∧ el.state = .running
  ran_of_finished : ∀ v, d.IsFinished v → ∃ k ∈ tickets, k.vertex = v ∧ k.Ran false m.history
  ran_of_failed : ∀ k ∈ tickets, ∀ el, d.element? k.vertex = some el → el.state = .failed →
    k.Ran true m.history
  finished_of_child : ∀ u v, d.HasEdge u v → d.IsFinished v → d.IsFinished u
  /-- Every queued launch is held back for each of its parents. -/
  cleared : ∀ t lane, m.streams.get? t = some lane → ∀ front job back,
    lane.ops = front ++ .launch job :: back → ∀ u v, job.vertex = some v → d.HasEdge u v →
    ∃ k ∈ tickets, k.vertex = u ∧ m.Cleared lane.poisoned front k
  /-- Every launch that has run came after each of its parents. -/
  ordered : ∀ before r after, m.history = before ++ r :: after → ∀ job u v, r.op = .launch job →
    job.vertex = some v → d.HasEdge u v →
    ∃ k ∈ tickets, k.vertex = u ∧ ∃ f, k.Ran f before ∧ (r.failed = false → f = false)

namespace Element

theorem isTerminal_of_running {el : Element} (h : el.state = .running) : el.isTerminal = false := by
  simp [isTerminal, h, Lifecycle.isTerminal]

theorem isTerminal_of_finished {el : Element} (h : el.state = .finished) :
    el.isTerminal = true := by
  simp [isTerminal, h, Lifecycle.isTerminal]

theorem isTerminal_of_failed {el : Element} (h : el.state = .failed) : el.isTerminal = true := by
  simp [isTerminal, h, Lifecycle.isTerminal]

theorem isStarted_of_isTerminal {el : Element} (h : el.isTerminal = true) :
    el.isStarted = true := by
  unfold isTerminal at h
  unfold isStarted
  cases hx : el.state <;> simp_all [Lifecycle.isTerminal, Lifecycle.isStarted]

theorem isTerminal_of_unstarted {el : Element} (h : el.isStarted = false) :
    el.isTerminal = false := by
  by_contra ht
  simp [isStarted_of_isTerminal (by simpa using ht)] at h

/-- What has been handed to the device and is not over is running. -/
theorem running_of_started {el : Element} (hs : el.isStarted = true)
    (ht : el.isTerminal = false) : el.state = .running := by
  unfold isTerminal at ht
  unfold isStarted at hs
  cases hx : el.state <;> simp_all [Lifecycle.isTerminal, Lifecycle.isStarted]

end Element

namespace Timeline

variable {d : Dag} {m : Machine} {tickets : List Ticket}

theorem empty (p : DependencyPolicy) : Timeline { policy := p } {} [] where
  ledger := .empty
  started := by simp
  ticket := by simp [Dag.element?]
  event_of_running := by simp [Dag.element?]
  running_of_pending := by simp
  ran_of_finished := by simp [Dag.IsFinished, Dag.element?]
  ran_of_failed := by simp
  finished_of_child := by simp [Dag.HasEdge]
  cleared := by simp
  ordered := by simp

/-! ### The device advances -/

/-- Where a list ends with `x`, a split of it ends with `x`, or is at `x`. -/
theorem split_of_append_singleton {α : Type} {h before after : List α} {x r : α}
    (heq : h ++ [x] = before ++ r :: after) :
    (before = h ∧ r = x) ∨ ∃ after', h = before ++ r :: after' := by
  rcases List.eq_nil_or_concat after with rfl | ⟨after', y, rfl⟩
  · obtain ⟨hh, hx⟩ := List.append_inj' heq rfl
    exact .inl ⟨hh.symm, (List.singleton_inj.mp hx).symm⟩
  · rw [List.concat_eq_append, ← List.cons_append, ← List.append_assoc] at heq
    exact .inr ⟨after', (List.append_inj' heq rfl).1⟩

theorem advance (h : Timeline d m tickets) {s : StreamId} {m' : Machine}
    (ha : m.advance s = some m') : Timeline d m' tickets := by
  have hledger := h.ledger.advance ha
  obtain ⟨op, rest, p, f, hs, ho, rfl⟩ := Machine.advance_cases ha
  have hhistory : (m.retire s op rest f).history = m.history ++ [⟨s, op, f⟩] := rfl
  exact { h with
    ledger := hledger
    event_of_running := fun v el hv hr => by
      obtain ⟨e, he, hc⟩ := h.event_of_running v el hv hr
      refine ⟨e, he, ?_⟩
      obtain ⟨st, hst⟩ := Table.contains_iff.mp hc
      rw [Table.contains, Machine.events_retire]
      split <;> simp [hst]
    running_of_pending := fun k hk hp => h.running_of_pending k hk (Machine.retire_pending hp).2
    ran_of_finished := fun v hv => by
      obtain ⟨k, hk, hkv, hran⟩ := h.ran_of_finished v hv
      exact ⟨k, hk, hkv, hran.append _⟩
    ran_of_failed := fun k hk el hel hf => (h.ran_of_failed k hk el hel hf).append _
    cleared := fun t lane ht front job back hops u v hj huv => by
      rcases Machine.retire_lane_cases hs ht with ⟨rfl, rfl⟩ | ⟨hne, ht⟩
      · obtain rfl : rest = front ++ .launch job :: back := hops
        obtain ⟨k, hk, hku, hc⟩ := h.cleared t _ hs (op :: front) job back rfl u v hj huv
        have hne : (front ++ .launch job :: back : List Op).isEmpty = false := by
          cases front <;> rfl
        refine ⟨k, hk, hku, ?_⟩
        simpa [hne] using Machine.Cleared.here h.ledger hk hs ho hc
      · obtain ⟨k, hk, hku, hc⟩ := h.cleared t lane ht front job back hops u v hj huv
        refine ⟨k, hk, hku, Machine.Cleared.elsewhere h.ledger hk hs ho hne ht ?_ hc⟩
        intro o ho
        exact hops ▸ List.mem_append_left _ ho
    ordered := fun before r after heq job u v hop hj huv => by
      rcases split_of_append_singleton (hhistory ▸ heq) with ⟨rfl, rfl⟩ | ⟨after', heq'⟩
      · -- the launch that has just run stood at the front of its stream
        obtain rfl : op = .launch job := hop
        obtain ⟨k, hk, hku, hc⟩ := h.cleared s _ hs [] job rest rfl u v hj huv
        obtain ⟨g, hran, hg⟩ := hc.of_nil
        refine ⟨k, hk, hku, g, hran, fun hf => hg ?_⟩
        have : (p || job.fails) = f := by simpa [Machine.outcome?] using ho
        simp_all
      · exact h.ordered before r after' heq' job u v hop hj huv }

/-! ### The device is changed by the scheduler -/

theorem congr (h : Timeline d m tickets) {m' : Machine} (hw : m.SameWork m') :
    Timeline d m' tickets :=
  { h with
    ledger := h.ledger.congr hw
    event_of_running := by simpa only [hw.events] using h.event_of_running
    running_of_pending := by simpa only [hw.events] using h.running_of_pending
    ran_of_finished := by simpa only [hw.history] using h.ran_of_finished
    ran_of_failed := by simpa only [hw.history] using h.ran_of_failed
    cleared := by simpa only [hw.streams, hw.history, hw.events, Machine.Cleared] using h.cleared
    ordered := by simpa only [hw.history] using h.ordered }

/-- A launch in front of what is queued last has been queued before. -/
theorem front_of_append {ops more front back : List Op} {job : Job}
    (heq : ops ++ more = front ++ .launch job :: back) (hmore : .launch job ∉ more) :
    ∃ back', ops = front ++ .launch job :: back' := by
  rcases List.append_eq_append_iff.mp heq with ⟨l, rfl, hl⟩ | ⟨l, rfl, hl⟩
  · exact (hmore (hl ▸ by simp)).elim
  · cases l with
    | nil =>
        obtain rfl : .launch job :: back = more := hl
        exact (hmore List.mem_cons_self).elim
    | cons o l =>
        obtain ⟨rfl, rfl⟩ := List.cons_eq_cons.mp hl
        exact ⟨l, rfl⟩

/-- More waits for known events may be queued. -/
theorem extend_waits (h : Timeline d m tickets) (s : StreamId) {waits : List EventId}
    (hw : ∀ e ∈ waits, e < m.nextEvent) :
    Timeline d (m.extend s (waits.map .wait)) tickets :=
  { h with
    ledger := h.ledger.extend_waits s hw
    event_of_running := h.event_of_running
    running_of_pending := h.running_of_pending
    ran_of_finished := h.ran_of_finished
    ran_of_failed := h.ran_of_failed
    cleared := fun t lane ht front job back hops u v hj huv => by
      obtain ⟨lane₀, ht₀, rfl | ⟨-, rfl⟩⟩ := Machine.extend_lane_cases ht
      · exact h.cleared t lane ht₀ front job back hops u v hj huv
      · obtain ⟨back', hops'⟩ := front_of_append hops (by simp)
        exact h.cleared t lane₀ ht₀ front job back' hops' u v hj huv
    ordered := h.ordered }

/-- A stream may be made. -/
theorem addStream (h : Timeline d m tickets) (hs : m.streams.contains m.nextStream = false) :
    Timeline d m.addStream tickets :=
  { h with
    ledger := h.ledger.addStream hs _
    event_of_running := h.event_of_running
    running_of_pending := h.running_of_pending
    ran_of_finished := h.ran_of_finished
    ran_of_failed := h.ran_of_failed
    cleared := fun t lane ht front job back hops u v hj huv => by
      simp only [Machine.addStream, Table.get?_insert] at ht
      split at ht
      · obtain rfl : ({} : Lane) = lane := Option.some.inj ht
        simp at hops
      · exact h.cleared t lane ht front job back hops u v hj huv
    ordered := h.ordered }

/-- The event of a vertex that is not running may be forgotten, unless it failed. -/
theorem eraseEvent (h : Timeline d m tickets) {e : EventId}
    (he : m.events.get? e = some .complete)
    (hr : ∀ v el, d.element? v = some el → el.state = .running → el.event ≠ some e) :
    Timeline d { m with events := m.events.erase e } tickets := by
  have hkeep : ∀ a st, st ≠ .complete → m.events.get? a = some st →
      (m.events.erase e).get? a = some st := by
    intro a st hst ha
    rw [Table.get?_erase, if_neg]
    · exact ha
    · rintro rfl
      exact hst (Option.some.inj (ha.symm.trans he))
  exact { h with
    ledger := h.ledger.eraseEvent (by simp [he])
    event_of_running := fun v el hv hrun => by
      obtain ⟨a, ha, hc⟩ := h.event_of_running v el hv hrun
      have hne : e ≠ a := by
        rintro rfl
        exact hr v el hv hrun ha
      exact ⟨a, ha, by simp [hne, hc]⟩
    running_of_pending := fun k hk hp => by
      refine h.running_of_pending k hk ?_
      simp only [Table.get?_erase] at hp
      split at hp
      · cases hp
      · exact hp
    ran_of_finished := h.ran_of_finished
    ran_of_failed := h.ran_of_failed
    cleared := fun t lane ht front job back hops u v hj huv => by
      obtain ⟨k, hk, hku, hc⟩ := h.cleared t lane ht front job back hops u v hj huv
      exact ⟨k, hk, hku, hc.mono rfl (fun _ ho => ho) (hkeep _ _ (by simp))
        fun a => hkeep a _ (by simp)⟩
    ordered := h.ordered }

/-- All streams and events may be given back once nothing is running. -/
theorem clear (h : Timeline d m tickets)
    (hr : ∀ v el, d.element? v = some el → el.state ≠ .running) :
    Timeline d { m with streams := .empty, events := .empty } tickets :=
  { h with
    ledger := h.ledger.clear fun e he => by
      obtain ⟨k, hk, rfl⟩ := h.ledger.ticket_of_event e (Table.contains_of_get? he)
      obtain ⟨el, hel, hrun⟩ := h.running_of_pending k hk he
      exact hr _ el hel hrun
    event_of_running := fun v el hv hrun => absurd hrun (hr v el hv)
    running_of_pending := by simp
    ran_of_finished := h.ran_of_finished
    ran_of_failed := h.ran_of_failed
    cleared := by simp
    ordered := h.ordered }

/-! ### The graph is changed by the scheduler -/

/-- The element of a vertex may change, except that nothing becomes running in this way, and only
the work of a vertex that was complete is finished. -/
theorem modifyElement (h : Timeline d m tickets) {v : VertexId} {el : Element}
    (hv : d.element? v = some el) {g : Element → Element}
    (hstarted : el.isStarted = true → (g el).isStarted = true)
    (hevent : ∀ e, (g el).event = some e → el.event = some e ∧ (g el).stream = el.stream)
    (hrunning : (g el).state ≠ .running)
    (hpending : el.state = .running → ∀ e, el.event = some e → m.events.get? e ≠ some .pending)
    (hkept : el.state = .finished → (g el).state = .finished)
    (hfinished : (g el).state = .finished →
      (∃ k ∈ tickets, k.vertex = v ∧ k.Ran false m.history) ∧
        ∀ u, d.HasEdge u v → d.IsFinished u)
    (hfailed : (g el).state = .failed → ∀ k ∈ tickets, k.vertex = v → k.Ran true m.history) :
    Timeline (d.modifyElement v g) m tickets := by
  have hedge : (d.modifyElement v g).HasEdge = d.HasEdge := Dag.hasEdge_congr (by simp)
  have hfin : ∀ w, d.IsFinished w → (d.modifyElement v g).IsFinished w := by
    rintro w ⟨x, hx, hst⟩
    rcases Dag.element?_modifyElement_of_some hv hx g with ⟨rfl, rfl, hx'⟩ | ⟨-, hx'⟩
    · exact ⟨_, hx', hkept hst⟩
    · exact ⟨x, hx', hst⟩
  exact {
    ledger := h.ledger
    started := fun k hk => by
      obtain ⟨x, hx, hst⟩ := h.started k hk
      rcases Dag.element?_modifyElement_of_some hv hx g with ⟨-, rfl, hx'⟩ | ⟨-, hx'⟩
      · exact ⟨_, hx', hstarted hst⟩
      · exact ⟨x, hx', hst⟩
    ticket := fun w x e hx he => by
      rcases Dag.element?_modifyElement_inv hv hx with ⟨rfl, rfl⟩ | ⟨-, hx⟩
      · obtain ⟨he, hs⟩ := hevent e he
        rw [hs]
        exact h.ticket w el e hv he
      · exact h.ticket w x e hx he
    event_of_running := fun w x hx hr => by
      rcases Dag.element?_modifyElement_inv hv hx with ⟨rfl, rfl⟩ | ⟨-, hx⟩
      · exact absurd hr hrunning
      · exact h.event_of_running w x hx hr
    running_of_pending := fun k hk hp => by
      obtain ⟨x, hx, hr⟩ := h.running_of_pending k hk hp
      rcases Dag.element?_modifyElement_of_some hv hx g with ⟨-, rfl, -⟩ | ⟨-, hx'⟩
      · -- a running vertex whose event is pending does not change
        obtain ⟨e, he, -⟩ := h.event_of_running _ x hx hr
        obtain ⟨t, -, hk'⟩ := h.ticket _ x e hx he
        have heq : e = k.event := congrArg Ticket.event (h.ledger.vertex_inj _ hk' k hk rfl)
        exact absurd (heq ▸ hp) (hpending hr e he)
      · exact ⟨x, hx', hr⟩
    ran_of_finished := fun w ⟨x, hx, hst⟩ => by
      rcases Dag.element?_modifyElement_inv hv hx with ⟨rfl, rfl⟩ | ⟨-, hx⟩
      · exact (hfinished hst).1
      · exact h.ran_of_finished w ⟨x, hx, hst⟩
    ran_of_failed := fun k hk x hx hf => by
      rcases Dag.element?_modifyElement_inv hv hx with ⟨hw, rfl⟩ | ⟨-, hx⟩
      · exact hfailed hf k hk hw
      · exact h.ran_of_failed k hk x hx hf
    finished_of_child := fun u w huw ⟨x, hx, hst⟩ => by
      rw [hedge] at huw
      rcases Dag.element?_modifyElement_inv hv hx with ⟨rfl, rfl⟩ | ⟨-, hx⟩
      · exact hfin u ((hfinished hst).2 u huw)
      · exact hfin u (h.finished_of_child u w huw ⟨x, hx, hst⟩)
    cleared := by rw [hedge]; exact h.cleared
    ordered := by rw [hedge]; exact h.ordered }

/-- A vertex that is not started has no ticket. -/
theorem vertex_ne_of_unstarted (h : Timeline d m tickets) {v : VertexId} {el : Element}
    (hv : d.element? v = some el) (hs : el.isStarted = false) : ∀ k ∈ tickets, k.vertex ≠ v := by
  rintro k hk rfl
  obtain ⟨x, hx, hst⟩ := h.started k hk
  obtain rfl : el = x := Option.some.inj (hv.symm.trans hx)
  simp [hs] at hst

/-- A vertex may fail that is not over; if it is running, its event has failed. -/
theorem fail (h : Timeline d m tickets) {v : VertexId} {el : Element}
    (hv : d.element? v = some el) (ht : el.isTerminal = false)
    (hp : el.state = .running → ∃ e, el.event = some e ∧ m.events.get? e = some .failed)
    (cause : FailureCause) : Timeline (d.modifyElement v fun e => e.fail cause) m tickets := by
  refine h.modifyElement hv (fun _ => rfl) (fun _ he => ⟨he, rfl⟩) (by simp [Element.fail]) ?_
    (fun hf => by simp [Element.isTerminal, hf, Lifecycle.isTerminal] at ht)
    (fun hf => by simp [Element.fail] at hf) ?_
  · intro hr e he hpending
    obtain ⟨e', he', hfailed⟩ := hp hr
    obtain rfl : e' = e := Option.some.inj (he'.symm.trans he)
    simp [hfailed] at hpending
  · rintro - k hk rfl
    by_cases hs : el.isStarted = true
    · obtain ⟨e, he, hfailed⟩ := hp (Element.running_of_started hs ht)
      obtain ⟨t, -, hk'⟩ := h.ticket _ el e hv he
      obtain heq := h.ledger.vertex_inj _ hk' k hk rfl
      exact heq ▸ h.ledger.ran _ hk' true (by simpa using hfailed)
    · exact absurd rfl (h.vertex_ne_of_unstarted hv (by simpa using hs) k hk)

/-- A vertex that is not started has no event. -/
theorem event_of_unstarted (h : Timeline d m tickets) {v : VertexId} {el : Element}
    (hv : d.element? v = some el) (hs : el.isStarted = false) : el.event = none := by
  cases he : el.event with
  | none => rfl
  | some e =>
      obtain ⟨t, -, hk⟩ := h.ticket v el e hv he
      exact absurd rfl (h.vertex_ne_of_unstarted hv hs _ hk)

/-- A vertex may be bound to a stream that has none. -/
theorem bind (h : Timeline d m tickets) {v : VertexId} {el : Element}
    (hv : d.element? v = some el) (hs : el.state = .created) (t : StreamId) :
    Timeline (d.modifyElement v fun e => e.bind t) m tickets := by
  have hevent : el.event = none :=
    h.event_of_unstarted hv (by simp [Element.isStarted, hs, Lifecycle.isStarted])
  exact h.modifyElement hv (by simp [Element.isStarted, hs, Lifecycle.isStarted])
    (by simp [Element.bind, hevent]) (by simp [Element.bind, hs]) (by simp [hs]) (by simp [hs])
    (by simp [Element.bind, hs]) (by simp [Element.bind, hs])

/-- A running vertex may finish whose event is complete and whose parents are finished. -/
theorem finish (h : Timeline d m tickets) {v : VertexId} {el : Element} {e : EventId}
    (hv : d.element? v = some el) (he : el.event = some e)
    (hc : m.events.get? e = some .complete) (hp : ∀ u, d.HasEdge u v → d.IsFinished u) :
    Timeline (d.modifyElement v Element.finish) m tickets := by
  obtain ⟨t, -, hk⟩ := h.ticket v el e hv he
  refine h.modifyElement hv (fun _ => rfl) (by simp [Element.finish]) (by simp [Element.finish])
    (fun _ e' he' hpending => ?_) (fun _ => rfl)
    (fun _ => ⟨⟨_, hk, rfl, h.ledger.ran _ hk false (by simpa using hc)⟩, hp⟩)
    (by simp [Element.finish])
  obtain rfl : e = e' := Option.some.inj (he.symm.trans he')
  simp [hc] at hpending

/-- An element may be appended that is not in use. -/
theorem append (h : Timeline d m tickets) {e : Element} {d' : Dag}
    (hu : e.Unused) (ha : d.Appended e d') : Timeline d' m tickets := by
  have hnew : ∀ w, w = d.vertices.length → ∀ x, d.element? w = some x → False := by
    rintro w rfl x hx
    exact Nat.lt_irrefl _ (Dag.lt_of_element? hx)
  have hfin : ∀ w, d'.IsFinished w ↔ d.IsFinished w := by
    intro w
    constructor
    · rintro ⟨x, hx, hst⟩
      rcases ha.element?_cases hx with ⟨rfl, rfl⟩ | ⟨-, el, active, hel, rfl⟩
      · simp [hu.state] at hst
      · exact ⟨el, hel, hst⟩
    · rintro ⟨x, hx, hst⟩
      obtain ⟨active, hx'⟩ := ha.element?_of_old hx
      exact ⟨_, hx', hst⟩
  -- the new vertex has no ticket, so it is launched nowhere
  have hlaunch : ∀ {job : Job} {v : VertexId} {k : Ticket}, k ∈ tickets →
      job.vertex = some k.vertex → job.vertex = some v → v ≠ d.vertices.length := by
    rintro job v k hk hjk hjv rfl
    obtain ⟨x, hx, -⟩ := h.started k hk
    exact hnew k.vertex (Option.some.inj (hjk.symm.trans hjv)) x hx
  exact {
    ledger := h.ledger
    started := fun k hk => by
      obtain ⟨x, hx, hst⟩ := h.started k hk
      obtain ⟨active, hx'⟩ := ha.element?_of_old hx
      exact ⟨_, hx', hst⟩
    ticket := fun v x e hx he => by
      rcases ha.element?_cases hx with ⟨rfl, rfl⟩ | ⟨-, el, active, hel, rfl⟩
      · simp [hu.event] at he
      · exact h.ticket v el e hel he
    event_of_running := fun v x hx hr => by
      rcases ha.element?_cases hx with ⟨rfl, rfl⟩ | ⟨-, el, active, hel, rfl⟩
      · simp [hu.state] at hr
      · exact h.event_of_running v el hel hr
    running_of_pending := fun k hk hp => by
      obtain ⟨x, hx, hr⟩ := h.running_of_pending k hk hp
      obtain ⟨active, hx'⟩ := ha.element?_of_old hx
      exact ⟨_, hx', hr⟩
    ran_of_finished := fun v hv => h.ran_of_finished v ((hfin v).mp hv)
    ran_of_failed := fun k hk x hx hf => by
      rcases ha.element?_cases hx with ⟨-, rfl⟩ | ⟨-, el, active, hel, rfl⟩
      · simp [hu.state] at hf
      · exact h.ran_of_failed k hk el hel hf
    finished_of_child := fun u v huv hv => by
      have hold := (hfin v).mp hv
      obtain ⟨x, hx, -⟩ := hold
      rw [ha.hasEdge_old fun heq => hnew v heq x hx] at huv
      exact (hfin u).mpr (h.finished_of_child u v huv ((hfin v).mp hv))
    cleared := fun t lane ht front job back hops u v hj huv => by
      have hqueued : .launch job ∈ lane.ops := by simp [hops]
      obtain ⟨k, hk, -, hjk, -⟩ := (h.ledger.shape t lane ht).ticket_of_launch hqueued
      rw [ha.hasEdge_old (hlaunch hk hjk hj)] at huv
      exact h.cleared t lane ht front job back hops u v hj huv
    ordered := fun before r after heq job u v hop hj huv => by
      obtain ⟨k, hk, hjk, -⟩ := h.ledger.retired r (by simp [heq]) job hop
      rw [ha.hasEdge_old (hlaunch hk hjk hj)] at huv
      exact h.ordered before r after heq job u v hop hj huv }

/-! ### Work is issued -/

/-- The only launch among the operations of one piece of work stands right behind the waits. -/
theorem split_of_work {waits : List EventId} {job job' : Job} {e : EventId}
    {front back : List Op}
    (heq : waits.map Op.wait ++ [.launch job, .record e] = front ++ .launch job' :: back) :
    front = waits.map .wait ∧ job' = job := by
  rcases List.append_eq_append_iff.mp heq with ⟨l, rfl, hl⟩ | ⟨l, hwaits, hl⟩
  · cases l with
    | nil =>
        obtain ⟨hjob, -⟩ := List.cons_eq_cons.mp hl
        exact ⟨by simp, (Op.launch.inj hjob).symm⟩
    | cons o l =>
        obtain ⟨rfl, hl⟩ := List.cons_eq_cons.mp hl
        cases l <;> simp at hl
  · cases l with
    | nil =>
        obtain ⟨hjob, -⟩ := List.cons_eq_cons.mp hl
        exact ⟨by simp [hwaits], Op.launch.inj hjob⟩
    | cons o l =>
        obtain ⟨rfl, -⟩ := List.cons_eq_cons.mp hl
        have : .launch job' ∈ waits.map Op.wait := hwaits ▸ by simp
        simp at this

/-- What a queue of more work splits into at a launch: the launch was queued before, or it is the
new one. -/
theorem split_of_extended {ops : List Op} {waits : List EventId} {job job' : Job} {e : EventId}
    {front back : List Op}
    (heq : ops ++ (waits.map Op.wait ++ [.launch job, .record e]) =
      front ++ .launch job' :: back) :
    (∃ back', ops = front ++ .launch job' :: back') ∨
      (front = ops ++ waits.map .wait ∧ job' = job) := by
  rcases List.append_eq_append_iff.mp heq with ⟨l, rfl, hl⟩ | ⟨l, rfl, hl⟩
  · obtain ⟨rfl, rfl⟩ := split_of_work hl
    exact .inr ⟨rfl, rfl⟩
  · cases l with
    | nil =>
        obtain ⟨hwaits, rfl⟩ := @split_of_work waits job job' e [] back hl.symm
        exact .inr ⟨by simp [← hwaits], rfl⟩
    | cons o l =>
        obtain ⟨rfl, rfl⟩ := List.cons_eq_cons.mp hl
        exact .inl ⟨l, rfl⟩

/-- What is known of an event stays when more work is queued. -/
theorem events_withWork (h : Timeline d m tickets) (t : StreamId) (waits : List EventId) (job : Job)
    {e : EventId} {st : EventStatus} (he : m.events.get? e = some st) :
    (m.withWork t waits job).events.get? e = some st := by
  obtain ⟨k, hk, rfl⟩ := h.ledger.ticket_of_event e (Table.contains_of_get? he)
  rw [Machine.events_withWork, if_neg (Nat.ne_of_gt (h.ledger.event_lt k hk))]
  exact he

/-- New work is held back for a parent that is finished, or has a pending event that the stream
records or that is waited for. -/
theorem cleared_of_parent (h : Timeline d m tickets) {t : StreamId} {waits : List EventId}
    (job : Job) {lane : Lane} (ht : m.streams.get? t = some lane) {u : VertexId}
    (hu : d.IsFinished u ∨ ∃ x e, d.element? u = some x ∧ x.event = some e ∧
      m.events.get? e = some .pending ∧ (x.stream = some t ∨ e ∈ waits)) :
    ∃ k ∈ tickets, k.vertex = u ∧
      (m.withWork t waits job).Cleared lane.poisoned (lane.ops ++ waits.map .wait) k := by
  rcases hu with hfinished | ⟨x, e, hx, he, hp, hcase⟩
  · obtain ⟨k, hk, hku, hran⟩ := h.ran_of_finished u hfinished
    exact ⟨k, hk, hku, .inl hran⟩
  · obtain ⟨s, hs, hk⟩ := h.ticket u x e hx he
    refine ⟨⟨u, s, e⟩, hk, rfl, .inr (.inr ⟨h.events_withWork t waits job hp, ?_⟩)⟩
    rcases hcase with hstream | hwait
    · -- the recording of a parent on the same stream is still queued there
      obtain rfl : s = t := Option.some.inj (hs.symm.trans hstream)
      obtain ⟨lane', ht', hr⟩ := h.ledger.record_of_pending _ hk hp
      obtain rfl : lane = lane' := Option.some.inj (ht.symm.trans ht')
      exact .inl (List.mem_append_left _ hr)
    · exact .inr (List.mem_append_right _ (List.mem_map.mpr ⟨e, hwait, rfl⟩))

/-- What is queued is held back by the same tickets when more work is queued, and the new work by
tickets of its parents. -/
theorem cleared_withWork (h : Timeline d m tickets) {v : VertexId} {t : StreamId}
    {waits : List EventId} {job : Job} (hj : job.vertex = some v)
    (hparents : ∀ u, d.HasEdge u v → d.IsFinished u ∨ ∃ x e, d.element? u = some x ∧
      x.event = some e ∧ m.events.get? e = some .pending ∧ (x.stream = some t ∨ e ∈ waits))
    {t' : StreamId} {lane : Lane} (ht' : (m.withWork t waits job).streams.get? t' = some lane)
    {front back : List Op} {job' : Job} (hops : lane.ops = front ++ .launch job' :: back)
    {u w : VertexId} (hj' : job'.vertex = some w) (huw : d.HasEdge u w) :
    ∃ k ∈ tickets, k.vertex = u ∧ (m.withWork t waits job).Cleared lane.poisoned front k := by
  have hold : ∀ lane₀, m.streams.get? t' = some lane₀ → ∀ back',
      lane₀.ops = front ++ .launch job' :: back' →
      ∃ k ∈ tickets, k.vertex = u ∧ (m.withWork t waits job).Cleared lane₀.poisoned front k := by
    intro lane₀ ht₀ back' hops'
    obtain ⟨k, hk, hku, hc⟩ := h.cleared t' lane₀ ht₀ front job' back' hops' u w hj' huw
    exact ⟨k, hk, hku, hc.mono rfl (fun _ ho => ho) (h.events_withWork t waits job)
      fun e => h.events_withWork t waits job⟩
  obtain ⟨lane₀, ht₀, rfl | ⟨rfl, rfl⟩⟩ := Machine.extend_lane_cases ht'
  · exact hold lane ht₀ back hops
  · rcases split_of_extended hops with ⟨back', hops'⟩ | ⟨rfl, rfl⟩
    · exact hold lane₀ ht₀ back' hops'
    · -- the new launch
      obtain rfl : v = w := Option.some.inj (hj.symm.trans hj')
      exact h.cleared_of_parent job' ht₀ (hparents u huw)

/-- **Work may be issued** for a vertex whose parents are finished, or are running with a pending
event that the stream records or that is waited for. -/
theorem issue (h : Timeline d m tickets) {v : VertexId} {el : Element} {t : StreamId}
    {waits : List EventId} {job : Job} (hv : d.element? v = some el)
    (hs : el.isStarted = false) (ht : el.stream = some t) (hc : m.streams.contains t = true)
    (hj : job.vertex = some v) (hw : ∀ e ∈ waits, e < m.nextEvent)
    (hparents : ∀ u, d.HasEdge u v → d.IsFinished u ∨ ∃ x e, d.element? u = some x ∧
      x.event = some e ∧ m.events.get? e = some .pending ∧ (x.stream = some t ∨ e ∈ waits)) :
    Timeline (d.modifyElement v fun e => e.start m.nextEvent) (m.withWork t waits job)
      (tickets ++ [⟨v, t, m.nextEvent⟩]) := by
  have hnoticket := h.vertex_ne_of_unstarted hv hs
  have hself : (d.modifyElement v fun e => e.start m.nextEvent).element? v =
      some (el.start m.nextEvent) := by simp [hv]
  have hother : ∀ w, w ≠ v →
      (d.modifyElement v fun e => e.start m.nextEvent).element? w = d.element? w :=
    fun w hw => by rw [Dag.element?_modifyElement, if_neg (Ne.symm hw)]
  have hedge : (d.modifyElement v fun e => e.start m.nextEvent).HasEdge = d.HasEdge :=
    Dag.hasEdge_congr (by simp)
  have hfin : ∀ w, (d.modifyElement v fun e => e.start m.nextEvent).IsFinished w ↔
      d.IsFinished w := by
    intro w
    unfold Dag.IsFinished
    by_cases hw : w = v
    · have hne : el.state ≠ .finished := fun hf => by
        simp [Element.isStarted, hf, Lifecycle.isStarted] at hs
      subst hw
      simp [hv, Element.start, hne]
    · rw [hother w hw]
  have hself_event : (m.withWork t waits job).events.get? m.nextEvent = some .pending := by
    rw [Machine.events_withWork, if_pos rfl]
  have hnew : ⟨v, t, m.nextEvent⟩ ∈ tickets ++ [⟨v, t, m.nextEvent⟩] := by simp
  exact {
    ledger := h.ledger.withWork hc hw hnoticket hj
    started := fun k hk => by
      rcases List.mem_append.mp hk with hk | hk
      · obtain ⟨x, hx, hst⟩ := h.started k hk
        exact ⟨x, (hother _ (hnoticket k hk)).trans hx, hst⟩
      · rw [List.mem_singleton.mp hk]
        exact ⟨_, hself, rfl⟩
    ticket := fun w x e hx he => by
      rcases Dag.element?_modifyElement_inv hv hx with ⟨rfl, rfl⟩ | ⟨-, hx⟩
      · obtain rfl : m.nextEvent = e := Option.some.inj he
        exact ⟨t, ht, hnew⟩
      · obtain ⟨t', hs', hk⟩ := h.ticket w x e hx he
        exact ⟨t', hs', List.mem_append_left _ hk⟩
    event_of_running := fun w x hx hr => by
      rcases Dag.element?_modifyElement_inv hv hx with ⟨rfl, rfl⟩ | ⟨-, hx⟩
      · exact ⟨m.nextEvent, rfl, Table.contains_of_get? hself_event⟩
      · obtain ⟨e, he, hce⟩ := h.event_of_running w x hx hr
        obtain ⟨st, hst⟩ := Table.contains_iff.mp hce
        exact ⟨e, he, Table.contains_of_get? (h.events_withWork t waits job hst)⟩
    running_of_pending := fun k hk hp => by
      rcases List.mem_append.mp hk with hk | hk
      · have hne : m.nextEvent ≠ k.event := Nat.ne_of_gt (h.ledger.event_lt k hk)
        obtain ⟨x, hx, hr⟩ := h.running_of_pending k hk
          (by simpa [Machine.withWork, hne] using hp)
        exact ⟨x, (hother _ (hnoticket k hk)).trans hx, hr⟩
      · rw [List.mem_singleton.mp hk]
        exact ⟨_, hself, rfl⟩
    ran_of_finished := fun w hw => by
      obtain ⟨k, hk, hkw, hran⟩ := h.ran_of_finished w ((hfin w).mp hw)
      exact ⟨k, List.mem_append_left _ hk, hkw, hran⟩
    ran_of_failed := fun k hk x hx hf => by
      rcases List.mem_append.mp hk with hk | hk
      · exact h.ran_of_failed k hk x ((hother _ (hnoticket k hk)).symm.trans hx) hf
      · rw [List.mem_singleton.mp hk] at hx
        obtain rfl : el.start m.nextEvent = x := Option.some.inj (hself.symm.trans hx)
        simp [Element.start] at hf
    finished_of_child := fun u w huw hw => by
      rw [hedge] at huw
      exact (hfin u).mpr (h.finished_of_child u w huw ((hfin w).mp hw))
    cleared := fun t' lane ht' front job' back hops u w hj' huw => by
      rw [hedge] at huw
      obtain ⟨k, hk, hku, hcleared⟩ := h.cleared_withWork hj hparents ht' hops hj' huw
      exact ⟨k, List.mem_append_left _ hk, hku, hcleared⟩
    ordered := fun before r after heq job' u w hop hj' huw => by
      rw [hedge] at huw
      obtain ⟨k, hk, hku, hran⟩ := h.ordered before r after heq job' u w hop hj' huw
      exact ⟨k, List.mem_append_left _ hk, hku, hran⟩ }

/-- The work of an ancestor has run before the launch of a vertex. -/
theorem ran_of_path (h : Timeline d m tickets) {u v : VertexId} (p : d.Path u v)
    {before after : List Retired} {r : Retired} {job : Job}
    (hh : m.history = before ++ r :: after) (hr : r.op = .launch job)
    (hv : job.vertex = some v) : ∃ k ∈ tickets, k.vertex = u ∧ ∃ f, k.Ran f before := by
  induction p using Relation.TransGen.head_induction_on with
  | single huv =>
      obtain ⟨k, hk, hku, f, hran, -⟩ := h.ordered before r after hh job _ v hr hv huv
      exact ⟨k, hk, hku, f, hran⟩
  | @head u w huw _ ih =>
      -- the launch of the next vertex on the path is in `before`, and what it waited for came
      -- before that
      obtain ⟨k, hk, rfl, f, hran⟩ := ih
      obtain ⟨job', hmem, hj'⟩ := hran.launched
      obtain ⟨b, a, rfl⟩ := List.append_of_mem hmem
      obtain ⟨l, hl, hlu, g, hran', -⟩ :=
        h.ordered b ⟨k.stream, .launch job', f⟩ (a ++ r :: after) (by simp [hh]) job' u k.vertex rfl
          hj' huw
      exact ⟨l, hl, hlu, g, hran'.append _⟩

end Timeline

end LaunchGraph
