import LaunchGraph.Proofs.Orderly
import LaunchGraph.Proofs.Stage

/-!
# The machine — what becomes of the work handed over

Each launch is queued together with the recording of an event of its own, and a ticket says which
vertex, stream and event belong together.  `Machine.Ledger` ties the tickets to the device: a
launch stands on its stream right before its recording until it runs, an event is pending exactly
as long as its recording is queued, and an event that is complete or failed tells how its launch
ran (`Ticket.Ran`).

Every change the scheduler makes to the device keeps the ledger, and so does the device when it
advances (`Ledger.advance`).  A device with a ledger is orderly (`Ledger.orderly`) and has run no
launch twice.
-/

namespace LaunchGraph

namespace Ticket

/-- The launch of the ticket is the last operation its stream has run; `f` says whether it
failed. -/
def Launched (k : Ticket) (f : Bool) (h : List Retired) : Prop :=
  ∃ before after job, h = before ++ ⟨k.stream, .launch job, f⟩ :: after ∧
    job.vertex = some k.vertex ∧ ∀ r ∈ after, r.stream ≠ k.stream

/-- The launch of the ticket has run, and the next operation on its stream was the recording of
its event; `f` says whether they failed. -/
def Ran (k : Ticket) (f : Bool) (h : List Retired) : Prop :=
  ∃ before after, h = before ++ ⟨k.stream, .record k.event, f⟩ :: after ∧ k.Launched f before

variable {k : Ticket} {f : Bool} {h : List Retired}

theorem launched_append (k : Ticket) (f : Bool) (h : List Retired) {job : Job}
    (hj : job.vertex = some k.vertex) : k.Launched f (h ++ [⟨k.stream, .launch job, f⟩]) :=
  ⟨h, [], job, rfl, hj, by simp⟩

theorem Launched.append (hk : k.Launched f h) {r : Retired} (hr : r.stream ≠ k.stream) :
    k.Launched f (h ++ [r]) := by
  obtain ⟨before, after, job, rfl, hj, hafter⟩ := hk
  refine ⟨before, after ++ [r], job, by simp, hj, ?_⟩
  intro r' hr'
  rcases List.mem_append.mp hr' with hr' | hr'
  · exact hafter r' hr'
  · rwa [List.mem_singleton.mp hr']

theorem Launched.ran (hk : k.Launched f h) :
    k.Ran f (h ++ [⟨k.stream, .record k.event, f⟩]) :=
  ⟨h, [], rfl, hk⟩

theorem Ran.append (hk : k.Ran f h) (l : List Retired) : k.Ran f (h ++ l) := by
  obtain ⟨before, after, rfl, hl⟩ := hk
  exact ⟨before, after ++ l, by simp, hl⟩

theorem Ran.recorded (hk : k.Ran f h) : ∃ r ∈ h, r.op = .record k.event := by
  obtain ⟨before, after, rfl, -⟩ := hk
  exact ⟨⟨k.stream, .record k.event, f⟩, by simp, rfl⟩

theorem Ran.launched (hk : k.Ran f h) :
    ∃ job, ⟨k.stream, .launch job, f⟩ ∈ h ∧ job.vertex = some k.vertex := by
  obtain ⟨before, after, rfl, b, a, job, rfl, hj, -⟩ := hk
  exact ⟨job, by simp, hj⟩

end Ticket

namespace Machine

/-- What is queued on stream `t`: waits, and launches that are each followed by the recording of
their ticket. -/
inductive Blocks (tickets : List Ticket) (t : StreamId) : List Op → Prop where
  | nil : Blocks tickets t []
  | wait {e : EventId} {rest : List Op} (h : Blocks tickets t rest) :
      Blocks tickets t (.wait e :: rest)
  | work {k : Ticket} {job : Job} {rest : List Op} (hk : k ∈ tickets) (ht : k.stream = t)
      (hj : job.vertex = some k.vertex) (h : Blocks tickets t rest) :
      Blocks tickets t (.launch job :: .record k.event :: rest)

/-- A stream is between two launches, or a launch has run and its recording comes next. -/
inductive Shape (h : List Retired) (tickets : List Ticket) (t : StreamId) : Lane → Prop where
  | whole {ops : List Op} {p : Bool} (hb : Blocks tickets t ops) : Shape h tickets t ⟨ops, p⟩
  | cut {k : Ticket} {rest : List Op} {p : Bool} (hk : k ∈ tickets) (ht : k.stream = t)
      (hl : k.Launched p h) (hb : Blocks tickets t rest) :
      Shape h tickets t ⟨.record k.event :: rest, p⟩

namespace Blocks

variable {tickets : List Ticket} {t : StreamId} {ops : List Op}

theorem append (h : Blocks tickets t ops) {more : List Op} (h' : Blocks tickets t more) :
    Blocks tickets t (ops ++ more) := by
  induction h with
  | nil => exact h'
  | wait _ ih => exact .wait ih
  | work hk ht hj _ ih => exact .work hk ht hj ih

theorem mono (h : Blocks tickets t ops) {tickets' : List Ticket}
    (hsub : ∀ k ∈ tickets, k ∈ tickets') : Blocks tickets' t ops := by
  induction h with
  | nil => exact .nil
  | wait _ ih => exact .wait ih
  | work hk ht hj _ ih => exact .work (hsub _ hk) ht hj ih

theorem waits (tickets : List Ticket) (t : StreamId) (waits : List EventId) :
    Blocks tickets t (waits.map .wait) := by
  induction waits with
  | nil => exact .nil
  | cons e rest ih => exact .wait ih

theorem ticket_of_record (h : Blocks tickets t ops) {e : EventId} (he : .record e ∈ ops) :
    ∃ k ∈ tickets, k.stream = t ∧ k.event = e := by
  induction h with
  | nil => cases he
  | wait _ ih => exact ih (by simpa using he)
  | work hk ht _ _ ih =>
      simp only [List.mem_cons, reduceCtorEq, Op.record.injEq, false_or] at he
      rcases he with rfl | he
      · exact ⟨_, hk, ht, rfl⟩
      · exact ih he

/-- The recording of a launch that is queued is queued behind it. -/
theorem ticket_of_launch (h : Blocks tickets t ops) {job : Job} (hj : .launch job ∈ ops) :
    ∃ k ∈ tickets, k.stream = t ∧ job.vertex = some k.vertex ∧ .record k.event ∈ ops := by
  induction h with
  | nil => cases hj
  | wait _ ih =>
      obtain ⟨k, hk, ht, hv, hr⟩ := ih (by simpa using hj)
      exact ⟨k, hk, ht, hv, List.mem_cons_of_mem _ hr⟩
  | work hk ht hv _ ih =>
      simp only [List.mem_cons, Op.launch.injEq, reduceCtorEq, false_or] at hj
      rcases hj with rfl | hj
      · exact ⟨_, hk, ht, hv, by simp⟩
      · obtain ⟨k', hk', ht', hv', hr'⟩ := ih hj
        exact ⟨k', hk', ht', hv', by simp [hr']⟩

end Blocks

namespace Shape

variable {h : List Retired} {tickets : List Ticket} {t : StreamId} {lane : Lane}

theorem extend (hl : Shape h tickets t lane) {more : List Op} (hm : Blocks tickets t more) :
    Shape h tickets t { lane with ops := lane.ops ++ more } := by
  cases hl with
  | whole hb => exact .whole (hb.append hm)
  | cut hk ht hl hb => exact .cut hk ht hl (hb.append hm)

theorem mono (hl : Shape h tickets t lane) {tickets' : List Ticket}
    (hsub : ∀ k ∈ tickets, k ∈ tickets') : Shape h tickets' t lane := by
  cases hl with
  | whole hb => exact .whole (hb.mono hsub)
  | cut hk ht hl hb => exact .cut (hsub _ hk) ht hl (hb.mono hsub)

theorem append (hl : Shape h tickets t lane) {r : Retired} (hr : r.stream ≠ t) :
    Shape (h ++ [r]) tickets t lane := by
  cases hl with
  | whole hb => exact .whole hb
  | cut hk ht hl hb => exact .cut hk ht (hl.append (ht ▸ hr)) hb

theorem ticket_of_record (hl : Shape h tickets t lane) {e : EventId}
    (he : .record e ∈ lane.ops) : ∃ k ∈ tickets, k.stream = t ∧ k.event = e := by
  cases hl with
  | whole hb => exact hb.ticket_of_record he
  | cut hk ht _ hb =>
      simp only [List.mem_cons, Op.record.injEq] at he
      rcases he with rfl | he
      · exact ⟨_, hk, ht, rfl⟩
      · exact hb.ticket_of_record he

theorem ticket_of_launch (hl : Shape h tickets t lane) {job : Job}
    (hj : .launch job ∈ lane.ops) :
    ∃ k ∈ tickets, k.stream = t ∧ job.vertex = some k.vertex ∧ .record k.event ∈ lane.ops := by
  cases hl with
  | whole hb => exact hb.ticket_of_launch hj
  | cut _ _ _ hb =>
      obtain ⟨k, hk, ht, hv, hr⟩ := hb.ticket_of_launch (by simpa using hj)
      exact ⟨k, hk, ht, hv, List.mem_cons_of_mem _ hr⟩

/-- A recording that comes next belongs to the launch that has just run. -/
theorem front {e : EventId} {rest : List Op} {p : Bool}
    (hl : Shape h tickets t ⟨.record e :: rest, p⟩) :
    ∃ k ∈ tickets, k.event = e ∧ k.stream = t ∧ k.Launched p h ∧ Blocks tickets t rest := by
  cases hl with
  | whole hb => cases hb
  | cut hk ht hl hb => exact ⟨_, hk, rfl, ht, hl, hb⟩

/-- Running the first operation of a stream leads from one shape to the next. -/
theorem retire {m : Machine} {op : Op} {rest : List Op} {p f : Bool}
    (hl : Shape h tickets t ⟨op :: rest, p⟩) (ho : m.outcome? p op = some f) :
    Shape (h ++ [⟨t, op, f⟩]) tickets t ⟨rest, f && !rest.isEmpty⟩ := by
  cases hl with
  | whole hb =>
      cases hb with
      | wait hb => exact .whole hb
      | work hk ht hj hb =>
          subst ht
          simp only [List.isEmpty_cons, Bool.not_false, Bool.and_true]
          exact .cut hk rfl (Ticket.launched_append _ _ _ hj) hb
  | cut _ _ _ hb => exact .whole hb

end Shape

/-- The vertices whose launches have run, in order. -/
def launchedVertices (h : List Retired) : List VertexId :=
  h.filterMap fun r =>
    match r.op with
    | .launch job => job.vertex
    | _ => none

theorem mem_launchedVertices {h : List Retired} {v : VertexId} :
    v ∈ launchedVertices h ↔ ∃ r ∈ h, ∃ job, r.op = .launch job ∧ job.vertex = some v := by
  simp only [launchedVertices, List.mem_filterMap]
  constructor
  · rintro ⟨r, hr, hv⟩
    split at hv
    · next job hop => exact ⟨r, hr, job, hop, hv⟩
    · cases hv
  · rintro ⟨r, hr, job, hop, hv⟩
    exact ⟨r, hr, by simp [hop, hv]⟩

theorem launchedVertices_append (h l : List Retired) :
    launchedVertices (h ++ l) = launchedVertices h ++ launchedVertices l :=
  List.filterMap_append

theorem mem_launchedVertices_of_ran {h : List Retired} {k : Ticket} {f : Bool} (hk : k.Ran f h) :
    k.vertex ∈ launchedVertices h := by
  obtain ⟨job, hmem, hj⟩ := hk.launched
  exact mem_launchedVertices.mpr ⟨_, hmem, job, rfl, hj⟩

/-- Where a vertex stands among those launched, its launch stands in the history. -/
theorem launchedVertices_split {h : List Retired} {v : VertexId} {earlier later : List VertexId}
    (hv : launchedVertices h = earlier ++ v :: later) :
    ∃ before r after job, h = before ++ r :: after ∧ r.op = .launch job ∧ job.vertex = some v ∧
      launchedVertices before = earlier := by
  obtain ⟨l, l', rfl, rfl, hl'⟩ := List.filterMap_eq_append_iff.mp hv
  obtain ⟨skipped, r, after, rfl, hskipped, hr, -⟩ := List.filterMap_eq_cons_iff.mp hl'
  have hnone : launchedVertices skipped = [] := List.filterMap_eq_nil_iff.mpr hskipped
  split at hr
  · next job hop =>
    refine ⟨l ++ skipped, r, after, job, by simp, hop, hr, ?_⟩
    rw [launchedVertices_append, hnone, List.append_nil]
    rfl
  · cases hr

/-- Where no vertex is launched twice, its launch is one entry of the history. -/
theorem eq_of_launchedVertices {h : List Retired} (hn : (launchedVertices h).Nodup)
    {r r' : Retired} (hr : r ∈ h) (hr' : r' ∈ h) {job job' : Job} {v : VertexId}
    (hop : r.op = .launch job) (hj : job.vertex = some v) (hop' : r'.op = .launch job')
    (hj' : job'.vertex = some v) : r = r' := by
  induction h with
  | nil => cases hr
  | cons a rest ih =>
      rw [← List.singleton_append, launchedVertices_append] at hn
      obtain ⟨-, hrest, hdisjoint⟩ := List.nodup_append.mp hn
      have hne : ∀ b ∈ rest, ∀ job₁ job₂, a.op = .launch job₁ → job₁.vertex = some v →
          b.op = .launch job₂ → job₂.vertex = some v → False :=
        fun b hb job₁ job₂ h₁ hv₁ h₂ hv₂ => hdisjoint v
          (mem_launchedVertices.mpr ⟨a, by simp, job₁, h₁, hv₁⟩) v
          (mem_launchedVertices.mpr ⟨b, hb, job₂, h₂, hv₂⟩) rfl
      rcases List.mem_cons.mp hr with rfl | h₁ <;> rcases List.mem_cons.mp hr' with rfl | h₂
      · rfl
      · exact (hne r' h₂ job job' hop hj hop' hj').elim
      · exact (hne r h₁ job' job hop' hj' hop hj).elim
      · exact ih hrest h₁ h₂

/-- The tickets account for the streams, the events and the history of the device. -/
structure Ledger (m : Machine) (tickets : List Ticket) : Prop where
  shape : ∀ t lane, m.streams.get? t = some lane → Shape m.history tickets t lane
  /-- On each stream, what is waited for or recorded is earlier than what is recorded behind. -/
  increasing : ∀ t lane, m.streams.get? t = some lane →
    lane.ops.Pairwise fun a b => ∀ d e, a = .wait d ∨ a = .record d → b = .record e → d < e
  wait_lt : ∀ t lane, m.streams.get? t = some lane → ∀ e, .wait e ∈ lane.ops → e < m.nextEvent
  pending_of_record : ∀ t lane, m.streams.get? t = some lane → ∀ e, .record e ∈ lane.ops →
    m.events.get? e = some .pending
  record_of_pending : ∀ k ∈ tickets, m.events.get? k.event = some .pending →
    ∃ lane, m.streams.get? k.stream = some lane ∧ .record k.event ∈ lane.ops
  not_recorded : ∀ k ∈ tickets, m.events.get? k.event = some .pending →
    ∀ r ∈ m.history, r.op ≠ .record k.event
  ran : ∀ k ∈ tickets, ∀ f : Bool,
    m.events.get? k.event = some (if f then .failed else .complete) → k.Ran f m.history
  ticket_of_event : ∀ e, m.events.contains e = true → ∃ k ∈ tickets, k.event = e
  event_lt : ∀ k ∈ tickets, k.event < m.nextEvent
  recorded_lt : ∀ r ∈ m.history, ∀ e, r.op = .record e → e < m.nextEvent
  event_inj : ∀ k ∈ tickets, ∀ l ∈ tickets, k.event = l.event → k = l
  vertex_inj : ∀ k ∈ tickets, ∀ l ∈ tickets, k.vertex = l.vertex → k = l
  /-- A launch that has run belongs to a ticket, and its recording has run or comes next. -/
  retired : ∀ r ∈ m.history, ∀ job, r.op = .launch job →
    ∃ k ∈ tickets, job.vertex = some k.vertex ∧ ((∃ f, k.Ran f m.history) ∨
      ∃ rest p, m.streams.get? k.stream = some ⟨.record k.event :: rest, p⟩)
  launched_nodup : (launchedVertices m.history).Nodup

namespace Ledger

variable {m : Machine} {tickets : List Ticket}

theorem empty : Ledger {} [] := by
  constructor <;> simp [launchedVertices]

theorem orderly (h : m.Ledger tickets) : m.Orderly where
  wait_lt t lane ht := (h.increasing t lane ht).imp fun hab d e ha hb => hab d e (.inl ha) hb
  queued_of_pending e he := by
    obtain ⟨k, hk, rfl⟩ := h.ticket_of_event e (Table.contains_of_get? he)
    obtain ⟨lane, ht, hr⟩ := h.record_of_pending k hk he
    exact ⟨k.stream, lane, ht, hr⟩

/-- Whatever was launched has a ticket. -/
theorem ticket_of_launched (h : m.Ledger tickets) {v : VertexId}
    (hv : v ∈ launchedVertices m.history) : ∃ k ∈ tickets, k.vertex = v := by
  obtain ⟨r, hr, job, hop, hj⟩ := mem_launchedVertices.mp hv
  obtain ⟨k, hk, hjk, -⟩ := h.retired r hr job hop
  exact ⟨k, hk, Option.some.inj (hjk.symm.trans hj)⟩

/-- Where the recording of a ticket comes next on a stream, its launch has just run there. -/
theorem launched_of_front (h : m.Ledger tickets) {k : Ticket} (hk : k ∈ tickets) {t : StreamId}
    {rest : List Op} {p : Bool} (ht : m.streams.get? t = some ⟨.record k.event :: rest, p⟩) :
    k.stream = t ∧ k.Launched p m.history := by
  obtain ⟨l, hl, he, hs, hlaunched, -⟩ := (h.shape t _ ht).front
  obtain rfl := h.event_inj l hl k hk he
  exact ⟨hs, hlaunched⟩

/-- Where a launch comes next on a stream, the recording of its ticket follows. -/
theorem ticket_of_front (h : m.Ledger tickets) {job : Job} {t : StreamId} {rest : List Op}
    {p : Bool} (ht : m.streams.get? t = some ⟨.launch job :: rest, p⟩) :
    ∃ k ∈ tickets, k.stream = t ∧ job.vertex = some k.vertex ∧
      ∃ rest', rest = .record k.event :: rest' := by
  cases h.shape t _ ht with
  | whole hb =>
      cases hb with
      | work hk hs hj _ => exact ⟨_, hk, hs, hj, _, rfl⟩

/-- A vertex whose launch is queued has not been launched before. -/
theorem not_launched_of_queued (h : m.Ledger tickets) {job : Job} {v : VertexId}
    (hv : job.vertex = some v) {t : StreamId} {lane : Lane} (ht : m.streams.get? t = some lane)
    (hmem : .launch job ∈ lane.ops) : v ∉ launchedVertices m.history := by
  intro hlaunched
  obtain ⟨k, hk, hkt, hj, hrecord⟩ := (h.shape t lane ht).ticket_of_launch hmem
  obtain ⟨r, hr, job', hop, hj'⟩ := mem_launchedVertices.mp hlaunched
  obtain ⟨l, hl, hjl, hran⟩ := h.retired r hr job' hop
  have hsame : ∀ n ∈ tickets, job.vertex = some n.vertex → l = n := fun n hn hjn => by
    refine h.vertex_inj l hl n hn ?_
    rw [hv] at hjn
    rw [hj'] at hjl
    exact (Option.some.inj hjl).symm.trans (Option.some.inj hjn)
  obtain rfl := hsame k hk hj
  rcases hran with ⟨f, hran⟩ | ⟨rest, p, hfront⟩
  · obtain ⟨r, hr, hop⟩ := hran.recorded
    exact h.not_recorded l hk (h.pending_of_record t lane ht _ hrecord) r hr hop
  · -- the recording of the launch that has just run would be queued twice
    obtain rfl : lane = ⟨.record l.event :: rest, p⟩ := by
      rw [hkt, ht] at hfront
      exact Option.some.inj hfront
    obtain ⟨-, -, -, -, -, hb⟩ := (h.shape t _ ht).front
    obtain ⟨n, hn, -, hjn, hr'⟩ := hb.ticket_of_launch (by simpa using hmem)
    obtain rfl := hsame n hn hjn
    exact Nat.lt_irrefl _
      ((List.pairwise_cons.mp (h.increasing t _ ht)).1 _ hr' _ _ (.inr rfl) rfl)

/-- The launch of a ticket has one outcome only. -/
theorem ran_unique (h : m.Ledger tickets) {k : Ticket} {f g : Bool} (hf : k.Ran f m.history)
    (hg : k.Ran g m.history) : f = g := by
  obtain ⟨job, hr, hj⟩ := hf.launched
  obtain ⟨job', hr', hj'⟩ := hg.launched
  exact congrArg Retired.failed (eq_of_launchedVertices h.launched_nodup hr hr' rfl hj rfl hj')

/-! ### Progress keeps the ledger -/

/-- The recording that comes next on a stream says how its launch ran. -/
theorem ran_of_record (h : m.Ledger tickets) {k : Ticket} (hk : k ∈ tickets) {t : StreamId}
    {rest : List Op} {p f : Bool} (ht : m.streams.get? t = some ⟨.record k.event :: rest, p⟩)
    (ho : m.outcome? p (.record k.event) = some f) :
    k.Ran f (m.history ++ [⟨t, .record k.event, f⟩]) := by
  obtain ⟨rfl, hl⟩ := h.launched_of_front hk ht
  obtain rfl : p = f := by simpa [outcome?] using ho
  exact hl.ran

/-- A recording is queued once only: when it has run, it is not queued any more. -/
theorem record_not_mem_retire (h : m.Ledger tickets) {s t : StreamId} {e : EventId}
    {rest : List Op} {p f : Bool} (hs : m.streams.get? s = some ⟨.record e :: rest, p⟩)
    {lane : Lane} (ht : (m.retire s (.record e) rest f).streams.get? t = some lane) :
    .record e ∉ lane.ops := by
  intro hmem
  rcases retire_lane_cases hs ht with ⟨rfl, rfl⟩ | ⟨hne, ht⟩
  · have := (List.pairwise_cons.mp (h.increasing t _ hs)).1 _ hmem e e (.inr rfl) rfl
    exact Nat.lt_irrefl _ this
  · obtain ⟨k, hk, hkt, hke⟩ := (h.shape t lane ht).ticket_of_record hmem
    obtain ⟨l, hl, hle, hls, -⟩ := (h.shape s _ hs).front
    obtain rfl := h.event_inj l hl k hk (hle.trans hke.symm)
    exact hne (hkt.symm.trans hls)

/-- When an operation has run, each launch that has run belongs to a ticket whose recording has
run or comes next. -/
theorem retired_retire (h : m.Ledger tickets) {s : StreamId} {op : Op} {rest : List Op}
    {p f : Bool} (hs : m.streams.get? s = some ⟨op :: rest, p⟩)
    (ho : m.outcome? p op = some f) {r : Retired} (hr : r ∈ m.history ++ [⟨s, op, f⟩]) {job : Job}
    (hop : r.op = .launch job) :
    ∃ k ∈ tickets, job.vertex = some k.vertex ∧ ((∃ g, k.Ran g (m.history ++ [⟨s, op, f⟩])) ∨
      ∃ rest' p', (m.retire s op rest f).streams.get? k.stream =
        some ⟨.record k.event :: rest', p'⟩) := by
  rcases List.mem_append.mp hr with hr | hr
  · obtain ⟨k, hk, hj, hran | ⟨rest', p', hfront⟩⟩ := h.retired r hr job hop
    · obtain ⟨g, hran⟩ := hran
      exact ⟨k, hk, hj, .inl ⟨g, hran.append _⟩⟩
    · by_cases heq : s = k.stream
      · subst heq
        obtain ⟨⟨rfl, rfl⟩, rfl⟩ : (op = .record k.event ∧ rest = rest') ∧ p = p' := by
          simpa [hs] using hfront
        exact ⟨k, hk, hj, .inl ⟨f, h.ran_of_record hk hs ho⟩⟩
      · exact ⟨k, hk, hj, .inr ⟨rest', p', by simp [heq, hfront]⟩⟩
  · -- a launch has just run, and its recording is behind it on the stream
    rw [List.mem_singleton.mp hr] at hop
    obtain rfl : op = .launch job := hop
    obtain ⟨k, hk, rfl, hj, rest', rfl⟩ := h.ticket_of_front hs
    exact ⟨k, hk, hj, .inr ⟨rest', f, by simp [hs]⟩⟩

/-- What comes next on a stream is not a second launch of a vertex. -/
theorem launched_nodup_retire (h : m.Ledger tickets) {s : StreamId} {op : Op} {rest : List Op}
    {p : Bool} (hs : m.streams.get? s = some ⟨op :: rest, p⟩) (f : Bool) :
    (launchedVertices (m.history ++ [⟨s, op, f⟩])).Nodup := by
  rw [launchedVertices_append]
  refine List.nodup_append.mpr ⟨h.launched_nodup, ?_, ?_⟩
  · cases op with
    | wait e => simp [launchedVertices]
    | record e => simp [launchedVertices]
    | launch job => cases hj : job.vertex <;> simp [launchedVertices, hj]
  · rintro v hv w hw rfl
    obtain ⟨r, hr, job, hop, hj⟩ := mem_launchedVertices.mp hw
    rw [List.mem_singleton.mp hr] at hop
    obtain rfl : op = .launch job := hop
    exact h.not_launched_of_queued hj hs (by simp) hv

/-- **The ledger is kept when the device advances.** -/
theorem advance (h : m.Ledger tickets) {s : StreamId} {m' : Machine}
    (ha : m.advance s = some m') : m'.Ledger tickets := by
  obtain ⟨op, rest, p, f, hs, ho, rfl⟩ := advance_cases ha
  have hhistory : (m.retire s op rest f).history = m.history ++ [⟨s, op, f⟩] := rfl
  constructor
  case shape =>
    intro t lane ht
    rw [hhistory]
    rcases retire_lane_cases hs ht with ⟨rfl, rfl⟩ | ⟨hne, ht⟩
    · exact (h.shape t _ hs).retire ho
    · exact (h.shape t lane ht).append (Ne.symm hne)
  case increasing =>
    intro t lane ht
    obtain ⟨lane₀, ht₀, hsub⟩ := retire_lane_sublist hs ht
    exact (h.increasing t lane₀ ht₀).sublist hsub
  case wait_lt =>
    intro t lane ht e he
    obtain ⟨lane₀, ht₀, hsub⟩ := retire_lane_sublist hs ht
    exact h.wait_lt t lane₀ ht₀ e (hsub.mem he)
  case pending_of_record =>
    intro t lane ht e he
    obtain ⟨lane₀, ht₀, hsub⟩ := retire_lane_sublist hs ht
    have hp := h.pending_of_record t lane₀ ht₀ e (hsub.mem he)
    rw [events_retire, if_neg]
    · exact hp
    · rintro rfl
      exact h.record_not_mem_retire hs ht he
  case record_of_pending =>
    intro k hk he
    obtain ⟨hop, he⟩ := retire_pending he
    obtain ⟨lane, ht, hmem⟩ := h.record_of_pending k hk he
    by_cases heq : s = k.stream
    · subst heq
      obtain rfl : ⟨op :: rest, p⟩ = lane := by simpa [hs] using ht
      refine ⟨⟨rest, f && !rest.isEmpty⟩, by simp [hs], ?_⟩
      exact (List.mem_cons.mp hmem).resolve_left fun heq => hop heq.symm
    · exact ⟨lane, by simp [heq, ht], hmem⟩
  case not_recorded =>
    intro k hk he r hr
    obtain ⟨hop, he⟩ := retire_pending he
    rw [hhistory] at hr
    rcases List.mem_append.mp hr with hr | hr
    · exact h.not_recorded k hk he r hr
    · rwa [List.mem_singleton.mp hr]
  case ran =>
    intro k hk g he
    rw [hhistory]
    rcases retire_event_cases he with ⟨rfl, hst⟩ | ⟨-, he⟩
    · obtain rfl : g = f := by cases g <;> cases f <;> simp_all
      exact h.ran_of_record hk hs ho
    · exact (h.ran k hk g he).append _
  case ticket_of_event =>
    intro e he
    obtain ⟨st, he⟩ := Table.contains_iff.mp he
    rcases retire_event_cases he with ⟨rfl, -⟩ | ⟨-, he⟩
    · obtain ⟨k, hk, hke, -⟩ := (h.shape s _ hs).front
      exact ⟨k, hk, hke⟩
    · exact h.ticket_of_event e (Table.contains_of_get? he)
  case event_lt => exact h.event_lt
  case recorded_lt =>
    intro r hr e hop
    rw [hhistory] at hr
    rcases List.mem_append.mp hr with hr | hr
    · exact h.recorded_lt r hr e hop
    · rw [List.mem_singleton.mp hr] at hop
      obtain rfl : op = .record e := hop
      obtain ⟨k, hk, rfl, -⟩ := (h.shape s _ hs).front
      exact h.event_lt k hk
  case event_inj => exact h.event_inj
  case vertex_inj => exact h.vertex_inj
  case retired =>
    intro r hr job hop
    exact h.retired_retire hs ho hr hop
  case launched_nodup => exact h.launched_nodup_retire hs f

/-- The device makes and forgets no events on its own. -/
theorem contains_advance (h : m.Ledger tickets) {s : StreamId} {m' : Machine}
    (ha : m.advance s = some m') (e : EventId) :
    m'.events.contains e = m.events.contains e := by
  obtain ⟨op, rest, p, f, hs, -, rfl⟩ := advance_cases ha
  rw [Table.contains, events_retire]
  split
  · next hop =>
    subst hop
    have := Table.contains_of_get? (h.pending_of_record s _ hs e (by simp))
    simp [this]
  · rfl

/-! ### What the scheduler does to the device keeps the ledger -/

theorem congr (h : m.Ledger tickets) {m' : Machine} (hw : m.SameWork m') :
    m'.Ledger tickets where
  shape := by simpa only [hw.streams, hw.history] using h.shape
  increasing := by simpa only [hw.streams] using h.increasing
  wait_lt := by simpa only [hw.streams, hw.nextEvent] using h.wait_lt
  pending_of_record := by simpa only [hw.streams, hw.events] using h.pending_of_record
  record_of_pending := by simpa only [hw.streams, hw.events] using h.record_of_pending
  not_recorded := by simpa only [hw.history, hw.events] using h.not_recorded
  ran := by simpa only [hw.history, hw.events] using h.ran
  ticket_of_event := by simpa only [hw.events] using h.ticket_of_event
  event_lt := by simpa only [hw.nextEvent] using h.event_lt
  recorded_lt := by simpa only [hw.nextEvent, hw.history] using h.recorded_lt
  event_inj := h.event_inj
  vertex_inj := h.vertex_inj
  retired := by simpa only [hw.streams, hw.history] using h.retired
  launched_nodup := by simpa only [hw.history] using h.launched_nodup

/-- More waits for known events may be queued. -/
theorem extend_waits (h : m.Ledger tickets) (s : StreamId) {waits : List EventId}
    (hw : ∀ e ∈ waits, e < m.nextEvent) : (m.extend s (waits.map .wait)).Ledger tickets where
  shape t lane ht := by
    obtain ⟨lane₀, ht₀, rfl | ⟨-, rfl⟩⟩ := extend_lane_cases ht
    · exact h.shape t lane ht₀
    · exact (h.shape t lane₀ ht₀).extend (.waits tickets t waits)
  increasing t lane ht := by
    obtain ⟨lane₀, ht₀, rfl | ⟨-, rfl⟩⟩ := extend_lane_cases ht
    · exact h.increasing t lane ht₀
    · refine List.pairwise_append.mpr ⟨h.increasing t lane₀ ht₀, ?_, ?_⟩
      · refine List.pairwise_map.mpr (List.pairwise_of_forall fun _ _ d e _ hb => ?_)
        cases hb
      · intro a _ b hb d e _ he
        obtain ⟨_, -, rfl⟩ := List.mem_map.mp hb
        cases he
  wait_lt t lane ht e he := by
    obtain ⟨lane₀, ht₀, rfl | ⟨-, rfl⟩⟩ := extend_lane_cases ht
    · exact h.wait_lt t lane ht₀ e he
    · rcases List.mem_append.mp he with he | he
      · exact h.wait_lt t lane₀ ht₀ e he
      · exact hw e (by simpa using he)
  pending_of_record t lane ht e he := by
    obtain ⟨lane₀, ht₀, rfl | ⟨-, rfl⟩⟩ := extend_lane_cases ht
    · exact h.pending_of_record t lane ht₀ e he
    · exact h.pending_of_record t lane₀ ht₀ e (by simpa using he)
  record_of_pending k hk he := by
    obtain ⟨lane, ht, hr⟩ := h.record_of_pending k hk he
    obtain ⟨more, ht'⟩ := extend_get? s (waits.map .wait) ht
    exact ⟨_, ht', List.mem_append_left _ hr⟩
  not_recorded := h.not_recorded
  ran := h.ran
  ticket_of_event := h.ticket_of_event
  event_lt := h.event_lt
  recorded_lt := h.recorded_lt
  event_inj := h.event_inj
  vertex_inj := h.vertex_inj
  retired r hr job hop := by
    obtain ⟨k, hk, hj, hran | ⟨rest, p, hfront⟩⟩ := h.retired r hr job hop
    · exact ⟨k, hk, hj, .inl hran⟩
    · obtain ⟨more, ht'⟩ := extend_get? s (waits.map .wait) hfront
      exact ⟨k, hk, hj, .inr ⟨rest ++ more, p, ht'⟩⟩
  launched_nodup := h.launched_nodup

/-- What is recorded is known. -/
theorem record_lt (h : m.Ledger tickets) {t : StreamId} {lane : Lane}
    (ht : m.streams.get? t = some lane) {e : EventId} (he : .record e ∈ lane.ops) :
    e < m.nextEvent := by
  obtain ⟨k, hk, -, rfl⟩ := (h.shape t lane ht).ticket_of_record he
  exact h.event_lt k hk

/-- A new ticket is told from the others by what tells them from each other. -/
theorem inj_append {β : Type} {f : Ticket → β} {k₀ : Ticket}
    (hf : ∀ k ∈ tickets, ∀ l ∈ tickets, f k = f l → k = l) (h₀ : ∀ k ∈ tickets, f k ≠ f k₀) :
    ∀ k ∈ tickets ++ [k₀], ∀ l ∈ tickets ++ [k₀], f k = f l → k = l := by
  simp only [List.mem_append, List.mem_singleton]
  rintro k (hk | rfl) l (hl | rfl) heq
  · exact hf k hk l hl heq
  · exact absurd heq (h₀ k hk)
  · exact absurd heq.symm (h₀ l hl)
  · rfl

theorem withWork_nil (h : m.Ledger tickets) {s : StreamId} (hs : m.streams.contains s = true)
    {v : VertexId} (hv : ∀ k ∈ tickets, k.vertex ≠ v) {job : Job} (hj : job.vertex = some v) :
    (m.withWork s [] job).Ledger (tickets ++ [⟨v, s, m.nextEvent⟩]) := by
  have hsub : ∀ k ∈ tickets, k ∈ tickets ++ [⟨v, s, m.nextEvent⟩] :=
    fun k hk => List.mem_append_left _ hk
  have hnew : ⟨v, s, m.nextEvent⟩ ∈ tickets ++ [⟨v, s, m.nextEvent⟩] := by simp
  have hcases : ∀ k ∈ tickets ++ [⟨v, s, m.nextEvent⟩], k ∈ tickets ∨ k = ⟨v, s, m.nextEvent⟩ :=
    fun k hk => by simpa using hk
  have hevents : ∀ e, e < m.nextEvent →
      (m.withWork s [] job).events.get? e = m.events.get? e := by
    intro e he
    rw [events_withWork, if_neg (Nat.ne_of_gt he)]
  have hself : (m.withWork s [] job).events.get? m.nextEvent = some .pending := by
    rw [events_withWork, if_pos rfl]
  constructor
  case shape =>
    intro t lane ht
    obtain ⟨lane₀, ht₀, rfl | ⟨rfl, rfl⟩⟩ := extend_lane_cases ht
    · exact (h.shape t lane ht₀).mono hsub
    · exact ((h.shape s lane₀ ht₀).mono hsub).extend (.work hnew rfl hj .nil)
  case increasing =>
    intro t lane ht
    obtain ⟨lane₀, ht₀, rfl | ⟨-, rfl⟩⟩ := extend_lane_cases ht
    · exact h.increasing t lane ht₀
    · refine List.pairwise_append.mpr ⟨h.increasing t lane₀ ht₀, by simp, ?_⟩
      intro a ha b hb d e hd he
      obtain rfl : e = m.nextEvent := by simpa [he] using hb
      rcases hd with rfl | rfl
      · exact h.wait_lt t lane₀ ht₀ d ha
      · exact h.record_lt ht₀ ha
  case wait_lt =>
    intro t lane ht e he
    obtain ⟨lane₀, ht₀, rfl | ⟨-, rfl⟩⟩ := extend_lane_cases ht
    · exact Nat.lt_succ_of_lt (h.wait_lt t lane ht₀ e he)
    · exact Nat.lt_succ_of_lt (h.wait_lt t lane₀ ht₀ e (by simpa using he))
  case pending_of_record =>
    intro t lane ht e he
    obtain ⟨lane₀, ht₀, hlane⟩ := extend_lane_cases ht
    have hold : .record e ∈ lane₀.ops ∨ e = m.nextEvent := by
      rcases hlane with rfl | ⟨-, rfl⟩
      · exact .inl he
      · simpa using he
    rcases hold with hold | rfl
    · rw [hevents e (h.record_lt ht₀ hold)]
      exact h.pending_of_record t lane₀ ht₀ e hold
    · exact hself
  case record_of_pending =>
    intro k hk he
    rcases hcases k hk with hk | rfl
    · rw [hevents _ (h.event_lt k hk)] at he
      obtain ⟨lane, ht, hr⟩ := h.record_of_pending k hk he
      obtain ⟨more, ht'⟩ := extend_get? s _ ht
      exact ⟨_, ht', List.mem_append_left _ hr⟩
    · obtain ⟨lane, ht⟩ := Table.contains_iff.mp hs
      exact ⟨_, extend_get?_self _ ht, by simp⟩
  case not_recorded =>
    intro k hk he r hr hop
    rcases hcases k hk with hk | rfl
    · rw [hevents _ (h.event_lt k hk)] at he
      exact h.not_recorded k hk he r hr hop
    · exact Nat.lt_irrefl _ (h.recorded_lt r hr _ hop)
  case ran =>
    intro k hk f he
    rcases hcases k hk with hk | rfl
    · rw [hevents _ (h.event_lt k hk)] at he
      exact h.ran k hk f he
    · rw [hself] at he
      cases f <;> cases he
  case ticket_of_event =>
    intro e he
    by_cases heq : e = m.nextEvent
    · exact ⟨_, hnew, heq.symm⟩
    · obtain ⟨k, hk, rfl⟩ := h.ticket_of_event e (by
        simpa [withWork, Ne.symm heq] using he)
      exact ⟨k, hsub k hk, rfl⟩
  case event_lt =>
    intro k hk
    rcases hcases k hk with hk | rfl
    · exact Nat.lt_succ_of_lt (h.event_lt k hk)
    · exact Nat.lt_succ_self _
  case recorded_lt => exact fun r hr e hop => Nat.lt_succ_of_lt (h.recorded_lt r hr e hop)
  case event_inj => exact inj_append h.event_inj fun k hk => Nat.ne_of_lt (h.event_lt k hk)
  case vertex_inj => exact inj_append h.vertex_inj hv
  case retired =>
    intro r hr job' hop
    obtain ⟨k, hk, hj', hran | ⟨rest, p, hfront⟩⟩ := h.retired r hr job' hop
    · exact ⟨k, hsub k hk, hj', .inl hran⟩
    · obtain ⟨more, ht'⟩ := extend_get? s _ hfront
      exact ⟨k, hsub k hk, hj', .inr ⟨rest ++ more, p, ht'⟩⟩
  case launched_nodup => exact h.launched_nodup

/-- Waits for known events, a launch and its recording may be queued, with a new ticket. -/
theorem withWork (h : m.Ledger tickets) {s : StreamId} (hs : m.streams.contains s = true)
    {waits : List EventId} (hw : ∀ e ∈ waits, e < m.nextEvent) {v : VertexId}
    (hv : ∀ k ∈ tickets, k.vertex ≠ v) {job : Job} (hj : job.vertex = some v) :
    (m.withWork s waits job).Ledger (tickets ++ [⟨v, s, m.nextEvent⟩]) := by
  rw [withWork_eq]
  exact (h.extend_waits s hw).withWork_nil (by simpa using hs) hv hj

/-- A stream may be made. -/
theorem addStream (h : m.Ledger tickets) {s : StreamId} (hs : m.streams.contains s = false)
    (n : StreamId) :
    Ledger { m with nextStream := n, streams := m.streams.insert s {} } tickets := by
  have hcases : ∀ t lane, (m.streams.insert s {}).get? t = some lane →
      lane = {} ∨ m.streams.get? t = some lane := by
    intro t lane ht
    rw [Table.get?_insert] at ht
    split at ht
    · exact .inl (Option.some.inj ht).symm
    · exact .inr ht
  have hkeep : ∀ t lane, m.streams.get? t = some lane →
      (m.streams.insert s {}).get? t = some lane := by
    intro t lane ht
    rw [Table.get?_insert, if_neg]
    · exact ht
    · rintro rfl
      rw [Table.contains_of_get? ht] at hs
      cases hs
  exact { h with
    shape := fun t lane ht => by
      rcases hcases t lane ht with rfl | ht
      · exact .whole .nil
      · exact h.shape t lane ht
    increasing := fun t lane ht => by
      rcases hcases t lane ht with rfl | ht
      · exact .nil
      · exact h.increasing t lane ht
    wait_lt := fun t lane ht e he => by
      rcases hcases t lane ht with rfl | ht
      · cases he
      · exact h.wait_lt t lane ht e he
    pending_of_record := fun t lane ht e he => by
      rcases hcases t lane ht with rfl | ht
      · cases he
      · exact h.pending_of_record t lane ht e he
    record_of_pending := fun k hk he => by
      obtain ⟨lane, ht, hr⟩ := h.record_of_pending k hk he
      exact ⟨lane, hkeep _ _ ht, hr⟩
    retired := fun r hr job hop => by
      obtain ⟨k, hk, hj, hran | ⟨rest, p, hfront⟩⟩ := h.retired r hr job hop
      · exact ⟨k, hk, hj, .inl hran⟩
      · exact ⟨k, hk, hj, .inr ⟨rest, p, hkeep _ _ hfront⟩⟩ }

/-- An event that is not pending may be forgotten. -/
theorem eraseEvent (h : m.Ledger tickets) {e : EventId}
    (he : m.events.get? e ≠ some .pending) :
    Ledger { m with events := m.events.erase e } tickets := by
  have hkeep : ∀ d st, (m.events.erase e).get? d = some st → m.events.get? d = some st := by
    intro d st hd
    rw [Table.get?_erase] at hd
    split at hd
    · cases hd
    · exact hd
  exact { h with
    pending_of_record := fun t lane ht d hd => by
      have hp := h.pending_of_record t lane ht d hd
      rw [Table.get?_erase, if_neg]
      · exact hp
      · rintro rfl
        exact he hp
    record_of_pending := fun k hk hp => h.record_of_pending k hk (hkeep _ _ hp)
    not_recorded := fun k hk hp => h.not_recorded k hk (hkeep _ _ hp)
    ran := fun k hk f hf => h.ran k hk f (hkeep _ _ hf)
    ticket_of_event := fun d hd => by
      obtain ⟨st, hd⟩ := Table.contains_iff.mp hd
      exact h.ticket_of_event d (Table.contains_of_get? (hkeep d st hd)) }

/-- All streams and events may be given back once no event is pending. -/
theorem clear (h : m.Ledger tickets) (hp : ∀ e, m.events.get? e ≠ some .pending) :
    Ledger { m with streams := .empty, events := .empty } tickets :=
  { h with
    shape := by simp
    increasing := by simp
    wait_lt := by simp
    pending_of_record := by simp
    record_of_pending := by simp
    not_recorded := by simp
    ran := by simp
    ticket_of_event := by simp
    retired := fun r hr job hop => by
      obtain ⟨k, hk, hj, hran | ⟨rest, p, hfront⟩⟩ := h.retired r hr job hop
      · exact ⟨k, hk, hj, .inl hran⟩
      · exact absurd (h.pending_of_record _ _ hfront k.event (by simp)) (hp k.event) }

end Ledger

end Machine

end LaunchGraph
