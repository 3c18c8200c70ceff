import LaunchGraph.Proofs.Placement

/-!
# Poison — whose failure reaches whom on the device

A launch fails because it was bound to fail when it was handed over, or because its stream is
poisoned when it runs.  A stream is poisoned by a launch that fails on it, or by waiting for an
event that has failed.  Where the number of streams is not limited, everything queued behind a
launch belongs to its descendants, and each wait is for a parent of the vertex it was queued for
(`Stage.WaitOf`).  That vertex comes next on the stream, with one exception: when a launch is
refused, its waits stay on the stream without it, and whoever is placed there later is handed over
behind them.

So a launch that failed and was not bound to fail has an ancestor whose launch failed, or it was
handed over behind a wait on a stream where an earlier vertex was refused that has such an ancestor
(`Stage.Blamed`).  All this is kept by every move (`Stage.Coherent.guarded`).
-/

namespace LaunchGraph

namespace Machine

/-- The vertices whose launches are queued, in order. -/
def queuedVertices (ops : List Op) : List VertexId :=
  ops.filterMap fun
    | .launch job => job.vertex
    | _ => none

@[simp] theorem queuedVertices_nil : queuedVertices [] = [] := rfl

@[simp] theorem queuedVertices_wait (e : EventId) (ops : List Op) :
    queuedVertices (.wait e :: ops) = queuedVertices ops := rfl

@[simp] theorem queuedVertices_record (e : EventId) (ops : List Op) :
    queuedVertices (.record e :: ops) = queuedVertices ops := rfl

@[simp] theorem queuedVertices_launch {job : Job} {v : VertexId} (hj : job.vertex = some v)
    (ops : List Op) : queuedVertices (.launch job :: ops) = v :: queuedVertices ops :=
  List.filterMap_cons_some hj

@[simp] theorem queuedVertices_append (ops more : List Op) :
    queuedVertices (ops ++ more) = queuedVertices ops ++ queuedVertices more :=
  List.filterMap_append

@[simp] theorem queuedVertices_waits (waits : List EventId) :
    queuedVertices (waits.map .wait) = [] := by
  simp [queuedVertices]

theorem mem_queuedVertices {ops : List Op} {v : VertexId} :
    v ∈ queuedVertices ops ↔ ∃ job, .launch job ∈ ops ∧ job.vertex = some v := by
  simp only [queuedVertices, List.mem_filterMap]
  constructor
  · rintro ⟨op, hop, hv⟩
    cases op with
    | launch job => exact ⟨job, hop, hv⟩
    | wait e => cases hv
    | record e => cases hv
  · rintro ⟨job, hmem, hj⟩
    exact ⟨.launch job, hmem, hj⟩

/-- The launch of vertex `v` has run and failed. -/
def LaunchFailed (m : Machine) (v : VertexId) : Prop :=
  ∃ r ∈ m.history, r.failed = true ∧ ∃ job, r.op = .launch job ∧ job.vertex = some v

theorem launchFailed_of_launched {m : Machine} {k : Ticket} (h : k.Launched true m.history) :
    m.LaunchFailed k.vertex := by
  obtain ⟨before, after, job, hh, hj, -⟩ := h
  exact ⟨⟨k.stream, .launch job, true⟩, by simp [hh], rfl, job, rfl, hj⟩

/-- What is queued behind a wait is whole. -/
theorem Blocks.of_wait {tickets : List Ticket} {t : StreamId} {ops front back : List Op}
    {e : EventId} (h : Blocks tickets t ops) (hops : ops = front ++ .wait e :: back) :
    Blocks tickets t back := by
  induction h generalizing front with
  | nil => simp at hops
  | wait hrest ih =>
      cases front with
      | nil => exact (List.cons.inj hops).2 ▸ hrest
      | cons op front => exact ih (List.cons.inj hops).2
  | work _ _ _ _ ih =>
      match front with
      | [] => simp at hops
      | [op] => simp at hops
      | op :: op' :: front => exact ih (List.cons.inj (List.cons.inj hops).2).2

/-- Where no launch is queued, there are waits only. -/
theorem Blocks.eq_wait {tickets : List Ticket} {t : StreamId} {ops : List Op}
    (h : Blocks tickets t ops) (hnone : queuedVertices ops = []) :
    ∀ op ∈ ops, ∃ e, op = .wait e := by
  induction h with
  | nil => simp
  | @wait e rest _ ih =>
      intro op hop
      rcases List.mem_cons.mp hop with rfl | hop
      · exact ⟨e, rfl⟩
      · exact ih hnone op hop
  | work _ _ hj => simp [queuedVertices_launch hj] at hnone

/-- Where no recording is queued, no launch is. -/
theorem Blocks.queuedVertices_eq_nil {tickets : List Ticket} {t : StreamId} {ops : List Op}
    (h : Blocks tickets t ops) (hr : ∀ e, .record e ∉ ops) : queuedVertices ops = [] := by
  refine List.eq_nil_iff_forall_not_mem.mpr fun v hv => ?_
  obtain ⟨job, hmem, -⟩ := mem_queuedVertices.mp hv
  obtain ⟨k, -, -, -, hrecord⟩ := h.ticket_of_launch hmem
  exact hr _ hrecord

/-- The last operation is a wait. -/
def EndsInWait (ops : List Op) : Prop := ∃ e, ops.getLast? = some (.wait e)

theorem endsInWait_of_forall {ops : List Op} (hne : ops ≠ [])
    (hwait : ∀ op ∈ ops, ∃ e, op = .wait e) : EndsInWait ops := by
  obtain ⟨e, he⟩ := hwait _ (List.getLast_mem hne)
  exact ⟨e, by rw [List.getLast?_eq_some_getLast hne, he]⟩

/-- A stream with no launch behind a wait ends in a wait. -/
theorem Shape.endsInWait {h : List Retired} {tickets : List Ticket} {t : StreamId} {lane : Lane}
    (hl : Shape h tickets t lane) {front back : List Op} {e : EventId}
    (hops : lane.ops = front ++ .wait e :: back) (hnone : queuedVertices back = []) :
    EndsInWait lane.ops := by
  have hback : Blocks tickets t back := by
    cases hl with
    | whole hb => exact hb.of_wait hops
    | cut _ _ _ hb =>
        cases front with
        | nil => simp at hops
        | cons op front => exact hb.of_wait (List.cons.inj hops).2
  have hwaits : ∀ op ∈ Op.wait e :: back, ∃ a, op = .wait a := by
    intro op hop
    rcases List.mem_cons.mp hop with rfl | hop
    · exact ⟨e, rfl⟩
    · exact hback.eq_wait hnone op hop
  obtain ⟨a, ha⟩ := endsInWait_of_forall (List.cons_ne_nil _ _) hwaits
  exact ⟨a, by rw [hops, List.getLast?_append, ha, Option.some_or]⟩

/-- Waiting poisons a stream only if the event has failed. -/
theorem failed_of_outcome? {m : Machine} {e : EventId}
    (h : m.outcome? false (.wait e) = some true) : m.events.get? e = some .failed := by
  simp only [outcome?] at h
  split at h <;> simp_all

/-- Where a list is extended, it splits in the old part or in the new one. -/
theorem split_of_append {α : Type} {l l' front back : List α} {x : α}
    (h : l ++ l' = front ++ x :: back) :
    (∃ back', l = front ++ x :: back' ∧ back = back' ++ l') ∨
      ∃ front', front = l ++ front' ∧ l' = front' ++ x :: back := by
  rcases List.append_eq_append_iff.mp h with ⟨m, rfl, hm⟩ | ⟨m, rfl, hm⟩
  · exact .inr ⟨m, rfl, hm⟩
  · cases m with
    | nil => exact .inr ⟨[], by simp, by simpa using hm.symm⟩
    | cons y m =>
        obtain ⟨rfl, rfl⟩ := List.cons_eq_cons.mp hm
        exact .inl ⟨m, rfl, rfl⟩

end Machine

open Machine

namespace Stage

/-- Vertex `v` was handed to the device at a stage, and with an element, that are as `Q` says. -/
def Rules.Handed (P : Rules) (v : VertexId) (Q : Stage → Element → Prop) : Prop :=
  ∃ s el, P.hands s v ∧ s.dag.element? v = some el ∧ Q s el

/-- The device is set to let the element fail. -/
def Condemns (s : Stage) (el : Element) : Prop := s.machine.failing.contains el.label = true

/-- The element is bound to stream `t`, and the last operation there is a wait. -/
def BehindWait (t : StreamId) (s : Stage) (el : Element) : Prop :=
  el.stream = some t ∧ ∃ lane, s.machine.streams.get? t = some lane ∧ EndsInWait lane.ops

/-- The launch of vertex `v` has run and failed, and so has the recording behind it. -/
def FailureRecorded (s : Stage) (v : VertexId) : Prop :=
  ∃ k ∈ s.tickets, k.vertex = v ∧ k.Ran true s.machine.history

/-- Vertex `r`, on stream `t`, was refused and has an ancestor whose failure is recorded. -/
def Stray (s : Stage) (t : StreamId) (r : VertexId) : Prop :=
  s.dag.Refused r t ∧ ∃ u, s.dag.Path u r ∧ s.FailureRecorded u

/-- The launch of an ancestor of vertex `v` failed; or `v` was handed over behind a wait on stream
`t`, where an earlier vertex was refused that has such an ancestor. -/
def Blamed (P : Rules) (s : Stage) (t : StreamId) (v : VertexId) : Prop :=
  (∃ u, s.dag.Path u v ∧ s.machine.LaunchFailed u) ∨
    (P.Handed v (BehindWait t) ∧ ∃ r < v, s.Stray t r)

/-- A wait for event `e`, with `front` before it on stream `t` and `back` behind it, was queued for
vertex `o`: the event is that of a parent of `o`; what is recorded in front are ancestors of `o`;
and the next launch is that of `o`, unless `o` was refused and the next launch is that of a later
vertex which was handed over behind a wait. -/
structure WaitOf (P : Rules) (s : Stage) (t : StreamId) (front : List Op) (e : EventId)
    (back : List Op) (o : VertexId) : Prop where
  parent : ∃ k ∈ s.tickets, k.event = e ∧ s.dag.HasEdge k.vertex o
  front : ∀ a, .record a ∈ front → ∃ k ∈ s.tickets, k.event = a ∧ s.dag.Path k.vertex o
  back : (queuedVertices back).head? = some o ∨ (s.dag.Refused o t ∧
    ∀ v, (queuedVertices back).head? = some v → o < v ∧ P.Handed v (BehindWait t))

/-- What is queued on stream `t` is in the order of the graph, and if the stream is poisoned, that
is on account of those who are to blame for it. -/
structure Guards (P : Rules) (s : Stage) (t : StreamId) (lane : Lane) : Prop where
  chained : (queuedVertices lane.ops).Pairwise s.dag.Path
  bound : ∀ job v, .launch job ∈ lane.ops → job.fails = true → job.vertex = some v →
    P.Handed v Condemns
  waits : ∀ front e back, lane.ops = front ++ .wait e :: back → ∃ o, s.WaitOf P t front e back o
  nonempty : lane.poisoned = true → lane.ops ≠ []
  poisoned : lane.poisoned = true → ∀ v, (queuedVertices lane.ops).head? = some v → s.Blamed P t v
  stray : lane.poisoned = true → (∀ e, .record e ∉ lane.ops) → ∃ r, s.Stray t r

/-- The streams are guarded, and who failed on the device was bound to fail or has someone to
blame. -/
structure Guarded (P : Rules) (s : Stage) : Prop where
  lanes : ∀ t lane, s.machine.streams.get? t = some lane → s.Guards P t lane
  ran : ∀ r ∈ s.machine.history, r.failed = true → ∀ job v, r.op = .launch job →
    job.vertex = some v → P.Handed v Condemns ∨ s.Blamed P r.stream v
  first : s.RefusedFirst

/-! ### What stays as a stage goes on -/

/-- The later stage has the edges, the refusals, the history and the tickets of the earlier one. -/
structure Extends (s t : Stage) : Prop where
  edge : ∀ u v, s.dag.HasEdge u v → t.dag.HasEdge u v
  refused : ∀ v u, s.dag.Refused v u → t.dag.Refused v u
  history : ∃ l, t.machine.history = s.machine.history ++ l
  tickets : ∀ k ∈ s.tickets, k ∈ t.tickets

variable {P : Rules} {s t : Stage}

namespace Extends

variable {u : StreamId} {v w : VertexId}

theorem path (h : s.Extends t) (hp : s.dag.Path v w) : t.dag.Path v w := hp.mono h.edge

theorem launchFailed (h : s.Extends t) (hf : s.machine.LaunchFailed v) :
    t.machine.LaunchFailed v := by
  obtain ⟨r, hr, hrest⟩ := hf
  obtain ⟨l, hl⟩ := h.history
  exact ⟨r, hl ▸ List.mem_append_left l hr, hrest⟩

theorem failureRecorded (h : s.Extends t) (hf : s.FailureRecorded v) : t.FailureRecorded v := by
  obtain ⟨k, hk, hkv, hran⟩ := hf
  obtain ⟨l, hl⟩ := h.history
  exact ⟨k, h.tickets k hk, hkv, hl ▸ hran.append l⟩

theorem stray (h : s.Extends t) (hs : s.Stray u v) : t.Stray u v := by
  obtain ⟨hr, w, hp, hf⟩ := hs
  exact ⟨h.refused v u hr, w, h.path hp, h.failureRecorded hf⟩

theorem blamed (h : s.Extends t) (hb : s.Blamed P u v) : t.Blamed P u v := by
  rcases hb with ⟨w, hp, hf⟩ | ⟨hhanded, r, hlt, hr⟩
  · exact .inl ⟨w, h.path hp, h.launchFailed hf⟩
  · exact .inr ⟨hhanded, r, hlt, h.stray hr⟩

theorem waitOf (h : s.Extends t) {front back : List Op} {e : EventId} {o : VertexId}
    (hw : s.WaitOf P u front e back o) : t.WaitOf P u front e back o where
  parent := by
    obtain ⟨k, hk, hke, hedge⟩ := hw.parent
    exact ⟨k, h.tickets k hk, hke, h.edge _ _ hedge⟩
  front a ha := by
    obtain ⟨k, hk, hke, hp⟩ := hw.front a ha
    exact ⟨k, h.tickets k hk, hke, h.path hp⟩
  back := hw.back.imp_right fun ⟨hr, hnext⟩ => ⟨h.refused _ _ hr, hnext⟩

theorem guards (h : s.Extends t) {lane : Lane} (hg : s.Guards P u lane) : t.Guards P u lane where
  chained := hg.chained.imp h.path
  bound := hg.bound
  waits front e back heq := (hg.waits front e back heq).imp fun _ => h.waitOf
  nonempty := hg.nonempty
  poisoned hp v hv := h.blamed (hg.poisoned hp v hv)
  stray hp hr := (hg.stray hp hr).imp fun _ => h.stray

end Extends

theorem Move.tickets_subset (hm : Move P s t) : ∀ k ∈ s.tickets, k ∈ t.tickets := by
  cases hm with
  | adjust ha => exact fun k hk => ha.tickets ▸ hk
  | issue => exact fun k hk => List.mem_append_left _ hk
  | _ => exact fun k hk => hk

/-- **Every move extends the stage.** -/
theorem Coherent.extends (h : s.Coherent) (hm : Move P s t) : s.Extends t where
  edge u v huv := ((h.grows hm).dag.edge u v (h.linked.lt_of_hasEdge huv).2).mpr huv
  refused _ _ := h.refused hm
  history := (h.grows hm).history
  tickets := hm.tickets_subset

theorem FailureRecorded.launchFailed {v : VertexId} (h : s.FailureRecorded v) :
    s.machine.LaunchFailed v := by
  obtain ⟨k, -, rfl, hran⟩ := h
  obtain ⟨job, hmem, hj⟩ := hran.launched
  exact ⟨_, hmem, rfl, job, rfl, hj⟩

/-! ### The device advances -/

namespace WaitOf

variable {u : StreamId} {front back : List Op} {e : EventId} {o : VertexId}

/-- If the event has failed, it records the failure of a parent. -/
theorem failureRecorded (hw : s.WaitOf P u front e back o) (h : s.Coherent)
    (he : s.machine.events.get? e = some .failed) :
    ∃ q, s.dag.Path q o ∧ s.FailureRecorded q := by
  obtain ⟨k, hk, rfl, hedge⟩ := hw.parent
  exact ⟨k.vertex, .single hedge, k, hk, rfl, h.timeline.ledger.ran k hk true (by simpa using he)⟩

/-- A failure of an ancestor of the vertex it was queued for is to blame for the next launch. -/
theorem blamed (hw : s.WaitOf P u front e back o)
    (hf : ∃ q, s.dag.Path q o ∧ s.FailureRecorded q) {v : VertexId}
    (hv : (queuedVertices back).head? = some v) : s.Blamed P u v := by
  rcases hw.back with hnext | ⟨hr, hnext⟩
  · obtain rfl : o = v := Option.some.inj (hnext.symm.trans hv)
    obtain ⟨q, hq, hrecorded⟩ := hf
    exact .inl ⟨q, hq, hrecorded.launchFailed⟩
  · obtain ⟨hlt, hhanded⟩ := hnext v hv
    exact .inr ⟨hhanded, o, hlt, hr, hf⟩

/-- With no launch behind it, it was queued for a vertex that was refused. -/
theorem refused (hw : s.WaitOf P u front e back o) (hnone : queuedVertices back = []) :
    s.dag.Refused o u := by
  rcases hw.back with hnext | ⟨hr, -⟩
  · simp [hnone] at hnext
  · exact hr

end WaitOf

section Retire

variable {u : StreamId} {op : Op} {rest : List Op} {p : Bool}

/-- Where an operation leaves its stream poisoned, there is someone to blame for the next launch. -/
theorem Guards.blamed_retire (hg : s.Guards P u ⟨op :: rest, p⟩) (h : s.Coherent)
    (hs : s.machine.streams.get? u = some ⟨op :: rest, p⟩)
    (ho : s.machine.outcome? p op = some true) (he : s.Extends t)
    (hentry : ⟨u, op, true⟩ ∈ t.machine.history) {v : VertexId}
    (hv : (queuedVertices rest).head? = some v) : t.Blamed P u v := by
  cases op with
  | launch job =>
      obtain ⟨k, -, -, hj, -⟩ := h.timeline.ledger.ticket_of_front hs
      have hchained := hg.chained
      rw [queuedVertices_launch hj] at hchained
      -- the launch itself has failed, and what is queued behind it are its descendants
      have hpath := (List.pairwise_cons.mp hchained).1 v (List.mem_of_mem_head? hv)
      exact .inl ⟨k.vertex, he.path hpath, _, hentry, rfl, job, rfl, hj⟩
  | wait e =>
      cases p with
      | true => exact he.blamed (hg.poisoned rfl v hv)
      | false =>
          obtain ⟨o, hw⟩ := hg.waits [] e rest rfl
          exact he.blamed (hw.blamed (hw.failureRecorded h (failed_of_outcome? ho)) hv)
  | record a =>
      obtain rfl : p = true := by simpa [outcome?] using ho
      exact he.blamed (hg.poisoned rfl v hv)

/-- Where an operation leaves its stream poisoned and no recording is queued behind it, someone was
refused on the stream who has an ancestor that failed. -/
theorem Guards.stray_retire (hg : s.Guards P u ⟨op :: rest, p⟩) (h : s.Coherent)
    (hs : s.machine.streams.get? u = some ⟨op :: rest, p⟩)
    (ho : s.machine.outcome? p op = some true) (he : s.Extends t)
    (hh : t.machine.history = s.machine.history ++ [⟨u, op, true⟩]) (hne : rest ≠ [])
    (hrest : ∀ e, .record e ∉ rest) : ∃ r, t.Stray u r := by
  have hshape := h.timeline.ledger.shape u _ hs
  cases op with
  | launch job =>
      obtain ⟨k, -, -, -, rest', rfl⟩ := h.timeline.ledger.ticket_of_front hs
      exact absurd (by simp) (hrest k.event)
  | wait e =>
      cases p with
      | true => exact (hg.stray rfl fun a ha => hrest a (by simpa using ha)).imp fun _ => he.stray
      | false =>
          obtain ⟨o, hw⟩ := hg.waits [] e rest rfl
          cases hshape with
          | whole hblocks =>
              cases hblocks with
              | wait hblocks =>
                  have hnone := hblocks.queuedVertices_eq_nil hrest
                  exact ⟨o, he.stray ⟨hw.refused hnone,
                    hw.failureRecorded h (failed_of_outcome? ho)⟩⟩
  | record a =>
      obtain rfl : p = true := by simpa [outcome?] using ho
      obtain ⟨k, hk, rfl, rfl, hlaunched, hblocks⟩ := hshape.front
      cases hblocks with
      | nil => exact absurd rfl hne
      | @wait e back hblocks =>
          -- the launch before has failed, and what someone refused left behind keeps the poison
          obtain ⟨o, hw⟩ := hg.waits [.record k.event] e back rfl
          obtain ⟨k', hk', hke, hpath⟩ := hw.front k.event (by simp)
          obtain rfl := h.timeline.ledger.event_inj k' hk' k hk hke
          have hnone := hblocks.queuedVertices_eq_nil fun e he =>
            hrest e (List.mem_cons_of_mem _ he)
          exact ⟨o, he.refused _ _ (hw.refused hnone), k'.vertex, he.path hpath, k',
            he.tickets k' hk, rfl, hh ▸ hlaunched.ran⟩
      | @work k' => exact absurd (by simp) (hrest k'.event)

/-- What was queued behind an operation that has run is guarded. -/
theorem Guards.retire {f : Bool} (hg : s.Guards P u ⟨op :: rest, p⟩) (h : s.Coherent)
    (hs : s.machine.streams.get? u = some ⟨op :: rest, p⟩)
    (ho : s.machine.outcome? p op = some f) (he : s.Extends t)
    (hh : t.machine.history = s.machine.history ++ [⟨u, op, f⟩]) :
    t.Guards P u ⟨rest, f && !rest.isEmpty⟩ where
  chained := (he.guards hg).chained.sublist ((List.sublist_cons_self op rest).filterMap _)
  bound job v hmem := hg.bound job v (List.mem_cons_of_mem _ hmem)
  waits front e back heq := by
    obtain ⟨o, hw⟩ := (he.guards hg).waits (op :: front) e back (congrArg (op :: ·) heq)
    exact ⟨o, hw.parent, fun a ha => hw.front a (List.mem_cons_of_mem _ ha), hw.back⟩
  nonempty hp := by simpa using (Bool.and_eq_true_iff.mp hp).2
  poisoned hp v hv := by
    obtain ⟨rfl, -⟩ := Bool.and_eq_true_iff.mp hp
    exact hg.blamed_retire h hs ho he (by simp [hh]) hv
  stray hp hrest := by
    obtain ⟨rfl, hne⟩ := Bool.and_eq_true_iff.mp hp
    exact hg.stray_retire h hs ho he hh (by simpa using hne) hrest

end Retire

/-! ### Work is handed over -/

section Extend

variable {v : VertexId} {later : List VertexId} {el : Element} {u : StreamId} {lane : Lane}

/-- What is recorded on the stream of the vertex that is issued next are ancestors of it. -/
theorem Coherent.path_of_record (h : s.Coherent) (hp : s.Placement) (hd : s.due = v :: later)
    (hv : s.dag.element? v = some el) (hu : el.stream = some u)
    (hlane : s.machine.streams.get? u = some lane) {a : EventId} (ha : .record a ∈ lane.ops) :
    ∃ k ∈ s.tickets, k.event = a ∧ s.dag.Path k.vertex v := by
  have hledger := h.timeline.ledger
  obtain ⟨k, hk, rfl, rfl⟩ := (hledger.shape u lane hlane).ticket_of_record ha
  obtain ⟨x, hx, hrunning⟩ :=
    h.timeline.running_of_pending k hk (hledger.pending_of_record _ lane hlane _ ha)
  obtain ⟨e, he, -⟩ := h.timeline.event_of_running _ x hx hrunning
  obtain ⟨r, hr, hticket⟩ := h.timeline.ticket _ x e hx he
  obtain rfl : k.stream = r := congrArg Ticket.stream (hledger.vertex_inj k hk _ hticket rfl)
  have hlt := h.agenda.running_lt _ ((h.mem_running hx).mpr hrunning) v (by simp [held, hd])
  exact ⟨_, hk, rfl, hp.path _ v x el _ hlt hx hv hr hu (Element.isTerminal_of_running hrunning)⟩

/-- What is to be launched on the stream of the vertex that is issued next are ancestors of it. -/
theorem Coherent.path_of_queued (h : s.Coherent) (hp : s.Placement) (hd : s.due = v :: later)
    (hv : s.dag.element? v = some el) (hu : el.stream = some u)
    (hlane : s.machine.streams.get? u = some lane) {w : VertexId}
    (hw : w ∈ queuedVertices lane.ops) : s.dag.Path w v := by
  obtain ⟨job, hmem, hj⟩ := mem_queuedVertices.mp hw
  have hledger := h.timeline.ledger
  obtain ⟨k, hk, -, hjk, hrecord⟩ := (hledger.shape u lane hlane).ticket_of_launch hmem
  obtain rfl : k.vertex = w := Option.some.inj (hjk.symm.trans hj)
  obtain ⟨k', hk', hke, hpath⟩ := h.path_of_record hp hd hv hu hlane hrecord
  obtain rfl := hledger.event_inj k' hk' k hk hke
  exact hpath

/-- If the stream of the vertex that is issued next is poisoned and no launch is queued on it, there
is someone to blame. -/
theorem Guarded.blamed_of_poisoned (hg : s.Guarded P) (h : s.Coherent) (hp : s.Placement)
    (hd : s.due = v :: later) (hv : s.dag.element? v = some el) (hu : el.stream = some u)
    (hlane : s.machine.streams.get? u = some lane) (hP : P.hands s v)
    (hpoisoned : lane.poisoned = true) (hnone : queuedVertices lane.ops = []) :
    s.Blamed P u v := by
  have hguards := hg.lanes u lane hlane
  cases h.timeline.ledger.shape u lane hlane with
  | @cut k rest p hk _ hlaunched =>
      -- the launch that has run last on the stream is that of an ancestor
      obtain rfl : p = true := hpoisoned
      obtain ⟨k', hk', hke, hpath⟩ := h.path_of_record hp hd hv hu hlane (a := k.event) (by simp)
      obtain rfl := h.timeline.ledger.event_inj k' hk' k hk hke
      exact .inl ⟨_, hpath, launchFailed_of_launched hlaunched⟩
  | whole hblocks =>
      -- there are waits only, left behind by others
      have hwaits := hblocks.eq_wait hnone
      obtain ⟨r, hr⟩ := hguards.stray hpoisoned fun a ha => by
        obtain ⟨_, heq⟩ := hwaits _ ha
        cases heq
      exact .inr ⟨⟨s, el, hP, hv, hu, _, hlane,
        endsInWait_of_forall (hguards.nonempty hpoisoned) hwaits⟩,
        r, hg.first r u hr.1 v (by simp [held, hd]), hr⟩

/-- A wait stays where it is when vertex `v` is queued behind it, or nothing. -/
theorem Guarded.waitOf_append (hg : s.Guarded P) (h : s.Coherent) (hd : s.due = v :: later)
    (hv : s.dag.element? v = some el) (hu : el.stream = some u)
    (hlane : s.machine.streams.get? u = some lane) (hP : P.hands s v) {front back : List Op}
    {e : EventId} {o : VertexId} (hops : lane.ops = front ++ .wait e :: back)
    (hw : s.WaitOf P u front e back o) {more : List Op}
    (hmore : ∀ w, (queuedVertices more).head? = some w → w = v) :
    s.WaitOf P u front e (back ++ more) o := by
  refine ⟨hw.parent, hw.front, ?_⟩
  rw [queuedVertices_append]
  cases hqueued : queuedVertices back with
  | cons w ws => simpa [hqueued] using hw.back
  | nil =>
      -- the vertex it was queued for does not come any more
      have hr := hw.refused hqueued
      have hends := (h.timeline.ledger.shape u lane hlane).endsInWait hops hqueued
      refine .inr ⟨hr, fun w hnext => ?_⟩
      obtain rfl := hmore w hnext
      exact ⟨hg.first o u hr w (by simp [held, hd]), s, el, hP, hv, hu, lane, hlane, hends⟩

/-- A wait for a parent of vertex `v` is queued for `v`, if `v` is refused or comes next. -/
theorem Coherent.waitOf_parent (h : s.Coherent) (hp : s.Placement) (hd : s.due = v :: later)
    (hv : s.dag.element? v = some el) (hu : el.stream = some u)
    (hlane : s.machine.streams.get? u = some lane) {waits : List EventId}
    (hwaits : Scheduler.waitsFor s.dag v u (s.dag.parentVertices v) = .ok waits) (he : s.Extends t)
    {front back : List Op} {e : EventId} (hsplit : waits.map Op.wait = front ++ .wait e :: back)
    {tail : List Op}
    (hend : (queuedVertices tail = [] ∧ t.dag.Refused v u) ∨ queuedVertices tail = [v]) :
    t.WaitOf P u (lane.ops ++ front) e (back ++ tail) v := by
  have hmem : ∀ {op : Op}, op ∈ front ++ .wait e :: back → ∃ a ∈ waits, .wait a = op := by
    simp [← hsplit]
  have hnone : queuedVertices back = [] := by
    have hall := queuedVertices_waits waits
    rw [hsplit, queuedVertices_append, queuedVertices_wait] at hall
    exact (List.append_eq_nil_iff.mp hall).2
  constructor
  case parent =>
    obtain ⟨a, ha, hae⟩ := hmem (List.mem_append_right front List.mem_cons_self)
    obtain rfl := Op.wait.inj hae
    obtain ⟨p, hparent, x, hx, -, hevent⟩ := Scheduler.mem_waitsFor hwaits ha
    obtain ⟨r, -, hticket⟩ := h.timeline.ticket p x a hx hevent
    exact ⟨_, he.tickets _ hticket, rfl, he.edge _ _ (h.linked.mem_parentVertices.mp hparent)⟩
  case front =>
    intro a ha
    rcases List.mem_append.mp ha with ha | ha
    · obtain ⟨k, hk, hka, hpath⟩ := h.path_of_record hp hd hv hu hlane ha
      exact ⟨k, he.tickets k hk, hka, he.path hpath⟩
    · obtain ⟨_, -, heq⟩ := hmem (List.mem_append_left _ ha)
      cases heq
  case back =>
    rw [queuedVertices_append, hnone, List.nil_append]
    rcases hend with ⟨hnil, hr⟩ | hone
    · exact .inr ⟨hr, by simp [hnil]⟩
    · exact .inl (by simp [hone])

/-- The waits for the parents of vertex `v`, and its launch unless that is refused, are queued
behind what is guarded. -/
theorem Guarded.extend_lane (hg : s.Guarded P) (h : s.Coherent) (hp : s.Placement)
    (hd : s.due = v :: later) (hv : s.dag.element? v = some el) (hu : el.stream = some u)
    (hlane : s.machine.streams.get? u = some lane) (hP : P.hands s v) {waits : List EventId}
    (hwaits : Scheduler.waitsFor s.dag v u (s.dag.parentVertices v) = .ok waits) (he : s.Extends t)
    {tail ops : List Op} (hops : ops = waits.map .wait ++ tail) (htail : ∀ e, .wait e ∉ tail)
    (hbound : ∀ job w, .launch job ∈ tail → job.fails = true → job.vertex = some w →
      P.Handed w Condemns)
    (hend : (queuedVertices tail = [] ∧ t.dag.Refused v u) ∨ queuedVertices tail = [v]) :
    t.Guards P u { lane with ops := lane.ops ++ ops } := by
  subst hops
  have hold := hg.lanes u lane hlane
  have hmore : queuedVertices (waits.map .wait ++ tail) = queuedVertices tail := by simp
  have hends : ∀ w ∈ queuedVertices tail, w = v := by
    intro w hw
    rcases hend with ⟨hnil, -⟩ | hone
    · simp [hnil] at hw
    · simpa [hone] using hw
  constructor
  case chained =>
    rw [queuedVertices_append, hmore]
    refine List.pairwise_append.mpr ⟨(he.guards hold).chained, ?_, fun w hw w' hw' => ?_⟩
    · rcases hend with ⟨hnil, -⟩ | hone
      · simp [hnil]
      · simp [hone]
    · exact hends w' hw' ▸ he.path (h.path_of_queued hp hd hv hu hlane hw)
  case bound =>
    intro job w hmem
    simp only [List.mem_append, List.mem_map, reduceCtorEq, and_false, exists_false,
      false_or] at hmem
    exact hmem.elim (hold.bound job w) (hbound job w)
  case waits =>
    intro front e back heq
    -- a wait that stood there before, or one for a parent of the vertex
    rcases split_of_append heq with ⟨back', hops, rfl⟩ | ⟨front', rfl, hnew⟩
    · obtain ⟨o, hw⟩ := hold.waits front e back' hops
      refine ⟨o, he.waitOf (hg.waitOf_append h hd hv hu hlane hP hops hw fun w hnext => ?_)⟩
      exact hends w (List.mem_of_mem_head? (hmore ▸ hnext))
    · rcases split_of_append hnew with ⟨back', hsplit, rfl⟩ | ⟨front'', -, hin⟩
      · exact ⟨v, h.waitOf_parent hp hd hv hu hlane hwaits he hsplit hend⟩
      · exact absurd (by simp [hin]) (htail e)
  case nonempty => exact fun hpoisoned hnil => hold.nonempty hpoisoned (by simp_all)
  case poisoned =>
    intro hpoisoned w hnext
    rw [queuedVertices_append, hmore] at hnext
    cases hqueued : queuedVertices lane.ops with
    | cons w' ws =>
        obtain rfl : w' = w := by simpa [hqueued] using hnext
        exact he.blamed (hold.poisoned hpoisoned w' (by simp [hqueued]))
    | nil =>
        obtain rfl := hends w (List.mem_of_mem_head? (by simpa [hqueued] using hnext))
        exact he.blamed (hg.blamed_of_poisoned h hp hd hv hu hlane hP hpoisoned hqueued)
  case stray =>
    intro hpoisoned hrecord
    have hnone : ∀ a, .record a ∉ lane.ops := fun a ha => hrecord a (List.mem_append_left _ ha)
    exact (hold.stray hpoisoned hnone).imp fun _ => he.stray

end Extend

/-! ### Every move -/

/-- What a move leaves on a stream is guarded. -/
theorem Guarded.requeued (hg : s.Guarded P) (h : s.Coherent) (hp : s.Placement) (he : s.Extends t)
    {u : StreamId} {lane : Lane} (hlane : Requeued P s t u lane) : t.Guards P u lane := by
  cases hlane with
  | kept hlane => exact he.guards (hg.lanes u lane hlane)
  | fresh => constructor <;> simp
  | retired hs ho hh => exact (hg.lanes u _ hs).retire h hs ho he hh
  | refused hlane hd hv hu hw _ hP hr =>
      exact hg.extend_lane h hp hd hv hu hlane hP hw he (List.append_nil _).symm (by simp)
        (by simp) (.inl ⟨rfl, hr⟩)
  | @issued v _ el _ _ hlane hd hv hu hw hP =>
      refine hg.extend_lane h hp hd hv hu hlane hP hw he rfl (by simp)
        (fun job w hmem hfails hj => ?_) (.inr (queuedVertices_launch (h.numbered _ _ hv) _))
      obtain rfl : job = ⟨el.id, el.label, s.machine.failing.contains el.label⟩ := by
        simpa using hmem
      obtain rfl : v = w := Option.some.inj ((h.numbered v el hv).symm.trans hj)
      exact ⟨s, el, hP, hv, hfails⟩

/-- **Every move keeps the streams guarded.** -/
theorem Coherent.guarded (h : s.Coherent) (hp : s.Placement) (hg : s.Guarded P) (hm : Move P s t) :
    t.Guarded P where
  lanes u lane hlane := hg.requeued h hp (h.extends hm) (h.requeued hm hlane)
  ran r hr hf job v hop hj := by
    rcases h.retired_cases hm hr with hr | ⟨rest, p, hs, ho⟩
    · exact (hg.ran r hr hf job v hop hj).imp_right (h.extends hm).blamed
    · rw [hop] at hs ho
      rw [hf] at ho
      have hguards := hg.lanes _ _ hs
      rcases Bool.or_eq_true_iff.mp (Option.some.inj ho) with rfl | hfails
      · have hnext : (queuedVertices (.launch job :: rest)).head? = some v := by
          simp [queuedVertices_launch hj]
        exact .inr ((h.extends hm).blamed (hguards.poisoned rfl v hnext))
      · exact .inl (hguards.bound job v (by simp) hfails hj)
  first := h.refusedFirst hm hg.first

theorem Guarded.initial (options : ContextOptions) : (Stage.initial options).Guarded P := by
  constructor <;> simp [RefusedFirst, Stage.initial, Context.new, Dag.Refused, Dag.element?]

theorem Guarded.disturbance (hg : s.Guarded P) (hd : Disturbance s t) : t.Guarded P := by
  have he : s.Extends t := ⟨by simp [hd.dag], by simp [hd.dag],
    ⟨[], by simp [hd.work.history]⟩, by simp [hd.tickets]⟩
  constructor
  case lanes => exact fun u lane hu => he.guards (hg.lanes u lane (hd.work.streams ▸ hu))
  case ran =>
    exact fun r hr hf job v hop hj =>
      (hg.ran r (hd.work.history ▸ hr) hf job v hop hj).imp_right he.blamed
  case first =>
    rw [RefusedFirst, held, hd.dag, hd.due, hd.queue]
    exact hg.first

end Stage

end LaunchGraph
