import LaunchGraph.Proofs.Containment
import LaunchGraph.Proofs.Handover

/-!
# Recycling — what is on a stream that is free

A stream goes back to the pool when nobody who is not over is bound to it.  By then the launches on
it have run and their events are recorded, so no launch and no recording is queued there.  Waits
can be: a vertex makes its stream wait before it is launched, and when the launch is refused, the
vertex has failed and the waits stay.  Every wait on a stream has a launch behind it or was left by
a vertex that was refused on the stream (`Stage.Attended`), and every move keeps this.

So a stream that is free is empty unless a launch was refused on it, and then it holds nothing but
the waits of such launches (`Context.free_streams`).  It can be poisoned, too: that takes a wait
for a launch that failed, with another wait behind it (`Context.free_stream_poisoned`).
-/

namespace LaunchGraph

open Machine

namespace Stage

/-- A wait for event `e` on stream `t` was queued for vertex `r`, whose launch was refused. -/
def LeftBy (P : Rules) (s : Stage) (t : StreamId) (e : EventId) (r : VertexId) : Prop :=
  s.dag.Refused r t ∧ P.Handed r fun s₀ el =>
    el.stream = some t ∧ s₀.machine.Refuses el ∧ e ∈ s₀.dag.awaited r t

/-- Each wait on stream `t` has a launch behind it or was left by a vertex that was refused, and an
empty stream is not poisoned. -/
structure Attended (P : Rules) (s : Stage) (t : StreamId) (lane : Lane) : Prop where
  waits : ∀ front e back, lane.ops = front ++ .wait e :: back →
    queuedVertices back ≠ [] ∨ ∃ r, s.LeftBy P t e r
  nonempty : lane.poisoned = true → lane.ops ≠ []

variable {P : Rules} {s t : Stage} {u : StreamId} {lane : Lane}

namespace Attended

theorem mono (hl : s.Attended P u lane) (he : s.Extends t) : t.Attended P u lane where
  waits front e back heq := (hl.waits front e back heq).imp_right fun ⟨r, hr, hhanded⟩ =>
    ⟨r, he.refused _ _ hr, hhanded⟩
  nonempty := hl.nonempty

/-- What is behind an operation that has run stays attended. -/
theorem retire {op : Op} {rest : List Op} {p : Bool} (hl : s.Attended P u ⟨op :: rest, p⟩)
    (f : Bool) : s.Attended P u ⟨rest, f && !rest.isEmpty⟩ where
  waits front e back heq := hl.waits (op :: front) e back (congrArg (op :: ·) heq)
  nonempty hp := by simpa using (Bool.and_eq_true_iff.mp hp).2

/-- Waits are queued with a launch behind them, or for a vertex that is refused. -/
theorem extend (hl : s.Attended P u lane) (waits : List EventId) {tail : List Op}
    (htail : ∀ e, .wait e ∉ tail)
    (hnew : queuedVertices tail ≠ [] ∨ ∀ e ∈ waits, ∃ r, s.LeftBy P u e r) :
    s.Attended P u { lane with ops := lane.ops ++ (waits.map .wait ++ tail) } where
  waits front e back heq := by
    rcases split_of_append heq with ⟨back', hops, rfl⟩ | ⟨front', rfl, hops⟩
    · refine (hl.waits front e back' hops).imp_left fun hne => ?_
      simp [hne]
    · rcases split_of_append hops with ⟨back', hsplit, rfl⟩ | ⟨front'', -, hin⟩
      · have he : e ∈ waits := by
          have hmem : Op.wait e ∈ waits.map Op.wait := by simp [hsplit]
          simpa using hmem
        refine hnew.imp (fun hne => ?_) fun hleft => hleft e he
        simp [hne]
      · exact absurd (by simp [hin]) (htail e)
  nonempty hp hnil := hl.nonempty hp (List.append_eq_nil_iff.mp hnil).1

end Attended

/-- What a move leaves on a stream is attended. -/
theorem Coherent.attended_requeued (h : s.Coherent)
    (hs : ∀ u lane, s.machine.streams.get? u = some lane → s.Attended P u lane)
    (he : s.Extends t) (hlane : Requeued P s t u lane) : t.Attended P u lane := by
  cases hlane with
  | kept hlane => exact (hs u lane hlane).mono he
  | fresh => constructor <;> simp
  | @retired op rest p f hlane => exact ((hs u _ hlane).mono he).retire f
  | @refused v _ el waits lane hlane hd hv hu hw hrefuses hP hr =>
      obtain ⟨-, rfl⟩ := h.waits_eq_awaited hd hw
      have hleft : ∀ e ∈ s.dag.awaited v u, ∃ r, t.LeftBy P u e r := fun e hmem =>
        ⟨v, hr, s, el, hP, hv, hu, hrefuses, hmem⟩
      rw [← List.append_nil ((s.dag.awaited v u).map Op.wait)]
      exact ((hs u lane hlane).mono he).extend _ (by simp) (.inr hleft)
  | @issued v _ el waits lane hlane hd hv =>
      refine ((hs u lane hlane).mono he).extend waits (by simp) (.inl ?_)
      exact ne_of_eq_of_ne (queuedVertices_launch (h.numbered v el hv) _) (List.cons_ne_nil _ _)

/-- **Every stream is attended after every move.** -/
theorem attended_steps {options : ContextOptions} (hm : Steps P (.initial options) s) :
    ∀ u lane, s.machine.streams.get? u = some lane → s.Attended P u lane := by
  refine (Coherent.initial options).invariant
    (I := fun s => ∀ u lane, s.machine.streams.get? u = some lane → s.Attended P u lane)
    (fun s t h hs hm u lane hlane => h.attended_requeued hs (h.extends hm) (h.requeued hm hlane))
    (fun s t hs hd u lane hlane => ?_) (fun u lane hlane => ?_) hm
  · exact ⟨fun front e back heq => by
      simpa only [LeftBy, hd.dag] using
        (hs u lane (hd.work.streams ▸ hlane)).waits front e back heq,
      (hs u lane (hd.work.streams ▸ hlane)).nonempty⟩
  · cases hlane

/-- **On a free stream there are waits only.** -/
theorem Coherent.waits_of_free (h : s.Coherent) (hl : s.Listed) (hu : u ∈ s.pool.free)
    (hlane : s.machine.streams.get? u = some lane) : ∀ op ∈ lane.ops, ∃ e, op = .wait e := by
  have hledger := h.timeline.ledger
  -- who has a recording queued is not over
  have hrecord : ∀ e, .record e ∉ lane.ops := by
    intro e he
    obtain ⟨k, hk, rfl, rfl⟩ := (hledger.shape u lane hlane).ticket_of_record he
    obtain ⟨x, hx, hrunning⟩ :=
      h.timeline.running_of_pending k hk (hledger.pending_of_record _ lane hlane _ he)
    obtain ⟨e, he, -⟩ := h.timeline.event_of_running _ x hx hrunning
    obtain ⟨r, hr, hticket⟩ := h.timeline.ticket _ x e hx he
    obtain rfl : k.stream = r := congrArg Ticket.stream (hledger.vertex_inj k hk _ hticket rfl)
    have hover := hl.terminal_of_free hu hx hr
    simp [Element.isTerminal_of_running hrunning] at hover
  cases hledger.shape u lane hlane with
  | whole hblocks => exact hblocks.eq_wait (hblocks.queuedVertices_eq_nil hrecord)
  | @cut k => exact absurd (by simp) (hrecord k.event)

/-- A free stream exists on the device, and what is on it was left by vertices that were refused. -/
theorem Coherent.left_of_free (h : s.Coherent) (hl : s.Listed)
    (ha : ∀ u lane, s.machine.streams.get? u = some lane → s.Attended P u lane)
    (hu : u ∈ s.pool.free) :
    ∃ lane, s.machine.streams.get? u = some lane ∧
      (∀ op ∈ lane.ops, ∃ e r, op = .wait e ∧ s.LeftBy P u e r) ∧
      (lane.poisoned = true → lane.ops ≠ []) := by
  obtain ⟨slot, hslot, -⟩ := StreamPool.isIdle_iff.mp (hl.freeIdle u hu)
  obtain ⟨lane, hlane⟩ :=
    Table.contains_iff.mp ((h.owned.slots u).symm.trans (Table.contains_of_get? hslot))
  have hwaits := h.waits_of_free hl hu hlane
  refine ⟨lane, hlane, fun op hop => ?_, (ha u lane hlane).nonempty⟩
  obtain ⟨e, rfl⟩ := hwaits op hop
  obtain ⟨front, back, hops⟩ := List.append_of_mem hop
  rcases (ha u lane hlane).waits front e back hops with hqueued | ⟨r, hr⟩
  · -- no launch can be behind it
    obtain ⟨v, hv⟩ := List.exists_mem_of_ne_nil _ hqueued
    obtain ⟨job, hmem, -⟩ := mem_queuedVertices.mp hv
    obtain ⟨_, heq⟩ := hwaits (.launch job) (by simp [hops, hmem])
    cases heq
  · exact ⟨e, r, rfl, hr⟩

end Stage

namespace Context

/-- **What is on a stream that is free.**  In a contained run, a stream that the pool takes for free
holds waits only, each of which was left by a vertex that was put to the device and refused there;
and it is poisoned only if it holds some.  So if nobody was refused on it, it is empty and not
poisoned. -/
theorem free_streams (options : ContextOptions) (commands : List Command)
    (hc : ∀ x ∈ commands, x.Contained) (t : StreamId)
    (ht : t ∈ (ran options commands).pool.free) :
    ∃ lane, (ran options commands).device.machine.streams.get? t = some lane ∧
      (∀ op ∈ lane.ops, ∃ e r c el, op = .wait e ∧ Offers options commands r c ∧
        c.dag.element? r = some el ∧ el.stream = some t ∧ c.device.machine.Refuses el ∧
        e ∈ c.dag.awaited r t ∧ (ran options commands).dag.Refused r t) ∧
      (lane.poisoned = true → lane.ops ≠ []) ∧
      ((∀ r, ¬ (ran options commands).dag.Refused r t) →
        lane.ops = [] ∧ lane.poisoned = false) := by
  obtain ⟨s, hs, hsteps, -⟩ := (Stage.Coherent.initial options).after_ruled rfl hc
    (P := { admits := fun _ _ => True
            hands := fun s v => Offers options commands v s.toContext })
    (fun _ _ _ _ _ _ => trivial)
    fun earlier command later heq v t hpoint => ⟨earlier, command, later, heq, hpoint⟩
  have hran : ran options commands = s.toContext := hs.symm
  rw [hran] at ht ⊢
  obtain ⟨lane, hlane, hleft, hpoisoned⟩ := ((Stage.Coherent.initial options).steps
    hsteps).left_of_free (Stage.Coherent.listed_steps hsteps) (Stage.attended_steps hsteps) ht
  refine ⟨lane, hlane, fun op hop => ?_, hpoisoned, fun hnone => ?_⟩
  · obtain ⟨e, r, rfl, hr, s₀, el, hoffers, hel, hstream, hrefuses, he⟩ := hleft op hop
    exact ⟨e, r, s₀.toContext, el, rfl, hoffers, hel, hstream, hrefuses, he, hr⟩
  · have hnil : lane.ops = [] := List.eq_nil_iff_forall_not_mem.mpr fun op hop => by
      obtain ⟨_, r, -, hr, -⟩ := hleft op hop
      exact hnone r hr
    exact ⟨hnil, Bool.eq_false_iff.mpr fun hp => hpoisoned hp hnil⟩

theorem contained_leftWaits : ∀ x ∈ leftWaits, x.Contained := fun x hx =>
  contained_escape x (List.mem_append_left _ hx)

/-- Two waits are on a stream that is free: they were left by a launch that was refused. -/
theorem free_streams_leftWaits :
    2 ∈ (ran {} leftWaits).pool.free ∧ ∀ e ∈ [0, 1], ∃ r c el, Offers {} leftWaits r c ∧
      c.dag.element? r = some el ∧ el.stream = some 2 ∧ c.device.machine.Refuses el ∧
      e ∈ c.dag.awaited r 2 ∧ (ran {} leftWaits).dag.Refused r 2 := by
  have hfree : 2 ∈ (ran {} leftWaits).pool.free := by decide +kernel
  have hops : ((ran {} leftWaits).device.machine.streams.get? 2).map Lane.ops =
      some [.wait 0, .wait 1] := by decide +kernel
  obtain ⟨lane, hlane, hleft, -⟩ := free_streams {} leftWaits contained_leftWaits 2 hfree
  rw [hlane, Option.map_some, Option.some.injEq] at hops
  refine ⟨hfree, fun e he => ?_⟩
  obtain ⟨e', r, c, el, heq, hrest⟩ := hleft (.wait e) (by simpa [hops] using he)
  obtain rfl := Op.wait.inj heq
  exact ⟨r, c, el, hrest⟩

/-- **A stream that is free and poisoned.**  After a launch that depends on two others was refused,
its stream is free though it waits for both; and when the first of them has failed, the stream is
poisoned. -/
theorem free_stream_poisoned :
    (∀ x ∈ leftWaits ++ [.device .step, .device .step], x.Contained) ∧
    2 ∈ (ran {} leftWaits).pool.free ∧
    (ran {} leftWaits).device.machine.streams.get? 2 = some ⟨[.wait 0, .wait 1], false⟩ ∧
    2 ∈ (ran {} (leftWaits ++ [.device .step, .device .step])).pool.free ∧
    (ran {} (leftWaits ++ [.device .step, .device .step])).device.machine.streams.get? 2 =
      some ⟨[.wait 1], true⟩ := by
  refine ⟨fun x hx => ?_, by decide +kernel, by decide +kernel, by decide +kernel,
    by decide +kernel⟩
  rcases List.mem_append.mp hx with hx | hx
  · exact contained_leftWaits x hx
  · obtain rfl : x = .device .step := by simpa using hx
    exact rfl

end Context

end LaunchGraph
