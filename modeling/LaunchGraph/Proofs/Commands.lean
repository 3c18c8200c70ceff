import LaunchGraph.Proofs.Operations

/-!
# Commands as moves

Every command to a context has the same shape: something is prepared, after which some vertices
are to be handed to the device; they are handed over, one after the other; and the rest is done
(`Context.perform_eq_prepare`).  Commands that leave the streams and the events of the device to
the context, and do not disturb it, are sequences of moves (`Stage.Coherent.perform`), and so is
the way to each point at which a vertex is handed over, and on from there
(`Stage.Coherent.issuePoint`).
-/

namespace LaunchGraph

namespace Device.Command

/-- The command changes what the device will refuse or fail, or frees a buffer. -/
def isDisturbing : Command → Bool
  | .rejectLaunches _ | .failExecutions _ | .limitStreams _ | .free _ => true
  | _ => false

/-- The command leaves the streams and the events of the device to the context, and plans no
faults of calls. -/
def isContained : Command → Bool
  | .planFault .. | .createStream | .destroyStream _ | .createEvent | .destroyEvent _
  | .recordEvent .. | .waitEvent .. | .issue .. => false
  | _ => true

end Device.Command

namespace Context

namespace Command

/-- The command leaves the streams and the events of the device to the context, and an element it
registers is new or part of a graph already. -/
def Contained : Command → Prop
  | .device command => command.isContained = true
  | .register e => e.Unused ∨ e.id.isSome = true
  | _ => True

/-- The command hands element `e`, which is not part of a graph yet, to the context. -/
def Submits (c : Context) : Command → Element → Prop
  | .register e', e => e = e' ∧ e.id = none
  | .launch id config values, e =>
      ∃ k k', c.kernels.get? id = some k ∧ k.launch config values = .ok (e, k')
  | .access a write, e => e = .ofAccess a.buffer a.type write
  | _, _ => False

/-- An element that the command registers, if it is not part of a graph, holds all that it
touches. -/
def IsFresh : Command → Prop
  | .register e => e.id = none → e.active = e.accesses
  | _ => True

/-- The command does not change what the device will refuse or fail. -/
def isCalm : Command → Bool
  | .device command => !command.isDisturbing
  | _ => true

end Command

/-! ### The shape of a command -/

/-- Registering an element, up to the point where vertices are handed to the device, and what is
left to do after that. -/
def admission (e : Element) : Action Context (List VertexId × Action Context Reply) := do
  observe
  let (v, stream, ready) ← enroll e
  pure (ready, do
    if e.work.blocksHost then
      if (← element v).isTerminal then pure ()
      else
        onDevice (Device.syncStream stream)
        observe
    pure (.vertex v))

/-- What a command does before it hands vertices to the device: the vertices, in the order in
which they are handed over, and what is left to do after that. -/
def prepare : Command → Action Context (List VertexId × Action Context Reply)
  | .register e => admission e
  | .launch id config values => do
      match ← Action.gets fun c => c.kernels.get? id with
      | none => Action.fail (.unknownKernel s!"#{id}")
      | some k =>
          let (e, k) ← Action.ofExcept (k.launch config values)
          Action.modify fun c => { c with kernels := c.kernels.insert id k }
          admission e
  | .access a write => do
      Action.modify fun c => c.registerArray a
      admission (.ofAccess a.buffer a.type write)
  | .flush => do
      let ready ← (do observe; drainQueue)
      pure (ready, pure .done)
  | .wait v => do
      let ready ← (do observe; drainQueue)
      pure (ready, do
        let e ← element v
        if e.isTerminal then pure ()
        else
          match e.stream with
          | some stream => onDevice (Device.syncStream stream)
          | none => pure ()
          observe
        let e ← element v
        Action.ofExcept (verdict v e)
        pure .done)
  | .synchronize => do
      let ready ← (do observe; drainQueue)
      pure (ready, do
        (do onDevice Device.syncDevice; observe)
        pure .done)
  | .cleanup => do
      if ← Action.gets fun c => c.hasPending || !c.running.isEmpty then
        let ready ← (do observe; drainQueue)
        pure (ready, do
          (do onDevice Device.syncDevice; observe)
          onScheduler Scheduler.cleanup
          pure .done)
      else
        pure ([], do
          onScheduler Scheduler.cleanup
          pure .done)
  | command => pure ([], perform command)

theorem register_eq_enroll (e : Element) : register e = (do
    observe
    let (v, stream, ready) ← enroll e
    Action.each issueVertex ready
    if e.work.blocksHost then
      if (← element v).isTerminal then pure ()
      else
        onDevice (Device.syncStream stream)
        observe
    pure v) := by
  unfold register enroll
  simp only [bind_assoc]
  refine congrArg _ (funext fun _ => congrArg _ (funext fun v => congrArg _ (funext fun x => ?_)))
  cases x with
  | error error => rfl
  | ok stream => simp only [bind_assoc, pure_bind]

theorem register_eq_admission (e : Element) :
    (do let v ← register e; pure (.vertex v) : Action Context Reply) = (do
      let (ready, rest) ← admission e
      Action.each issueVertex ready
      rest) := by
  rw [register_eq_enroll, admission]
  simp only [bind_assoc, pure_bind]
  refine congrArg _ (funext fun _ => congrArg _ (funext fun x => congrArg _ (funext fun _ => ?_)))
  cases e.work.blocksHost with
  | false => rfl
  | true =>
      simp only [if_true, bind_assoc]
      refine congrArg _ (funext fun el => ?_)
      cases el.isTerminal with
      | true => rfl
      | false => simp only [Bool.false_eq_true, if_false, bind_assoc, pure_bind]

theorem eq_nothing_handed (x : Action Context Reply) : x = (do
    let (ready, rest) ← (pure ([], x) : Action Context (List VertexId × Action Context Reply))
    Action.each issueVertex ready
    rest) := rfl

/-- **The shape of a command**: vertices are handed to the device one after the other, after some
preparation and before the rest. -/
theorem perform_eq_prepare (command : Command) : perform command = (do
    let (ready, rest) ← prepare command
    Action.each issueVertex ready
    rest) := by
  cases command with
  | register e => exact register_eq_admission e
  | launch id config values =>
      simp only [perform, prepare, launch, bind_assoc]
      refine congrArg _ (funext fun k => ?_)
      cases k with
      | none => rfl
      | some k =>
          simp only [bind_assoc]
          refine congrArg _ (funext fun out => congrArg _ (funext fun _ => ?_))
          exact register_eq_admission out.1
  | access a write =>
      simp only [perform, prepare, accessArray, bind_assoc]
      exact congrArg _ (funext fun _ => register_eq_admission _)
  | flush => simp only [perform, prepare, flush, bind_assoc, pure_bind]
  | wait v =>
      simp only [perform, prepare, wait, flush, bind_assoc, pure_bind]
      refine congrArg _ (funext fun _ => congrArg _ (funext fun ready =>
        congrArg _ (funext fun _ => congrArg _ (funext fun e => ?_))))
      cases e.isTerminal with
      | true => simp only [if_true, bind_assoc]
      | false => cases e.stream <;> simp only [Bool.false_eq_true, if_false, bind_assoc]
  | synchronize => simp only [perform, prepare, synchronize, flush, bind_assoc, pure_bind]
  | cleanup =>
      simp only [perform, prepare, cleanup, synchronize, flush, bind_assoc]
      refine congrArg _ (funext fun b => ?_)
      cases b
      · rfl
      · simp only [if_true, bind_assoc, pure_bind]
  | _ => exact eq_nothing_handed _

/-- On its way from context `c₀`, the command is at context `c` and about to hand vertex `v` to the
device. -/
def IssuePoint (c₀ : Context) (command : Command) (v : VertexId) (c : Context) : Prop :=
  ∃ before after rest start, (prepare command).run c₀ = (.ok (before ++ v :: after, rest), start) ∧
    (Action.each issueVertex before).run start = (.ok (), c)

/-- The vertices that a command is about to hand over. -/
def readyVertices : Except Halt (List VertexId × Action Context Reply) → List VertexId
  | .ok (ready, _) => ready
  | .error _ => []

theorem issuePoint_of_ready {c : Context} {command : Command} {v : VertexId}
    {after : List VertexId} (h : readyVertices ((prepare command).run c).1 = v :: after) :
    IssuePoint c command v ((prepare command).run c).2 := by
  cases hrun : ((prepare command).run c).1 with
  | error e => simp [hrun, readyVertices] at h
  | ok out =>
      obtain ⟨ready, rest⟩ := out
      obtain rfl : ready = v :: after := by simpa [hrun, readyVertices] using h
      exact ⟨[], after, rest, _, Prod.ext hrun rfl, rfl⟩

end Context

theorem Element.unused_new (work : Work) (arguments : List Argument) :
    (Element.new work arguments).Unused :=
  ⟨rfl, rfl, rfl, rfl, rfl⟩

namespace Kernel

/-- A call that is accepted makes a new element, and is counted. -/
theorem launch_ok {k k' : Kernel} {config : LaunchConfig} {values : List CallValue} {e : Element}
    (h : k.launch config values = .ok (e, k')) :
    ∃ arguments, k.bind values = .ok arguments ∧
      e = .new (.launch k.id k.name config) arguments ∧
      k' = { k with launchCount := k.launchCount + 1 } := by
  unfold launch at h
  split at h
  · next arguments hbind =>
    obtain ⟨rfl, rfl⟩ := Prod.mk.inj (Except.ok.inj h)
    exact ⟨arguments, hbind, rfl, rfl⟩
  · cases h

theorem launch_new {k k' : Kernel} {config : LaunchConfig} {values : List CallValue} {e : Element}
    (h : k.launch config values = .ok (e, k')) : e = .new e.work e.arguments := by
  obtain ⟨arguments, -, rfl, -⟩ := launch_ok h
  rfl

/-- What is wrong with a call: the number of values, or the first of them that does not fit. -/
inductive Misfit (k : Kernel) (values : List CallValue) : Error → Prop where
  | arity (h : values.length ≠ k.parameters.length) :
      Misfit k values (.arity k.name k.parameters.length values.length)
  | argumentType {i : Nat} {p : Parameter} {v : CallValue}
      (hlength : values.length = k.parameters.length) (hp : k.parameters[i]? = some p)
      (hv : values[i]? = some v) (hmisfit : p.accept? v = none)
      (hfirst : ∀ j < i, ∀ q w, k.parameters[j]? = some q → values[j]? = some w →
        (q.accept? w).isSome) :
      Misfit k values (.argumentType k.name i p.type v.kind)

/-- Binding fails at the first value that does not fit. -/
theorem bindFrom_error {name : String} {index : Nat} {ps : List Parameter}
    {values : List CallValue} {error : Error} (h : bindFrom name index ps values = .error error) :
    ∃ i p v, ps[i]? = some p ∧ values[i]? = some v ∧ p.accept? v = none ∧
      (∀ j < i, ∀ q w, ps[j]? = some q → values[j]? = some w → (q.accept? w).isSome) ∧
      error = .argumentType name (index + i) p.type v.kind := by
  fun_induction bindFrom name index ps values with
  | case1 index p ps v vs hnone =>
      exact ⟨0, p, v, rfl, rfl, hnone, by simp, (Except.error.inj h).symm⟩
  | case2 => cases h
  | case3 index p ps v vs a ha _ hrest ih =>
      obtain ⟨i, q, w, hq, hw, hnone, hfirst, heq⟩ := ih (hrest.trans h)
      refine ⟨i + 1, q, w, by simpa using hq, by simpa using hw, hnone, fun j hj => ?_, ?_⟩
      · cases j with
        | zero => simp [ha]
        | succ j => simpa using hfirst j (Nat.lt_of_succ_lt_succ hj)
      · rw [heq, Nat.add_assoc, Nat.add_comm 1 i]
  | case4 => cases h

theorem bindFrom_of_misfit {name : String} {index i : Nat} {ps : List Parameter}
    {values : List CallValue} {p : Parameter} {v : CallValue} (hp : ps[i]? = some p)
    (hv : values[i]? = some v) (hmisfit : p.accept? v = none)
    (hfirst : ∀ j < i, ∀ q w, ps[j]? = some q → values[j]? = some w → (q.accept? w).isSome) :
    bindFrom name index ps values = .error (.argumentType name (index + i) p.type v.kind) := by
  induction i generalizing index ps values with
  | zero =>
      cases ps <;> cases values <;> cases hp <;> cases hv
      rw [bindFrom, hmisfit]
      rfl
  | succ i ih =>
      cases ps with
      | nil => cases hp
      | cons q ps =>
          cases values with
          | nil => cases hv
          | cons w ws =>
              obtain ⟨a, ha⟩ := Option.isSome_iff_exists.mp
                (hfirst 0 (Nat.succ_pos i) q w rfl rfl)
              have hrest : bindFrom name (index + 1) ps ws =
                  .error (.argumentType name (index + 1 + i) p.type v.kind) :=
                ih hp hv fun j hj => hfirst (j + 1) (Nat.succ_lt_succ hj)
              rw [bindFrom, ha, hrest, Nat.add_assoc, Nat.add_comm 1 i]

/-- **A call is refused exactly if something is wrong with it.** -/
theorem bind_eq_error_iff {k : Kernel} {values : List CallValue} {error : Error} :
    k.bind values = .error error ↔ k.Misfit values error := by
  unfold bind
  constructor
  · intro h
    split at h
    · next hlength =>
      obtain ⟨i, p, v, hp, hv, hmisfit, hfirst, rfl⟩ := bindFrom_error h
      rw [Nat.zero_add]
      exact .argumentType hlength hp hv hmisfit hfirst
    · next hlength =>
      obtain rfl := Except.error.inj h
      exact .arity hlength
  · intro h
    cases h with
    | arity hlength => rw [if_neg hlength]
    | @argumentType i _ _ hlength hp hv hmisfit hfirst =>
        rw [if_pos hlength, bindFrom_of_misfit hp hv hmisfit hfirst, Nat.zero_add]

theorem launch_error {k : Kernel} {config : LaunchConfig} {values : List CallValue}
    {error : Error} (h : k.launch config values = .error error) :
    ¬ (Halt.error error).IsStall := by
  unfold launch at h
  split at h
  · cases h
  · next hb =>
    obtain rfl := Except.error.inj h
    cases bind_eq_error_iff.mp hb with
    | arity | argumentType => exact fun hstall => hstall

theorem new_error {id : KernelId} {name signature : String} {error : Error}
    (h : Kernel.new id name signature = .error error) : ¬ (Halt.error error).IsStall := by
  unfold Kernel.new at h
  split at h
  · cases h
  · next hp =>
    obtain rfl := Except.error.inj h
    rcases Signature.parse_cases signature with ⟨ps, hok⟩ | ⟨fault, hinvalid⟩
    · cases hp.symm.trans hok
    · obtain rfl := Except.error.inj (hp.symm.trans hinvalid)
      exact fun hstall => hstall

end Kernel

/-- What a fresh command submits holds all that it touches. -/
theorem Context.Command.IsFresh.active {c : Context} {command : Command} {e : Element}
    (h : command.IsFresh) (hs : command.Submits c e) : e.active = e.accesses := by
  cases command with
  | register e' =>
      obtain ⟨rfl, hid⟩ := hs
      exact h hid
  | launch id config values =>
      obtain ⟨k, k', -, hl⟩ := hs
      rw [Kernel.launch_new hl]
      rfl
  | access a write =>
      obtain rfl := hs
      rfl
  | _ => cases hs

namespace Stage

variable {P : Rules} {s : Stage}

/-- What no work depends on is changed: arrays, kernels, the log of calls. -/
theorem moves_adjust {t : Stage} (h : Adjusts s t) : Moves P s t := .single (.adjust h)

theorem adjusts_registry (s : Stage) (arrays : Table BufferId DeviceArray)
    (kernels : Table KernelId Kernel) (nextKernel : KernelId) :
    Adjusts s { s with arrays, kernels, nextKernel } :=
  ⟨rfl, rfl, rfl, rfl, rfl, rfl, rfl, ⟨rfl, rfl, rfl, rfl, rfl⟩, rfl, rfl, rfl, fun _ hb => hb⟩

/-! ### Commands to the device -/

theorem leads_onDevice {α : Type} {x : Action Device α} {r : Except Halt α} {d : Device}
    (hrun : x.run s.device = (r, d)) (hm : Moves P s { s with device := d })
    (hr : Unstalled r) : Leads P s (Context.onDevice x) fun r t => t.due = s.due ∧ Unstalled r :=
  ⟨r, { s with device := d }, Context.run_onDevice hrun, hm, rfl, hr⟩

theorem adjusts_buffers (s : Stage) (calls : List Call) :
    Adjusts s { s with device := s.device.after calls { s.machine with
      nextBuffer := s.machine.nextBuffer + 1
      buffers := s.machine.buffers ++ [s.machine.nextBuffer] } } :=
  ⟨rfl, rfl, rfl, rfl, rfl, rfl, rfl, ⟨rfl, rfl, rfl, rfl, rfl⟩, rfl, rfl, rfl,
    fun _ hb => List.mem_append_left _ hb⟩

/-- A command to the device that disturbs nothing is a sequence of moves. -/
theorem Coherent.device (h : s.Coherent) {command : Device.Command}
    (hc : command.isContained = true) (hcalm : command.isDisturbing = false) :
    Leads P s (Context.onDevice (Device.perform command)) fun r t =>
      t.due = s.due ∧ Unstalled r := by
  cases command with
  | step =>
      have hrun : (Device.perform .step).run s.device =
          (.ok (.count s.machine.step.1), { s.device with machine := s.machine.step.2 }) := rfl
      exact leads_onDevice hrun (moves_advances (s := s) (Machine.advances_step _)) (.ok _)
  | runUntilIdle =>
      have hrun : (Device.perform .runUntilIdle).run s.device =
          (.ok .done, { s.device with machine := s.machine.settle }) :=
        Action.run_bind_ok (Action.run_zoom h.timeline.ledger.orderly.run_syncDevice)
      exact leads_onDevice hrun (moves_advances (s := s) (Machine.advances_settle _)) (.ok _)
  | isAllocated b => exact ⟨_, s, rfl, .refl, rfl, .ok _⟩
  | eventStatus e =>
      cases he : s.machine.events.get? e with
      | some st =>
          exact leads_onDevice (Action.run_bind_ok (Device.run_eventStatus h.faults he)) .refl (.ok _)
      | none =>
          refine leads_onDevice
            (Action.run_bind_error (Device.run_eventStatus_unknown h.faults he)) .refl ?_
          rintro _ ⟨⟩
          exact id
  | syncStream t =>
      cases ht : s.machine.streams.contains t with
      | true =>
          obtain ⟨m, hrun, hadvances, -⟩ := h.timeline.ledger.orderly.run_syncStream ht
          exact leads_onDevice (Action.run_bind_ok (Device.run_call h.faults hrun))
            (moves_after hadvances _) (.ok _)
      | false =>
          refine leads_onDevice (Action.run_bind_error
            (Device.run_call h.faults (run_syncStream_unknown ht)))
            (moves_adjust (adjusts_calls s _)) ?_
          rintro _ ⟨⟩
          exact id
  | syncDevice =>
      exact leads_onDevice (Action.run_bind_ok (Device.run_call h.faults
        h.timeline.ledger.orderly.run_syncDevice)) (moves_after (Machine.advances_settle _) _) (.ok _)
  | allocate bytes =>
      exact leads_onDevice (Action.run_bind_ok (Device.run_call h.faults rfl))
        (moves_adjust (adjusts_buffers s _)) (.ok _)
  | rejectLaunches label => cases hcalm
  | failExecutions label => cases hcalm
  | limitStreams limit => cases hcalm
  | free b => cases hcalm
  | planFault method plan => cases hc
  | createStream => cases hc
  | destroyStream t => cases hc
  | createEvent => cases hc
  | destroyEvent e => cases hc
  | recordEvent e t => cases hc
  | waitEvent t e => cases hc
  | issue e t => cases hc

/-! ### Commands to the context -/

/-- The stage with a new array, which is known. -/
def withArray (s : Stage) (type : ElementType) (length : Nat) : Stage :=
  { s with
    device := s.device.after [.allocate (type.size * length)] { s.machine with
      nextBuffer := s.machine.nextBuffer + 1
      buffers := s.machine.buffers ++ [s.machine.nextBuffer] }
    arrays := s.arrays.insertNew s.machine.nextBuffer ⟨s.machine.nextBuffer, type, length⟩ }

theorem moves_withArray (s : Stage) (type : ElementType) (length : Nat) :
    Moves P s (s.withArray type length) :=
  (moves_adjust (adjusts_buffers s _)).tail (.adjust (adjusts_registry _ _ _ _))

theorem run_allocateArray (hf : s.device.faults = []) {type : ElementType} {length : Nat}
    (hvoid : type ≠ .void) (hsize : type.size * length < addressSpace) :
    (Context.allocateArray type length).run s.toContext =
      (.ok ⟨s.machine.nextBuffer, type, length⟩, (s.withArray type length).toContext) := by
  have hrun : (DeviceArray.allocate type length).run s.device =
      (.ok ⟨s.machine.nextBuffer, type, length⟩, (s.withArray type length).device) := by
    simp only [DeviceArray.allocate, hvoid, Nat.not_le.mpr hsize, if_false]
    exact Action.run_bind_ok (Device.run_call hf rfl)
  exact Action.run_bind_ok (Context.run_onDevice hrun)

theorem Coherent.allocateArray (h : s.Coherent) (hd : s.due = []) (type : ElementType)
    (length : Nat) : Leads P s (Context.allocateArray type length) Rests := by
  have hfail : ∀ fault, (DeviceArray.allocate type length).run s.device =
      (.error (.error (.config fault)), s.device) →
      Leads P s (Context.allocateArray type length) Rests := by
    intro fault hrun
    refine ⟨_, s, Action.run_bind_error (Context.run_onDevice hrun), .refl, hd, ?_⟩
    rintro _ ⟨⟩
    exact id
  by_cases hvoid : type = .void
  · exact hfail .arrayOfVoid (by simp only [DeviceArray.allocate, hvoid, if_true]; rfl)
  by_cases hlarge : addressSpace ≤ type.size * length
  · exact hfail (.arrayTooLarge length type)
      (by simp only [DeviceArray.allocate, hvoid, hlarge, if_true, if_false]; rfl)
  exact ⟨_, s.withArray type length, run_allocateArray h.faults hvoid (Nat.not_le.mp hlarge),
    moves_withArray s type length, hd, .ok _⟩

/-- The stage with a new kernel, which is known. -/
def withKernel (s : Stage) (k : Kernel) : Stage :=
  { s with kernels := s.kernels.insert k.id k, nextKernel := s.nextKernel + 1 }

theorem moves_withKernel (s : Stage) (k : Kernel) : Moves P s (s.withKernel k) :=
  moves_adjust (adjusts_registry s _ _ _)

theorem run_declareKernel {name signature : String} {k : Kernel}
    (hk : Kernel.new s.nextKernel name signature = .ok k) :
    (Context.declareKernel name signature).run s.toContext =
      (.ok k.id, (s.withKernel k).toContext) := by
  rw [Context.declareKernel, Context.newKernel]
  simp only [bind_assoc, Action.run_gets_bind, hk]
  rfl

theorem leads_declareKernel (hd : s.due = []) (name signature : String) :
    Leads P s (Context.declareKernel name signature) Rests := by
  cases hk : Kernel.new s.nextKernel name signature with
  | error error =>
      refine ⟨.error (.error error), s, ?_, .refl, hd, ?_⟩
      · rw [Context.declareKernel, Context.newKernel]
        simp only [bind_assoc, Action.run_gets_bind, hk]
        rfl
      · rintro _ ⟨⟩
        exact Kernel.new_error hk
  | ok k => exact ⟨_, s.withKernel k, run_declareKernel hk, moves_withKernel s k, hd, .ok _⟩

/-- Answering with what a step gave. -/
theorem Leads.reply {α β : Type} {x : Action Context α} (hx : Leads P s x Rests) (f : α → β) :
    Leads P s (x >>= fun a => pure (f a)) Rests := by
  refine hx.bind (fun a t _ ht => ⟨_, t, rfl, .refl, ht.1, .ok _⟩) fun e t _ ht => ⟨ht.1, ?_⟩
  exact .error (ht.2 e rfl)

/-- The vertices are due, and the rest can be done once they have been issued. -/
structure Prepared (P : Rules) (t : Stage) (ready : List VertexId)
    (rest : Action Context Context.Reply) : Prop where
  due : t.due = ready
  observed : ready ≠ [] → t.Observed
  rest : ∀ u, Moves P t u → u.due = [] → u.queue = t.queue → (ready = [] → u = t) →
    Leads P u rest Rests

/-- Something is prepared, or nothing is due and the device was not found stuck. -/
def Prepares (P : Rules)
    (r : Except Halt (List VertexId × Action Context Context.Reply)) (t : Stage) : Prop :=
  (∃ ready rest, r = .ok (ready, rest) ∧ Prepared P t ready rest) ∨
    ∃ h, r = .error h ∧ t.due = [] ∧ ¬ h.IsStall

/-- A command that hands over nothing. -/
theorem prepares_nothing (hd : s.due = []) {rest : Action Context Context.Reply}
    (hrest : Leads P s rest Rests) : Leads P s (pure ([], rest)) (Prepares P) := by
  refine ⟨_, s, rfl, .refl, .inl ⟨[], rest, rfl, hd, fun hne => absurd rfl hne, ?_⟩⟩
  rintro u - - - heq
  rw [heq rfl]
  exact hrest

/-- A command that hands over everything that is held back. -/
theorem Coherent.prepares_drain (h : s.Coherent) (hd : s.due = [])
    {rest : Action Context Context.Reply}
    (hrest : ∀ u, u.Coherent → u.due = [] → u.queue.pending = [] → Leads P u rest Rests) :
    Leads P s (do
      let ready ← (do Context.observe; Context.drainQueue)
      pure (ready, rest)) (Prepares P) := by
  refine (h.drainQueue hd).bind ?_ (by rintro e t - ⟨hr, -⟩; cases hr)
  rintro ready t hmoves ⟨hr, hpending, ho⟩
  obtain rfl : ready = t.due := Except.ok.inj hr
  refine ⟨_, t, rfl, .refl, .inl ⟨_, rest, rfl, rfl, fun _ => ho,
    fun u hmoves' hdue hqueue _ => ?_⟩⟩
  exact hrest u ((h.moves hmoves).moves hmoves') hdue (by rw [hqueue, hpending])

/-- The host waits for its own access. -/
theorem steady_blocking (e : Element) (v : VertexId) (stream : StreamId) :
    Steady P (do
      if e.work.blocksHost then
        if (← Context.element v).isTerminal then pure ()
        else
          Context.onDevice (Device.syncStream stream)
          Context.observe
      pure (.vertex v) : Action Context Context.Reply) := by
  cases e.work.blocksHost with
  | false => exact .pure _
  | true =>
      refine .bind (.element v) fun el => ?_
      cases el.isTerminal with
      | true => exact .pure _
      | false => exact .bind (.syncStream stream) fun _ => .bind .observe fun _ => .pure _

/-- **Registering prepares an element** that is not in use, if a stream can be had for it. -/
theorem Coherent.admission (h : s.Coherent) (hd : s.due = []) {e : Element}
    (he : e.Unused ∨ e.id.isSome = true) (hP : e.id = none → ∀ t, Moves P s t → P.admits t e) :
    Leads P s (Context.admission e) (Prepares P) := by
  refine (leads_observe h).bind ?_ (by rintro e t - ⟨hr, -⟩; cases hr)
  rintro _ t hmoves ⟨-, gone, hnotices, ho⟩
  have ht := h.moves hmoves
  have hdue : t.due = [] := hnotices.due.trans hd
  rcases he with hu | hid
  · refine (ht.enroll ho hu (hP hu.id t hmoves)).bind ?_ ?_
    · rintro ⟨v, stream, ready⟩ u hmoves' (⟨stream', ready', heq, hready, -, hu', -⟩ | ⟨n, hr, -⟩)
      · obtain ⟨rfl, rfl, rfl⟩ : v = t.dag.vertices.length ∧ stream = stream' ∧ ready = ready' := by
          simpa using heq
        refine ⟨_, u, rfl, .refl, .inl ⟨ready, _, rfl, ?_, fun _ => hu',
          fun w hmoves'' hw _ _ => ?_⟩⟩
        · rw [hready, hdue, List.nil_append]
        · exact steady_blocking e _ stream w ((ht.moves hmoves').moves hmoves'') hw
      · cases hr
    · rintro error u - (⟨stream', ready', heq, -⟩ | ⟨n, hr, haway⟩)
      · cases heq
      · refine .inr ⟨_, rfl, haway.due.trans hdue, ?_⟩
        rw [Except.error.inj hr]
        exact id
  · exact ⟨_, t, Action.run_bind_error (Action.run_bind_error (run_append_error hid)), .refl,
      .inr ⟨_, rfl, hdue, id⟩⟩

theorem steady_verdict (v : VertexId) :
    Steady P (do
      let e ← Context.element v
      if e.isTerminal then pure ()
      else
        match e.stream with
        | some stream => Context.onDevice (Device.syncStream stream)
        | none => pure ()
        Context.observe
      let e ← Context.element v
      Action.ofExcept (Context.verdict v e)
      pure .done : Action Context Context.Reply) := by
  have hverdict : Steady P (do
      let e ← Context.element v
      Action.ofExcept (Context.verdict v e)
      pure .done : Action Context Context.Reply) := by
    refine .bind (.element v) fun e => .bind (.ofExcept fun error hv => ?_) fun _ => .pure _
    unfold Context.verdict at hv
    split at hv <;> cases hv <;> exact id
  refine .bind (.element v) fun e => ?_
  cases e.isTerminal with
  | true => exact hverdict
  | false =>
      cases e.stream with
      | none => exact .bind .observe fun _ => hverdict
      | some stream => exact .bind (.syncStream stream) fun _ => .bind .observe fun _ => hverdict

/-- **Every command that disturbs nothing is prepared by moves.** -/
theorem Coherent.prepare (h : s.Coherent) (hd : s.due = []) {command : Context.Command}
    (hc : command.Contained) (hcalm : command.isCalm = true)
    (hP : ∀ e, command.Submits s.toContext e → ∀ t, Moves P s t → P.admits t e) :
    Leads P s (Context.prepare command) (Prepares P) := by
  cases command with
  | register e => exact h.admission hd hc fun hid => hP e ⟨rfl, hid⟩
  | launch id config values =>
      cases hk : s.kernels.get? id with
      | none =>
          refine ⟨_, s, ?_, .refl, .inr ⟨.error (.unknownKernel s!"#{id}"), rfl, hd, fun x => x⟩⟩
          rw [Context.prepare, Action.run_gets_bind, hk]
          rfl
      | some k =>
          rw [Leads, Context.prepare, Action.run_gets_bind, hk]
          cases hl : k.launch config values with
          | error error =>
              refine ⟨_, s, ?_, .refl, .inr ⟨.error error, rfl, hd, Kernel.launch_error hl⟩⟩
              simp only [hl]
              rfl
          | ok out =>
              obtain ⟨e, k'⟩ := out
              have hm : Move P s { s with kernels := s.kernels.insert id k' } :=
                .adjust (adjusts_registry s _ _ _)
              have hu : e.Unused := Kernel.launch_new hl ▸ Element.unused_new _ _
              obtain ⟨r, t, hrun, hmoves, ht⟩ := (h.move hm).admission hd (.inl hu)
                fun _ t hmoves => hP e ⟨k, k', hk, hl⟩ t (.head hm hmoves)
              refine ⟨r, t, ?_, .head hm hmoves, ht⟩
              simp only [hl]
              exact hrun
  | access a write =>
      have hm : Move P s { s with arrays := s.arrays.insertNew a.buffer a } :=
        .adjust (adjusts_registry s _ _ _)
      obtain ⟨r, t, hrun, hmoves, ht⟩ := (h.move hm).admission hd (.inl (Element.unused_new _ _))
        fun _ t hmoves => hP _ rfl t (.head hm hmoves)
      exact ⟨r, t, hrun, .head hm hmoves, ht⟩
  | flush => exact h.prepares_drain hd fun u hu hdue _ => Steady.pure _ u hu hdue
  | wait v => exact h.prepares_drain hd fun u hu hdue _ => steady_verdict v u hu hdue
  | synchronize =>
      refine h.prepares_drain hd fun u hu hdue _ => ?_
      exact ((hu.runAll hdue).rests fun r t hq => ⟨⟨_, hq.1⟩, hq.2.1⟩).reply _
  | cleanup =>
      rw [Leads, Context.prepare, Action.run_gets_bind]
      cases hwork : (s.toContext.hasPending || !s.running.isEmpty) with
      | true =>
          refine h.prepares_drain hd fun u hu hdue hpending => ?_
          refine (hu.runAll hdue).bind ?_ (by rintro e t - ⟨hr, -⟩; cases hr)
          rintro _ w hmoves ⟨-, hdue', hqueue, hrunning⟩
          exact (((hu.moves hmoves).giveBack hdue' (by rw [hqueue, hpending]) hrunning).rests
            fun r t hq => ⟨⟨_, hq.1⟩, hq.2⟩).reply _
      | false =>
          simp only [Context.hasPending, Bool.or_eq_false_iff, Bool.not_eq_false',
            List.isEmpty_iff] at hwork
          refine prepares_nothing hd ?_
          exact ((h.giveBack hd hwork.1 hwork.2).rests fun r t hq => ⟨⟨_, hq.1⟩, hq.2⟩).reply _
  | allocate type length => exact prepares_nothing hd ((h.allocateArray hd type length).reply _)
  | registerArray a =>
      exact prepares_nothing hd ⟨_, { s with arrays := s.arrays.insertNew a.buffer a }, rfl,
        moves_adjust (adjusts_registry s _ _ _), hd, .ok _⟩
  | declare name signature =>
      exact prepares_nothing hd ((leads_declareKernel hd name signature).reply _)
  | registerKernel k =>
      exact prepares_nothing hd ⟨_, { s with kernels := s.kernels.insertNew k.id k }, rfl,
        moves_adjust (adjusts_registry s _ _ _), hd, .ok _⟩
  | state v =>
      exact prepares_nothing hd ((Steady.bind .observe fun _ =>
        .bind (.element v) fun _ => .pure _).bind (fun _ => .pure _) s h hd)
  | isActive =>
      exact prepares_nothing hd ((Steady.bind .observe fun _ => .gets _).bind
        (fun _ => .pure _) s h hd)
  | hasPending => exact prepares_nothing hd ⟨_, s, rfl, .refl, hd, .ok _⟩
  | summary => exact prepares_nothing hd ⟨_, s, rfl, .refl, hd, .ok _⟩
  | device command =>
      refine prepares_nothing hd (Leads.reply ?_ _)
      refine (h.device hc (by simpa [Context.Command.isCalm] using hcalm)).imp ?_
      rintro r t - ⟨hdue, hr⟩
      exact ⟨hdue.trans hd, hr⟩

/-- What is prepared can be carried out: the vertices are handed over, and then the rest is done. -/
theorem Prepared.carryOut {t : Stage} {ready : List VertexId} {rest : Action Context Context.Reply}
    (hp : Prepared P t ready rest) (h : t.Coherent) (hI : P.HandsAll t.toContext ready) :
    ∃ u r w, (Action.each Context.issueVertex ready).run t.toContext = (.ok (), Stage.toContext u) ∧
      Moves P t u ∧ u.due = [] ∧ u.queue = t.queue ∧
      u.device.calls = t.device.calls ++ Context.handovers (t.toContext.turnsFrom ready) ∧
      rest.run u.toContext = (r, Stage.toContext w) ∧ Moves P u w ∧ Rests r w := by
  cases ready with
  | nil =>
      obtain ⟨r, w, hrest, hmoves, hrests⟩ := hp.rest t .refl hp.due rfl fun _ => rfl
      exact ⟨t, r, w, rfl, .refl, hp.due, rfl, (List.append_nil _).symm, hrest, hmoves, hrests⟩
  | cons v more =>
      have hdue : t.due = (v :: more) ++ [] := by simpa using hp.due
      obtain ⟨_, u, hissue, hmoves, rfl, hdue', hqueue, -, hcalls⟩ := h.issueAll hp.observed hdue hI
      obtain ⟨r, w, hrest, hmoves', hrests⟩ := hp.rest u hmoves hdue' hqueue (by simp)
      exact ⟨u, r, w, hissue, hmoves, hdue', hqueue, hcalls, hrest, hmoves', hrests⟩

/-- **A command that disturbs nothing is a sequence of moves**, ends where nothing is due, and
never finds the device stuck. -/
theorem Coherent.perform (h : s.Coherent) (hd : s.due = []) {command : Context.Command}
    (hc : command.Contained) (hcalm : command.isCalm = true)
    (hP : ∀ e, command.Submits s.toContext e → ∀ t, Moves P s t → P.admits t e)
    (hI : ∀ v t, Context.IssuePoint s.toContext command v (Stage.toContext t) → P.hands t v) :
    Leads P s (Context.perform command) Rests := by
  obtain ⟨r, t, hrun, hmoves, hprepares⟩ := h.prepare hd hc hcalm hP
  rw [Leads, Context.perform_eq_prepare]
  rcases hprepares with ⟨ready, rest, rfl, hprepared⟩ | ⟨e, rfl, hdue, hstall⟩
  · obtain ⟨u, r, w, hissue, hmoves₁, -, -, -, hrest, hmoves₂, hrests⟩ :=
      hprepared.carryOut (h.moves hmoves) fun before w after u heq hbefore =>
        hI w u ⟨before, after, rest, Stage.toContext t, by rw [hrun, heq], hbefore⟩
    refine ⟨r, w, ?_, hmoves.trans (hmoves₁.trans hmoves₂), hrests⟩
    rw [Action.run_bind_ok hrun]
    exact (Action.run_bind_ok hissue).trans hrest
  · exact ⟨_, t, Action.run_bind_error hrun, hmoves, hdue, .error hstall⟩

/-- A command that hands over a vertex does not disturb the device. -/
theorem isCalm_of_issuePoint {c₀ c : Context} {command : Context.Command} {v : VertexId}
    (h : Context.IssuePoint c₀ command v c) : command.isCalm = true := by
  cases command with
  | device command =>
      obtain ⟨before, after, rest, start, hrun, -⟩ := h
      have : ([] : List VertexId) = before ++ v :: after :=
        congrArg Prod.fst (Except.ok.inj (congrArg Prod.fst hrun))
      simp at this
  | _ => rfl

/-- **Where a vertex is to be handed over**, it is the first that is due, the context has looked
at the device, and moves lead there and on to the end of the command. -/
theorem Coherent.issuePoint {P : Stage → Element → Prop} (h : s.Coherent) (hd : s.due = [])
    {command : Context.Command} (hc : command.Contained)
    (hP : ∀ e, command.Submits s.toContext e → ∀ t, Moves P s t → P t e) {v : VertexId}
    {c : Context} (hi : Context.IssuePoint s.toContext command v c) :
    ∃ t after, Stage.toContext t = c ∧ Moves P s t ∧ t.due = v :: after ∧ t.Observed ∧
      ∃ r u, (Context.perform command).run s.toContext = (r, Stage.toContext u) ∧
        Moves P t u ∧ u.due = [] := by
  have hcalm := isCalm_of_issuePoint hi
  obtain ⟨before, after, rest, start, hprepare, hbefore⟩ := hi
  obtain ⟨r, t, hrun, hmoves, hprepares⟩ := h.prepare hd hc hcalm hP
  obtain ⟨rfl, rfl⟩ : r = .ok (before ++ v :: after, rest) ∧ Stage.toContext t = start :=
    Prod.mk.inj (hrun.symm.trans hprepare)
  obtain ⟨ready, rest', heq, hprepared⟩ | ⟨e, hr, -⟩ := hprepares
  · obtain ⟨rfl, rfl⟩ : before ++ v :: after = ready ∧ rest = rest' := by simpa using heq
    have ht := h.moves hmoves
    have ho := hprepared.observed (by simp)
    obtain ⟨r₁, t₁, hrun₁, hmoves₁, rfl, hdue₁, hqueue₁, ho₁, -⟩ :=
      ht.issueAll (P := P) (fun _ => ho) hprepared.due fun _ _ _ _ _ _ => trivial
    obtain rfl : Stage.toContext t₁ = c := (Prod.mk.inj (hrun₁.symm.trans hbefore)).2
    have h₁ := ht.moves hmoves₁
    have hrest : t₁.due = (v :: after) ++ [] := by simpa using hdue₁
    obtain ⟨r₂, t₂, hrun₂, hmoves₂, rfl, hdue₂, hqueue₂, -⟩ :=
      h₁.issueAll (P := P) (fun _ => ho₁ ho) hrest fun _ _ _ _ _ _ => trivial
    obtain ⟨r, u, hrun', hmoves₃, hdue, -⟩ := hprepared.rest t₂ (hmoves₁.trans hmoves₂) hdue₂
      (hqueue₂.trans hqueue₁) (by simp)
    refine ⟨t₁, after, rfl, hmoves.trans hmoves₁, hdue₁, ho₁ ho, r, u, ?_, hmoves₂.trans hmoves₃,
      hdue⟩
    rw [Context.perform_eq_prepare, Action.run_bind_ok hrun]
    simp only [Action.each_append, bind_assoc]
    rw [Action.run_bind_ok hrun₁, Action.run_bind_ok hrun₂, hrun']
  · cases hr

end Stage

end LaunchGraph
