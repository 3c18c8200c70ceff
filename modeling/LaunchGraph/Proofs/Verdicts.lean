import LaunchGraph.Proofs.Submission

/-!
# Verdicts — the check of a launch foresees the call

When a launch is checked there are no arrays and no kernels yet: numbered stand-ins are bound to a
kernel made for the occasion.  When the launch is submitted, the arrays of that name have been
allocated and the kernel has been declared, and much may have happened since.  The verdict is the
same, down to the first value that does not fit (`Workload.launch_check_agrees`).

Two things carry this.  The values that a call passes are like the stand-ins that were checked
(`Workload.exists_reads`), and that is all that binding looks at.  And the kernel that is known
under the number of a declared one keeps its name and its parameters, whatever is asked of the
context (`Context.Supplies.after`).
-/

namespace LaunchGraph

/-! ### What the arguments of a call are -/

namespace Kernel

variable {name : String} {index : Nat} {ps : List Parameter} {values : List CallValue}

/-- Each argument of a call is what its parameter makes of its value. -/
theorem getElem?_of_bindFrom {arguments : List Argument}
    (h : bindFrom name index ps values = .ok arguments) (i : Nat) :
    arguments[i]? = ps[i]?.bind fun p => values[i]?.bind p.accept? := by
  fun_induction bindFrom name index ps values generalizing arguments i with
  | case1 => cases h
  | case2 index p ps v vs a ha as has ih =>
      obtain rfl := Except.ok.inj h
      cases i with
      | zero => simp [ha]
      | succ i => simpa using ih has i
  | case3 => cases h
  | case4 ps index values hnone =>
      obtain rfl := Except.ok.inj h
      cases ps with
      | nil => rfl
      | cons p ps =>
          cases values with
          | nil => simp
          | cons v vs => exact (hnone p ps v vs rfl rfl).elim

theorem getElem?_of_bind {k : Kernel} {arguments : List Argument}
    (h : k.bind values = .ok arguments) (i : Nat) :
    arguments[i]? = k.parameters[i]?.bind fun p => values[i]?.bind p.accept? := by
  unfold bind at h
  split at h
  · exact getElem?_of_bindFrom h i
  · cases h

end Kernel

/-! ### Values for arguments -/

/-- The value can be an argument of a launch: the name of a declared array, or a number. -/
def Toml.Value.IsArgument (arrays : Table String ArraySpec) : Toml.Value → Prop
  | .string name => arrays.contains name = true
  | .int _ | .float _ | .bool _ => True
  | _ => False

namespace Workload

variable {specs : Table String ArraySpec} {allocated : List (String × DeviceArray)}

/-- An argument as it is written, and the value that it passes to a kernel once the arrays are
allocated. -/
inductive Passes (allocated : List (String × DeviceArray)) : Toml.Value → CallValue → Prop where
  | array {name : String} {a : DeviceArray} (h : Table.lookup name allocated = some a) :
      Passes allocated (.string name) (.array a.buffer a.type)
  | int (i : Int) : Passes allocated (.int i) (.int i)
  | float (x : Binary64) : Passes allocated (.float x) (.float x)
  | bool (b : Bool) : Passes allocated (.bool b) (.bool b)

/-- The arguments `l` of the launch at `index`, from position `slot` on, are read as `args`.  Bound to
parameters are `standIns` when the launch is checked and `values` when it is submitted. -/
structure Reads (specs : Table String ArraySpec) (allocated : List (String × DeviceArray))
    (index slot : Nat) (l : List Toml.Value) (args : List StepArgument)
    (standIns values : List CallValue) : Prop where
  read : l.mapM (WorkloadFile.checkArgument specs index) = .ok args
  checked : WorkloadFile.standIns specs index slot args = .ok standIns
  submitted : callValues allocated args = .ok values
  alike : List.Forall₂ CallValue.Alike standIns values
  passes : List.Forall₂ (Passes allocated) l values

namespace Reads

variable {index slot : Nat} {l : List Toml.Value} {args : List StepArgument}
  {standIns values : List CallValue}

/-- A number is its own stand-in. -/
theorem number (h : Reads specs allocated index (slot + 1) l args standIns values)
    {value : Toml.Value} {arg : StepArgument} {v : CallValue}
    (harg : WorkloadFile.checkArgument specs index value = .ok arg)
    (hv : ∀ find, arg.resolve find = .ok v) (hpasses : Passes allocated value v) :
    Reads specs allocated index slot (value :: l) (arg :: args) (v :: standIns) (v :: values) where
  read := by rw [List.mapM_cons, harg, h.read]; rfl
  checked := by rw [WorkloadFile.standIns, hv, h.checked]; rfl
  submitted := by rw [callValues, hv, h.submitted]; rfl
  alike := .cons (.refl v) h.alike
  passes := .cons hpasses h.passes

/-- The stand-in for an array has its type. -/
theorem array (h : Reads specs allocated index (slot + 1) l args standIns values) {name : String}
    {spec : ArraySpec} {a : DeviceArray} (hspec : specs.get? name = some spec)
    (ha : Table.lookup name allocated = some a) (htype : a.type = spec.type) :
    Reads specs allocated index slot (.string name :: l) (.array name :: args)
      (.array slot spec.type :: standIns) (.array a.buffer a.type :: values) where
  read := by
    rw [List.mapM_cons, h.read, WorkloadFile.checkArgument,
      if_pos (Table.contains_iff.mpr ⟨spec, hspec⟩)]
    rfl
  checked := by rw [WorkloadFile.standIns, h.checked, StepArgument.resolve, hspec]; rfl
  submitted := by rw [callValues, h.submitted, StepArgument.resolve, findArray, ha]; rfl
  alike := .cons (htype ▸ .array _ _ _) h.alike
  passes := .cons (.array ha) h.passes

end Reads

/-- **The values that are passed are like the stand-ins that were checked.** -/
theorem exists_reads
    (hfind : ∀ name spec, specs.get? name = some spec →
      ∃ a, Table.lookup name allocated = some a ∧ a.type = spec.type)
    {l : List Toml.Value} (h : ∀ value ∈ l, value.IsArgument specs) (index slot : Nat) :
    ∃ args standIns values, Reads specs allocated index slot l args standIns values := by
  induction l generalizing slot with
  | nil => exact ⟨[], [], [], rfl, rfl, rfl, .nil, .nil⟩
  | cons value rest ih =>
      obtain ⟨hvalue, hrest⟩ := List.forall_mem_cons.mp h
      obtain ⟨args, standIns, values, hreads⟩ := ih hrest (slot + 1)
      cases value with
      | string name =>
          obtain ⟨spec, hspec⟩ := Table.contains_iff.mp hvalue
          obtain ⟨a, ha, htype⟩ := hfind name spec hspec
          exact ⟨_, _, _, hreads.array hspec ha htype⟩
      | int i => exact ⟨_, _, _, hreads.number rfl (fun _ => rfl) (.int i)⟩
      | float x => exact ⟨_, _, _, hreads.number rfl (fun _ => rfl) (.float x)⟩
      | bool b => exact ⟨_, _, _, hreads.number rfl (fun _ => rfl) (.bool b)⟩
      | badNumber | datetime | array | table => exact hvalue.elim

end Workload

/-! ### Arrays and kernels that were made -/

/-- One step per item, in a run that succeeds: what each establishes holds at the end, if the later
ones leave it alone. -/
theorem Action.forall₂_of_run_collect {σ α β : Type} {f : β → Action σ α} {R : σ → β → α → Prop}
    {l : List β} (hnew : ∀ b ∈ l, ∀ s a t, (f b).run s = (.ok a, t) → R t b a)
    (hold : ∀ b ∈ l, ∀ s a t, (f b).run s = (.ok a, t) → ∀ b' a', R s b' a' → R t b' a')
    {s t : σ} {as : List α} (h : (collect f l).run s = (.ok as, t)) :
    List.Forall₂ (R t) l as ∧ ∀ b a, R s b a → R t b a := by
  induction l generalizing s as with
  | nil =>
      obtain ⟨has, rfl⟩ := Prod.mk.inj h
      obtain rfl := Except.ok.inj has
      exact ⟨.nil, fun _ _ hr => hr⟩
  | cons b rest ih =>
      obtain ⟨hnew, hnewRest⟩ := List.forall_mem_cons.mp hnew
      obtain ⟨hold, holdRest⟩ := List.forall_mem_cons.mp hold
      obtain ⟨a, u, ha, h⟩ := exists_run_of_bind h
      obtain ⟨as', t', has, h⟩ := exists_run_of_bind h
      obtain ⟨has', rfl⟩ := Prod.mk.inj h
      obtain rfl := Except.ok.inj has'
      obtain ⟨hrest, hkept⟩ := ih hnewRest holdRest has
      exact ⟨.cons (hkept b a (hnew s a u ha)) hrest,
        fun b' a' hr => hkept b' a' (hold s a u ha b' a' hr)⟩

/-- One step per item, where each can be taken and keeps `I`. -/
theorem Action.exists_run_collect {σ α β : Type} {f : β → Action σ α} {I : σ → Prop} {l : List β}
    (hf : ∀ b ∈ l, ∀ s, I s → ∃ a t, (f b).run s = (.ok a, t) ∧ I t) {s : σ} (hs : I s) :
    ∃ as t, (collect f l).run s = (.ok as, t) ∧ I t := by
  induction l generalizing s with
  | nil => exact ⟨[], s, rfl, hs⟩
  | cons b rest ih =>
      obtain ⟨hb, hrest⟩ := List.forall_mem_cons.mp hf
      obtain ⟨a, u, ha, hu⟩ := hb s hs
      obtain ⟨as, t, has, ht⟩ := ih hrest hu
      exact ⟨a :: as, t, by rw [run_collect_cons, run_bind_ok ha, run_bind_ok has]; rfl, ht⟩

/-- A request that succeeds is a step of the context that does. -/
theorem Session.run_of_request {α : Type} {x : Action Context α} {s t : Session} {a : α}
    (h : (request x).run s = (.ok a, t)) : x.run s.context = (.ok a, t.context) := by
  simp only [Action.run, request] at h ⊢
  split at h
  · split at h
    · cases h
    · next hx =>
      obtain ⟨rfl, rfl⟩ := Prod.mk.inj h
      exact hx
  · cases h

/-- The same for a request whose result is kept under a name. -/
theorem Session.run_of_named {α : Type} {x : Action Context α} {name : String} {s t : Session}
    {named : String × α}
    (h : (do let a ← request x; pure (name, a) : Action Session (String × α)).run s =
      (.ok named, t)) :
    named.1 = name ∧ x.run s.context = (.ok named.2, t.context) := by
  obtain ⟨a, u, hrun, h⟩ := Action.exists_run_of_bind h
  obtain ⟨hnamed, rfl⟩ := Prod.mk.inj h
  obtain rfl := Except.ok.inj hnamed
  exact ⟨rfl, run_of_request hrun⟩

namespace Context

variable {c c' : Context} {declared : String × KernelSpec} {named : String × KernelId}

/-- An array that is allocated has the type that was asked for. -/
theorem type_of_allocateArray {type : ElementType} {length : Nat} {a : DeviceArray}
    (h : (allocateArray type length).run c = (.ok a, c')) : a.type = type := by
  have hdevice : (DeviceArray.allocate type length).Keeps (fun _ => ()) fun a => a.type = type := by
    have hcall : (Device.allocate (type.size * length)).Keeps fun _ => () :=
      fun _ => ⟨rfl, fun _ _ => trivial⟩
    exact .fail_if (.fail_if (hcall.seq fun _ => .pure rfl))
  have hcontext : (allocateArray type length).Keeps (fun _ => ()) fun a => a.type = type := by
    have hzoom : (onDevice (DeviceArray.allocate type length)).Keeps (fun _ => ())
        fun a => a.type = type :=
      .zoom (hdevice.zoom (fun _ _ => rfl) fun _ => rfl) (fun _ _ => rfl) fun _ => rfl
    exact hzoom.bind fun a ha => .modify_seq (fun _ => rfl) (.pure ha)
  exact (hcontext c).2 a (congrArg Prod.fst h)

/-- The kernel that was declared is known under its number, which is not given out again. -/
structure Supplies (c : Context) (declared : String × KernelSpec) (named : String × KernelId) :
    Prop where
  name : named.1 = declared.1
  given : named.2 < c.nextKernel
  kernel : ∃ k, c.kernels.get? named.2 = some k ∧ k.id = named.2 ∧ k.name = declared.1 ∧
    k.parameters = declared.2.parameters

/-- Whatever a command makes of the kernels, it takes none away. -/
theorem Supplies.restocks (h : c.Supplies declared named) {command : Command}
    (hr : c.Restocks command c') : c'.Supplies declared named := by
  obtain ⟨k, hk, hid, hname, hparameters⟩ := h.kernel
  refine ⟨h.name, Nat.lt_of_lt_of_le h.given hr.nextKernel_le, ?_⟩
  by_cases hl : ∃ config values, command = .launch named.2 config values
  · obtain ⟨config, values, rfl⟩ := hl
    cases hr with
    | keep hkernels => exact ⟨k, hkernels ▸ hk, hid, hname, hparameters⟩
    | launch hk' hkernels =>
        obtain rfl := Option.some.inj (hk.symm.trans hk')
        refine ⟨{ k with launchCount := k.launchCount + 1 }, ?_, hid, hname, hparameters⟩
        rw [hkernels, Table.get?_insert, if_pos rfl]
  · refine ⟨k, hr.get?_eq hk (fun config values heq => ?_) fun _ _ _ => h.given, hid, hname,
      hparameters⟩
    exact hl ⟨config, values, heq⟩

/-- **A kernel that was declared stays there**, whatever is asked of the context. -/
theorem Supplies.after (h : c.Supplies declared named) (more : List Command) :
    (c.after more).Supplies declared named := by
  induction more generalizing c with
  | nil => exact h
  | cons command rest ih => exact ih (h.restocks (restocks_perform c command))

theorem restocks_of_declareKernel {name signature : String} {id : KernelId}
    (h : (declareKernel name signature).run c = (.ok id, c')) :
    c.Restocks (.declare name signature) c' := by
  have hr := restocks_declare c name signature
  rwa [perform, Action.snd_run_bind_pure, h] at hr

/-- A kernel that is declared is there. -/
theorem supplies_of_declareKernel {name : String} {spec : KernelSpec} {id : KernelId}
    (hparse : Signature.parse spec.signature = .ok spec.parameters)
    (h : (declareKernel name spec.signature).run c = (.ok id, c')) :
    c'.Supplies (name, spec) (name, id) := by
  have hrun := Stage.run_declareKernel (s := { toContext := c })
    (Kernel.new_of_parse hparse c.nextKernel name)
  obtain ⟨hid, rfl⟩ := Prod.mk.inj (h.symm.trans hrun)
  obtain rfl := Except.ok.inj hid
  refine ⟨rfl, Nat.lt_succ_self _, ⟨c.nextKernel, name, spec.signature, spec.parameters, 0⟩, ?_, rfl,
    rfl, rfl⟩
  simp [Stage.withKernel]

end Context

namespace Workload

variable {w : Workload} {s t : Session}

/-- The arrays that were allocated are those that are declared. -/
theorem named_of_allocateArrays {allocated : List (String × DeviceArray)}
    (h : w.allocateArrays.run s = (.ok allocated, t)) :
    List.Forall₂ ArraySpec.Names w.arrays.entries allocated := by
  refine (Action.forall₂_of_run_collect (R := fun _ => ArraySpec.Names) ?_
    (fun _ _ _ _ _ _ _ _ hr => hr) h).1
  rintro ⟨name, spec⟩ - s a t hrun
  obtain ⟨hname, hrun⟩ := Session.run_of_named hrun
  exact ⟨hname, Context.type_of_allocateArray hrun⟩

/-- The kernels that were declared are there. -/
theorem supplies_of_declareKernels
    (hkernels : ∀ name spec, (name, spec) ∈ w.kernels.entries →
      Signature.parse spec.signature = .ok spec.parameters)
    {ids : List (String × KernelId)} (h : w.declareKernels.run s = (.ok ids, t)) :
    List.Forall₂ t.context.Supplies w.kernels.entries ids := by
  refine (Action.forall₂_of_run_collect (R := fun s => s.context.Supplies) ?_ ?_ h).1
  · rintro ⟨name, spec⟩ hmem s ⟨_, id⟩ t hrun
    obtain ⟨rfl, hrun⟩ := Session.run_of_named hrun
    exact Context.supplies_of_declareKernel (hkernels _ spec hmem) hrun
  · rintro ⟨name, spec⟩ hmem s ⟨_, id⟩ t hrun declared named hsupplies
    obtain ⟨rfl, hrun⟩ := Session.run_of_named hrun
    exact hsupplies.restocks (Context.restocks_of_declareKernel hrun)

/-- On a device without faults, arrays that were checked can be allocated. -/
theorem exists_allocateArrays
    (harrays : ∀ name spec, (name, spec) ∈ w.arrays.entries →
      spec.type ≠ .void ∧ spec.type.size * spec.length < addressSpace)
    (hs : s.phase = .serving) (hfaults : s.context.device.faults = []) :
    ∃ allocated t, w.allocateArrays.run s = (.ok allocated, t) ∧ t.phase = .serving ∧
      t.context.device.faults = [] := by
  refine Action.exists_run_collect
    (I := fun s : Session => s.phase = .serving ∧ s.context.device.faults = []) ?_ ⟨hs, hfaults⟩
  rintro ⟨name, spec⟩ hmem ⟨c, _⟩ ⟨rfl, hfaults⟩
  obtain ⟨hvoid, hsize⟩ := harrays name spec hmem
  have hrun := Stage.run_allocateArray (s := { toContext := c }) hfaults hvoid hsize
  exact ⟨_, _, Action.run_bind_ok (Session.run_request hrun), rfl, hfaults⟩

/-- Kernels that were checked can be declared. -/
theorem exists_declareKernels
    (hkernels : ∀ name spec, (name, spec) ∈ w.kernels.entries →
      Signature.parse spec.signature = .ok spec.parameters) (hs : s.phase = .serving) :
    ∃ ids t, w.declareKernels.run s = (.ok ids, t) ∧ t.phase = .serving := by
  refine Action.exists_run_collect (I := fun s : Session => s.phase = .serving) ?_ hs
  rintro ⟨name, spec⟩ hmem ⟨c, _⟩ rfl
  have hk := Kernel.new_of_parse (hkernels name spec hmem) c.nextKernel name
  have hrun := Stage.run_declareKernel (s := { toContext := c }) hk
  exact ⟨_, _, Action.run_bind_ok (Session.run_request hrun), rfl⟩

end Workload

/-! ### The verdict -/

/-- Binding the stand-ins decides the check of a launch. -/
theorem WorkloadFile.checkLaunch_eq {arrays : Table String ArraySpec}
    {kernels : Table String KernelSpec} {index : Nat} {name : String} {entry : LaunchEntry}
    {spec : KernelSpec} {k : Kernel} {args : List StepArgument} {standIns : List CallValue}
    (hspec : kernels.get? name = some spec) (hgrid : entry.grid ≠ 0) (hblock : entry.block ≠ 0)
    (hargs : entry.args.mapM (checkArgument arrays index) = .ok args)
    (hstandIns : WorkloadFile.standIns arrays index 0 args = .ok standIns)
    (hk : Kernel.new 0 name spec.signature = .ok k) :
    checkLaunch arrays kernels index name entry = (k.bind standIns).map fun _ =>
      .launch name args { grid := entry.grid, block := entry.block } := by
  have hshape : ¬ (entry.grid = 0 ∨ entry.block = 0) := by simp [hgrid, hblock]
  simp only [checkLaunch, hspec, if_neg hshape, hargs, hk, bind, Except.bind, hstandIns]
  cases k.bind standIns <;> rfl

namespace Context

/-- The launch of kernel `k` with `config` and `values` at context `c` gets the verdict that the
check of a step gave, and the step is submitted as this launch. -/
structure Agrees (c : Context) (allocated : List (String × DeviceArray))
    (ids : List (String × KernelId)) (k : Kernel) (config : LaunchConfig)
    (values : List CallValue) (checked : Except Error Step) : Prop where
  ok_iff : (∃ step, checked = .ok step) ↔ ∃ arguments, k.bind values = .ok arguments
  error_iff : ∀ error, checked = .error error ↔ k.bind values = .error error
  /-- The launch is refused with the error of the check, and leaves everything as it is. -/
  refused : ∀ error, checked = .error error → k.Misfit values error ∧
    (launch k.id config values).run c = (.error (.error error), c)
  /-- The launch is counted and then registered, with the arguments that the parameters make of the
  values. -/
  accepted : ∀ step, checked = .ok step → ∃ args arguments,
    step = .launch k.name args config ∧
    Workload.callValues allocated args = .ok values ∧
    Workload.submit allocated ids step = Session.request (launch k.id config values) ∧
    k.bind values = .ok arguments ∧
    (∀ i : Nat, arguments[i]? = k.parameters[i]?.bind fun p => values[i]?.bind p.accept?) ∧
    (launch k.id config values).run c =
      (register (.new (.launch k.id k.name config) arguments)).run { c with
        kernels := c.kernels.insert k.id { k with launchCount := k.launchCount + 1 } }

/-- Binding decides a launch. -/
theorem run_launch {c : Context} {k : Kernel} (hk : c.kernels.get? k.id = some k)
    (config : LaunchConfig) (values : List CallValue) :
    (launch k.id config values).run c =
      match k.bind values with
      | .ok arguments => (register (.new (.launch k.id k.name config) arguments)).run { c with
          kernels := c.kernels.insert k.id { k with launchCount := k.launchCount + 1 } }
      | .error error => (.error (.error error), c) := by
  rw [launch, Action.run_gets_bind, hk]
  cases hb : k.bind values with
  | ok arguments =>
      simp only [Kernel.launch, hb]
      rfl
  | error error =>
      simp only [Kernel.launch, hb]
      rfl

end Context

namespace Workload

variable {w : Workload} {allocated : List (String × DeviceArray)} {ids : List (String × KernelId)}

/-- The verdicts agree where the stand-ins are like the values, and the kernel is as declared. -/
theorem Reads.agrees {index : Nat} {entry : LaunchEntry} {args : List StepArgument}
    {standIns values : List CallValue}
    (h : Reads w.arrays allocated index 0 entry.args args standIns values) {c : Context}
    {k : Kernel} (hk : c.kernels.get? k.id = some k) (hid : Table.lookup k.name ids = some k.id)
    {spec : KernelSpec} (hspec : w.kernels.get? k.name = some spec)
    (hparse : Signature.parse spec.signature = .ok spec.parameters)
    (hparameters : k.parameters = spec.parameters) (hgrid : entry.grid ≠ 0)
    (hblock : entry.block ≠ 0) :
    c.Agrees allocated ids k { grid := entry.grid, block := entry.block } values
      (WorkloadFile.checkLaunch w.arrays w.kernels index k.name entry) := by
  obtain ⟨k₀, hk₀, hname₀, hparameters₀⟩ : ∃ k₀, Kernel.new 0 k.name spec.signature = .ok k₀ ∧
      k₀.name = k.name ∧ k₀.parameters = k.parameters :=
    ⟨_, Kernel.new_of_parse hparse 0 k.name, rfl, hparameters.symm⟩
  have hcheck := WorkloadFile.checkLaunch_eq hspec hgrid hblock h.read h.checked hk₀
  have hrun := Context.run_launch hk { grid := entry.grid, block := entry.block } values
  have halike : List.Forall₂ CallValue.Alike values standIns :=
    List.Forall₂.flip (h.alike.imp fun _ _ hv => hv.symm)
  cases hb : k.bind values with
  | error error =>
      rw [hb] at hrun
      rw [hcheck, Kernel.bind_error_of_alike hname₀ hparameters₀ halike hb, Except.map]
      constructor
      case ok_iff => simp [hb]
      case error_iff => simp [hb]
      case refused =>
        intro e he
        obtain rfl := Except.error.inj he
        exact ⟨Kernel.bind_eq_error_iff.mp hb, hrun⟩
      case accepted => simp
  | ok arguments =>
      rw [hb] at hrun
      obtain ⟨_, hb₀⟩ := Kernel.bind_of_alike hparameters₀ halike hb
      rw [hcheck, hb₀, Except.map]
      constructor
      case ok_iff => simp [hb]
      case error_iff => simp [hb]
      case refused => simp
      case accepted =>
        intro step hstep
        obtain rfl := Except.ok.inj hstep
        refine ⟨args, arguments, rfl, h.submitted, ?_, hb, Kernel.getElem?_of_bind hb, hrun⟩
        simp only [submit, h.submitted, hid]
        rfl

/-- **The check of a launch agrees with the launch.**  Let arrays and kernels pass the check, and let
a launch of one of these kernels have a grid and a block that are not empty, and declared arrays and
numbers for arguments.  On a device without faults the arrays can be allocated and the kernels
declared.  Once that is done, in any session, and after anything else that is asked of its context,
the kernel is known with the declared parameters, every argument passes a value, and what the check
says of the launch is what binding these values says. -/
theorem launch_check_agrees (file : WorkloadFile) (w : Workload)
    (harrays : file.arrays.traverse WorkloadFile.checkArray = .ok w.arrays)
    (hkernels : file.kernels.traverse (fun _ => WorkloadFile.checkKernel) = .ok w.kernels)
    (index : Nat) (name : String) (spec : KernelSpec) (hspec : w.kernels.get? name = some spec)
    (entry : LaunchEntry) (hgrid : entry.grid ≠ 0) (hblock : entry.block ≠ 0)
    (hargs : ∀ value ∈ entry.args, value.IsArgument w.arrays) :
    (∀ r : Session, r.phase = .serving → r.context.device.faults = [] → ∃ allocated s ids t,
      w.allocateArrays.run r = (.ok allocated, s) ∧ w.declareKernels.run s = (.ok ids, t)) ∧
    ∀ r allocated s ids t, w.allocateArrays.run r = (.ok allocated, s) →
      w.declareKernels.run s = (.ok ids, t) → ∀ more : List Context.Command, ∃ k values,
        Table.lookup name ids = some k.id ∧ (t.context.after more).kernels.get? k.id = some k ∧
        k.name = name ∧ k.parameters = spec.parameters ∧
        List.Forall₂ (Passes allocated) entry.args values ∧
        (t.context.after more).Agrees allocated ids k { grid := entry.grid, block := entry.block }
          values (WorkloadFile.checkLaunch w.arrays w.kernels index name entry) := by
  have hparse := WorkloadFile.kernels_sound hkernels
  constructor
  · intro r hserving hfaults
    obtain ⟨allocated, s, hallocated, hs, -⟩ :=
      exists_allocateArrays (WorkloadFile.arrays_sound harrays) hserving hfaults
    obtain ⟨ids, t, hids, -⟩ := exists_declareKernels hparse hs
    exact ⟨allocated, s, ids, t, hallocated, hids⟩
  · intro r allocated s ids t hallocated hids more
    obtain ⟨args, standIns, values, hreads⟩ := exists_reads
      (fun _ _ => ArraySpec.find_of_names (named_of_allocateArrays hallocated)) hargs index 0
    obtain ⟨id, hid, hsupplies⟩ := Table.lookup_of_forall₂ (fun _ _ hs => hs.name)
      (supplies_of_declareKernels hparse hids) hspec
    obtain ⟨k, hk, rfl, rfl, hparameters⟩ := (hsupplies.after more).kernel
    exact ⟨k, values, hid, hk, rfl, hparameters, hreads.passes, hreads.agrees hk hid hspec
      (hparse _ spec (Table.mem_of_lookup_eq_some hspec)) hparameters hgrid hblock⟩

/-- One array, and a kernel that takes an array of any type, a number and an array. -/
def axpyFile : WorkloadFile where
  arrays := Table.empty.insert "x" ⟨"float", 4⟩
  kernels := Table.empty.insert "axpy" "const pointer, double, pointer float"

def axpySpec : KernelSpec :=
  ⟨"const pointer, double, pointer float",
    [.pointer .void true, .scalar .double, .pointer .float false]⟩

def axpy : Workload where
  options := {}
  arrays := Table.empty.insert "x" ⟨.float, 4⟩
  kernels := Table.empty.insert "axpy" axpySpec
  steps := []

/-- After another kernel was declared under the same name: the second value of a call is the first
that does not fit, and a call with the same array twice and an integer for a number is accepted. -/
theorem launch_check_agrees_axpy :
    ∃ allocated s ids t, axpy.allocateArrays.run axpy.session = (.ok allocated, s) ∧
      axpy.declareKernels.run s = (.ok ids, t) ∧
      let c := t.context.after [.declare "axpy" "sint32"]
      (∃ (k : Kernel) (values : List CallValue), Table.lookup "axpy" ids = some k.id ∧
        List.Forall₂ (Passes allocated) [.string "x", .bool true, .int 1] values ∧
        (Context.launch k.id { grid := 2, block := 8 } values).run c =
          (.error (.error (.argumentType "axpy" 1 .double .bool)), c)) ∧
      ∃ (k : Kernel) (values : List CallValue) (arguments : List Argument),
        List.Forall₂ (Passes allocated) [.string "x", .int 3, .string "x"] values ∧
        k.bind values = .ok arguments ∧
        submit allocated ids (.launch "axpy" [.array "x", .int 3, .array "x"]
          { grid := 2, block := 8 }) =
            Session.request (Context.launch k.id { grid := 2, block := 8 } values) := by
  have harrays : axpyFile.arrays.traverse WorkloadFile.checkArray = .ok axpy.arrays := by
    decide +kernel
  have hkernels :
      axpyFile.kernels.traverse (fun _ => WorkloadFile.checkKernel) = .ok axpy.kernels := by
    decide +kernel
  have hspec : axpy.kernels.get? "axpy" = some axpySpec := by decide +kernel
  have hx : axpy.arrays.contains "x" = true := by decide +kernel
  obtain ⟨hmade, hrefused⟩ := launch_check_agrees axpyFile axpy harrays hkernels 6 "axpy" axpySpec
    hspec { args := [.string "x", .bool true, .int 1], grid := 2, block := 8 } (by decide)
    (by decide) (by simp [Toml.Value.IsArgument, hx])
  obtain ⟨-, haccepted⟩ := launch_check_agrees axpyFile axpy harrays hkernels 7 "axpy" axpySpec
    hspec { args := [.string "x", .int 3, .string "x"], grid := 2, block := 8 } (by decide)
    (by decide) (by simp [Toml.Value.IsArgument, hx])
  obtain ⟨allocated, s, ids, t, hallocated, hids⟩ := hmade axpy.session rfl rfl
  refine ⟨allocated, s, ids, t, hallocated, hids, ?_, ?_⟩
  · obtain ⟨k, values, hid, -, -, -, hpasses, hagrees⟩ :=
      hrefused _ allocated s ids t hallocated hids [.declare "axpy" "sint32"]
    exact ⟨k, values, hid, hpasses, (hagrees.refused _ (by decide +kernel)).2⟩
  · obtain ⟨k, values, -, -, -, -, hpasses, hagrees⟩ :=
      haccepted _ allocated s ids t hallocated hids [.declare "axpy" "sint32"]
    obtain ⟨_, arguments, -, -, hsubmit, hbind, -, -⟩ := hagrees.accepted
      (.launch "axpy" [.array "x", .int 3, .array "x"] { grid := 2, block := 8 }) (by decide +kernel)
    exact ⟨k, values, arguments, hpasses, hbind, hsubmit⟩

end Workload

end LaunchGraph
