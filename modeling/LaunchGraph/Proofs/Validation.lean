import Mathlib.Data.List.Forall2
import LaunchGraph.Program
import LaunchGraph.Proofs.Commands

/-!
# Validation — what a checked workload promises

A workload that has passed the check is sound (`Workload.Sound`): its pool may have a stream, its
arrays can be allocated, the signatures of its kernels can be read, and every step fits what is
declared.

The check binds the arguments of a launch before there are arrays, with the position of an argument
in the place of its buffer.  Whether values fit parameters does not depend on the buffers, so the
call with the real arrays is accepted as well (`Kernel.bind_of_alike`), or refused for the same
reason (`Kernel.bind_error_of_alike`).
-/

namespace LaunchGraph

/-- A computation that succeeds does so in each of its parts. -/
theorem ok_of_bind {ε α β : Type} {x : Except ε α} {f : α → Except ε β} {b : β}
    (h : x >>= f = .ok b) : ∃ a, x = .ok a ∧ f a = .ok b := by
  cases x with
  | error e => cases h
  | ok a => exact ⟨a, rfl, h⟩

namespace Table

variable {κ α β ε : Type} {f : κ → α → Except ε β}

theorem mem_traverseAt {l : List (κ × α)} {m : List (κ × β)} (h : traverseAt f l = .ok m)
    {k : κ} {b : β} (hb : (k, b) ∈ m) : ∃ a, f k a = .ok b := by
  induction l generalizing m with
  | nil =>
      obtain rfl := Except.ok.inj h
      cases hb
  | cons e rest ih =>
      obtain ⟨j, a⟩ := e
      obtain ⟨c, hc, h⟩ := ok_of_bind h
      obtain ⟨cs, hcs, h⟩ := ok_of_bind h
      obtain rfl := Except.ok.inj h
      rcases List.mem_cons.mp hb with heq | hb
      · obtain ⟨rfl, rfl⟩ := Prod.mk.inj heq
        exact ⟨a, hc⟩
      · exact ih hcs hb

/-- Every entry of a table that was checked is what the check gave. -/
theorem mem_traverse [LT κ] {t : Table κ α} {t' : Table κ β} (h : t.traverse f = .ok t') {k : κ}
    {b : β} (hb : (k, b) ∈ t'.entries) : ∃ a, f k a = .ok b := by
  unfold traverse at h
  split at h
  · next hm =>
    obtain rfl := Except.ok.inj h
    exact mem_traverseAt hm hb
  · cases h

/-- In a list with the same keys, what is found under a key is what stands in the same place. -/
theorem lookup_of_forall₂ [DecidableEq κ] {R : κ × α → κ × β → Prop}
    (hkey : ∀ x y, R x y → y.1 = x.1) {l : List (κ × α)} {m : List (κ × β)}
    (h : List.Forall₂ R l m) {k : κ} {a : α} (ha : lookup k l = some a) :
    ∃ b, lookup k m = some b ∧ R (k, a) (k, b) := by
  induction h with
  | nil => cases ha
  | @cons x y _ _ hxy _ ih =>
      obtain ⟨i, c⟩ := x
      obtain ⟨j, b⟩ := y
      obtain rfl : j = i := hkey _ _ hxy
      by_cases hk : j = k
      · subst hk
        rw [lookup, if_pos rfl] at ha ⊢
        obtain rfl := Option.some.inj ha
        exact ⟨b, rfl, hxy⟩
      · rw [lookup, if_neg hk] at ha ⊢
        exact ih ha

end Table

/-! ### Values for parameters -/

/-- The values differ at most in the buffer of an array. -/
inductive CallValue.Alike : CallValue → CallValue → Prop where
  | array (b b' : BufferId) (t : ElementType) : Alike (.array b t) (.array b' t)
  | int (i : Int) : Alike (.int i) (.int i)
  | float (x : Binary64) : Alike (.float x) (.float x)
  | bool (b : Bool) : Alike (.bool b) (.bool b)

namespace CallValue.Alike

theorem refl (v : CallValue) : v.Alike v := by
  cases v with
  | array b t => exact .array b b t
  | int i => exact .int i
  | float x => exact .float x
  | bool b => exact .bool b

theorem symm {v v' : CallValue} (h : v.Alike v') : v'.Alike v := by
  cases h with
  | array b b' t => exact .array b' b t
  | int i => exact .int i
  | float x => exact .float x
  | bool b => exact .bool b

theorem kind_eq {v v' : CallValue} (h : v.Alike v') : v'.kind = v.kind := by
  cases h <;> rfl

end CallValue.Alike

/-- Whether a value fits a parameter does not depend on its buffer. -/
theorem Parameter.accept?_of_alike {p : Parameter} {v v' : CallValue} {a : Argument}
    (h : v.Alike v') (ha : p.accept? v = some a) : ∃ a', p.accept? v' = some a' := by
  cases h with
  | array b b' t =>
      cases p with
      | scalar u => cases ha
      | pointer u isConst =>
          simp only [accept?] at ha ⊢
          split at ha
          · next hfits => exact ⟨_, if_pos hfits⟩
          · cases ha
  | int i => exact ⟨a, ha⟩
  | float x => exact ⟨a, ha⟩
  | bool b => exact ⟨a, ha⟩

/-- An array argument is on the buffer of the value it was made from. -/
theorem Parameter.buffer_of_accept? {p : Parameter} {v : CallValue} {a : Argument} {b : BufferId}
    (ha : p.accept? v = some a) (hb : a.buffer? = some b) : ∃ t, v = .array b t := by
  cases v with
  | array c u =>
      cases p with
      | scalar t => cases ha
      | pointer t isConst =>
          simp only [accept?] at ha
          split at ha
          · obtain rfl := Option.some.inj ha
            exact ⟨u, by rw [Option.some.inj hb]⟩
          · cases ha
  | int i | float x | bool x =>
      -- a number makes a scalar argument, which has no buffer
      cases p with
      | pointer t isConst => cases ha
      | scalar t =>
          simp only [accept?] at ha
          repeat' split at ha
          all_goals cases ha
          all_goals cases hb

namespace Kernel

/-- A kernel can be made from every signature that can be read. -/
theorem new_of_parse {signature : String} {parameters : List Parameter}
    (h : Signature.parse signature = .ok parameters) (id : KernelId) (name : String) :
    new id name signature = .ok { id, name, signature, parameters } := by
  rw [new, h]

theorem bindFrom_of_alike {name name' : String} {index : Nat} {ps : List Parameter}
    {values values' : List CallValue} {arguments : List Argument}
    (h : List.Forall₂ CallValue.Alike values values')
    (hb : bindFrom name index ps values = .ok arguments) :
    ∃ arguments', bindFrom name' index ps values' = .ok arguments' := by
  induction h generalizing ps index arguments with
  | nil => cases ps <;> exact ⟨[], rfl⟩
  | @cons v v' vs vs' hv _ ih =>
      cases ps with
      | nil => exact ⟨[], rfl⟩
      | cons p ps =>
          simp only [bindFrom] at hb ⊢
          split at hb
          · cases hb
          · next a ha =>
            obtain ⟨a', ha'⟩ := Parameter.accept?_of_alike hv ha
            split at hb
            · next as has =>
              obtain ⟨as', has'⟩ := ih has
              exact ⟨a' :: as', by rw [ha', has']⟩
            · cases hb

/-- **A call is accepted whatever the buffers of its arrays are.** -/
theorem bind_of_alike {k k' : Kernel} (hk : k'.parameters = k.parameters)
    {values values' : List CallValue} {arguments : List Argument}
    (h : List.Forall₂ CallValue.Alike values values') (hb : k.bind values = .ok arguments) :
    ∃ arguments', k'.bind values' = .ok arguments' := by
  unfold bind at hb ⊢
  split at hb
  · next hlength =>
    rw [hk, if_pos (h.length_eq ▸ hlength)]
    exact bindFrom_of_alike h hb
  · cases hb

theorem bindFrom_error_of_alike {name : String} {index : Nat} {ps : List Parameter}
    {values values' : List CallValue} {error : Error}
    (h : List.Forall₂ CallValue.Alike values values')
    (hb : bindFrom name index ps values = .error error) :
    bindFrom name index ps values' = .error error := by
  induction h generalizing ps index with
  | nil => cases ps <;> cases hb
  | @cons v v' vs vs' hv _ ih =>
      cases ps with
      | nil => cases hb
      | cons p ps =>
          simp only [bindFrom] at hb ⊢
          split at hb
          · next hnone =>
            have hnone' : p.accept? v' = none := by
              by_contra hsome
              obtain ⟨a', ha'⟩ := Option.ne_none_iff_exists'.mp hsome
              obtain ⟨a, ha⟩ := Parameter.accept?_of_alike hv.symm ha'
              rw [hnone] at ha
              cases ha
            rw [hnone', hv.kind_eq]
            exact hb
          · next a ha =>
            obtain ⟨a', ha'⟩ := Parameter.accept?_of_alike hv ha
            split at hb
            · cases hb
            · next hrest =>
              obtain rfl := Except.error.inj hb
              rw [ha', ih hrest]

/-- **A call is refused whatever the buffers of its arrays are**, and for the same reason. -/
theorem bind_error_of_alike {k k' : Kernel} (hname : k'.name = k.name)
    (hk : k'.parameters = k.parameters) {values values' : List CallValue} {error : Error}
    (h : List.Forall₂ CallValue.Alike values values') (hb : k.bind values = .error error) :
    k'.bind values' = .error error := by
  unfold bind at hb ⊢
  rw [hname, hk, ← h.length_eq]
  split at hb
  · next hlength =>
    rw [if_pos hlength]
    exact bindFrom_error_of_alike h hb
  · next hlength => rwa [if_neg hlength]

/-- The arguments of a call are on the buffers of its values. -/
theorem buffer_of_bindFrom {name : String} {index : Nat} {ps : List Parameter}
    {values : List CallValue} {arguments : List Argument}
    (h : bindFrom name index ps values = .ok arguments) {a : Argument} (ha : a ∈ arguments)
    {b : BufferId} (hb : a.buffer? = some b) : ∃ t, .array b t ∈ values := by
  fun_induction bindFrom name index ps values generalizing arguments with
  | case1 => cases h
  | case2 index p ps v vs x hx as has ih =>
      obtain rfl := Except.ok.inj h
      rcases List.mem_cons.mp ha with rfl | ha
      · obtain ⟨t, rfl⟩ := Parameter.buffer_of_accept? hx hb
        exact ⟨t, List.mem_cons_self⟩
      · obtain ⟨t, ht⟩ := ih has ha
        exact ⟨t, List.mem_cons_of_mem _ ht⟩
  | case3 => cases h
  | case4 =>
      obtain rfl := Except.ok.inj h
      cases ha

theorem buffer_of_bind {k : Kernel} {values : List CallValue} {arguments : List Argument}
    (h : k.bind values = .ok arguments) {a : Argument} (ha : a ∈ arguments) {b : BufferId}
    (hb : a.buffer? = some b) : ∃ t, .array b t ∈ values := by
  unfold bind at h
  split at h
  · exact buffer_of_bindFrom h ha hb
  · cases h

end Kernel

/-! ### Checked workloads -/

/-- The step can be taken with the arrays and kernels that are declared. -/
inductive Step.Fits (arrays : Table String ArraySpec) (kernels : Table String KernelSpec) :
    Step → Prop where
  | launch {name : String} {args : List StepArgument} {spec : KernelSpec} {k : Kernel}
      {values : List CallValue} {arguments : List Argument} {index slot : Nat}
      (config : LaunchConfig) (hspec : kernels.get? name = some spec)
      (hk : k.parameters = spec.parameters)
      (hvalues : WorkloadFile.standIns arrays index slot args = .ok values)
      (hbind : k.bind values = .ok arguments) : Fits arrays kernels (.launch name args config)
  | access {name : String} (write : Bool) (harray : arrays.contains name = true) :
      Fits arrays kernels (.access name write)

/-- What is promised of a workload that has been checked. -/
structure Workload.Sound (w : Workload) : Prop where
  streams : w.options.maxStreams ≠ some 0
  arrays : ∀ name spec, (name, spec) ∈ w.arrays.entries →
    spec.type ≠ .void ∧ spec.type.size * spec.length < addressSpace
  kernels : ∀ name spec, (name, spec) ∈ w.kernels.entries →
    Signature.parse spec.signature = .ok spec.parameters
  steps : ∀ step ∈ w.steps, step.Fits w.arrays w.kernels

namespace WorkloadFile

variable {arrays : Table String ArraySpec} {kernels : Table String KernelSpec}

theorem checkArray_sound {name : String} {a : ArrayEntry} {spec : ArraySpec}
    (h : checkArray name a = .ok spec) :
    spec.type ≠ .void ∧ spec.type.size * spec.length < addressSpace := by
  unfold checkArray at h
  split at h
  · cases h
  · split at h
    · cases h
    · next hvoid =>
      split at h
      · next hsize =>
        obtain rfl := Except.ok.inj h
        exact ⟨hvoid, hsize⟩
      · cases h

theorem checkKernel_sound {signature : String} {spec : KernelSpec}
    (h : checkKernel signature = .ok spec) :
    Signature.parse spec.signature = .ok spec.parameters := by
  obtain ⟨parameters, hparse, h⟩ := ok_of_bind h
  obtain rfl := Except.ok.inj h
  exact hparse

/-- What is promised of arrays that have been checked. -/
theorem arrays_sound {declared : Table String ArrayEntry}
    (h : declared.traverse checkArray = .ok arrays) : ∀ name spec, (name, spec) ∈ arrays.entries →
      spec.type ≠ .void ∧ spec.type.size * spec.length < addressSpace := by
  intro name spec hmem
  obtain ⟨entry, hentry⟩ := Table.mem_traverse h hmem
  exact checkArray_sound hentry

/-- What is promised of kernels that have been checked. -/
theorem kernels_sound {declared : Table String String}
    (h : declared.traverse (fun _ => checkKernel) = .ok kernels) : ∀ name spec,
      (name, spec) ∈ kernels.entries → Signature.parse spec.signature = .ok spec.parameters := by
  intro name spec hmem
  obtain ⟨signature, hsignature⟩ := Table.mem_traverse h hmem
  exact checkKernel_sound hsignature

theorem checkStep_fits
    (hkernels : ∀ name spec, (name, spec) ∈ kernels.entries →
      Signature.parse spec.signature = .ok spec.parameters)
    {index : Nat} {entry : LaunchEntry} {step : Step}
    (h : checkStep arrays kernels index entry = .ok step) : step.Fits arrays kernels := by
  unfold checkStep at h
  split at h
  · next name _ _ =>
    unfold checkLaunch at h
    split at h
    · cases h
    · next spec hspec =>
      split at h
      · cases h
      · obtain ⟨args, -, h⟩ := ok_of_bind h
        obtain ⟨values, hvalues, h⟩ := ok_of_bind h
        obtain ⟨k, hk, h⟩ := ok_of_bind h
        obtain ⟨arguments, hbind, h⟩ := ok_of_bind h
        obtain rfl := Except.ok.inj h
        have hparse := hkernels name spec (Table.mem_of_lookup_eq_some hspec)
        obtain rfl := Except.ok.inj (hk.symm.trans (Kernel.new_of_parse hparse 0 name))
        exact .launch _ hspec rfl hvalues hbind
  · unfold checkAccess at h
    split at h
    · cases h
    · split at h
      · next harray =>
        obtain rfl := Except.ok.inj h
        exact .access _ harray
      · cases h
  · cases h
  · cases h

theorem checkSteps_fit
    (hkernels : ∀ name spec, (name, spec) ∈ kernels.entries →
      Signature.parse spec.signature = .ok spec.parameters)
    {index : Nat} {entries : List LaunchEntry} {steps : List Step}
    (h : checkSteps arrays kernels index entries = .ok steps) :
    ∀ step ∈ steps, step.Fits arrays kernels := by
  induction entries generalizing index steps with
  | nil =>
      obtain rfl := Except.ok.inj h
      simp
  | cons entry rest ih =>
      obtain ⟨step, hstep, h⟩ := ok_of_bind h
      obtain ⟨more, hmore, h⟩ := ok_of_bind h
      obtain rfl := Except.ok.inj h
      rintro x (_ | ⟨_, hx⟩)
      · exact checkStep_fits hkernels hstep
      · exact ih hmore x hx

/-- **A workload that passes the check is sound.** -/
theorem check_sound {file : WorkloadFile} {w : Workload} (h : file.check = .ok w) : w.Sound := by
  unfold check at h
  split at h
  · cases h
  · obtain ⟨_, hoptions, h⟩ := ok_of_bind h
    obtain ⟨arrays, harrays, h⟩ := ok_of_bind h
    obtain ⟨kernels, hkernels, h⟩ := ok_of_bind h
    obtain ⟨steps, hsteps, h⟩ := ok_of_bind h
    obtain rfl := Except.ok.inj h
    constructor
    case streams =>
      intro hzero
      rw [checkOptions, if_pos hzero] at hoptions
      split at hoptions <;> cases hoptions
    case arrays => exact arrays_sound harrays
    case kernels => exact kernels_sound hkernels
    case steps => exact checkSteps_fit (kernels_sound hkernels) hsteps

end WorkloadFile

/-- The policies that the command line chooses do not matter for this. -/
theorem Workload.Sound.choose {w : Workload} (h : w.Sound) (a : Arguments) :
    (Program.choose a w).Sound :=
  ⟨h.streams, h.arrays, h.kernels, h.steps⟩

/-! ### Arguments of a step -/

namespace Workload

variable {arrays : List (String × DeviceArray)}

/-- The real values of the arguments are like those that were checked. -/
theorem callValues_of_standIns {specs : Table String ArraySpec}
    (hfind : ∀ name spec, specs.get? name = some spec →
      ∃ a, Table.lookup name arrays = some a ∧ a.type = spec.type)
    {i slot : Nat} {args : List StepArgument} {values : List CallValue}
    (h : WorkloadFile.standIns specs i slot args = .ok values) :
    ∃ values', callValues arrays args = .ok values' ∧
      List.Forall₂ CallValue.Alike values values' := by
  induction args generalizing slot values with
  | nil =>
      obtain rfl := Except.ok.inj h
      exact ⟨[], rfl, .nil⟩
  | cons arg rest ih =>
      obtain ⟨v, hv, h⟩ := ok_of_bind h
      obtain ⟨vs, hvs, h⟩ := ok_of_bind h
      obtain rfl := Except.ok.inj h
      obtain ⟨vs', hvs', halike⟩ := ih hvs
      have hvalue : ∃ v', arg.resolve (fun name => do
          let a ← findArray arrays name
          .ok (.array a.buffer a.type)) = .ok v' ∧ v.Alike v' := by
        cases arg with
        | array name =>
            simp only [StepArgument.resolve] at hv
            split at hv
            · next spec hspec =>
              obtain rfl := Except.ok.inj hv
              obtain ⟨a, ha, htype⟩ := hfind name spec hspec
              refine ⟨.array a.buffer a.type, ?_, htype ▸ .array _ _ _⟩
              simp only [StepArgument.resolve, findArray, ha]
              rfl
            · cases hv
        | int i =>
            obtain rfl := Except.ok.inj hv
            exact ⟨_, rfl, .int i⟩
        | float x =>
            obtain rfl := Except.ok.inj hv
            exact ⟨_, rfl, .float x⟩
        | bool b =>
            obtain rfl := Except.ok.inj hv
            exact ⟨_, rfl, .bool b⟩
      obtain ⟨v', hv', hlike⟩ := hvalue
      refine ⟨v' :: vs', ?_, .cons hlike halike⟩
      rw [callValues, hv', hvs']
      rfl

/-- An array among the values is one of those that are there. -/
theorem array_of_callValues {args : List StepArgument} {values : List CallValue}
    (h : callValues arrays args = .ok values) {b : BufferId} {t : ElementType}
    (hb : .array b t ∈ values) : ∃ name a, (name, a) ∈ arrays ∧ a.buffer = b := by
  induction args generalizing values with
  | nil =>
      obtain rfl := Except.ok.inj h
      cases hb
  | cons arg rest ih =>
      obtain ⟨v, hv, h⟩ := ok_of_bind h
      obtain ⟨vs, hvs, h⟩ := ok_of_bind h
      obtain rfl := Except.ok.inj h
      rcases List.mem_cons.mp hb with rfl | hb
      · cases arg with
        | array name =>
            obtain ⟨a, ha, hv⟩ := ok_of_bind hv
            unfold findArray at ha
            split at ha
            · next x hx =>
              obtain rfl := Except.ok.inj ha
              exact ⟨name, x, Table.mem_of_lookup_eq_some hx,
                (CallValue.array.inj (Except.ok.inj hv)).1⟩
            · cases ha
        | int i => cases hv
        | float x => cases hv
        | bool b => cases hv
      · exact ih hvs hb

end Workload

end LaunchGraph
