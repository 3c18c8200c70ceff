import LaunchGraph.Proofs.Barriers
import LaunchGraph.Proofs.Kernels
import LaunchGraph.Proofs.Scripts
import LaunchGraph.Proofs.Validation

/-!
# Submission — the steps of a sound workload are accepted

Once the arrays and kernels that a workload declares have been made, everything its steps refer to
is there (`Stage.Equipped`).  It stays so whatever is launched: registering leaves the kernels as
they are, and no buffer is freed.  So the call of each step is accepted, as it was when it was
checked, and the step becomes the next vertex (`Stage.OnScript.submit`).

The labels of the steps are the script that such a run follows.  `Stage.Serves` is what a step of a
session does on a script: it succeeds.
-/

namespace LaunchGraph

/-! ### Sessions on a script -/

/-- A session that serves does what its context does. -/
theorem Session.run_request {α : Type} {x : Action Context α} {c c' : Context} {a : α}
    (h : x.run c = (.ok a, c')) :
    (request x).run ⟨c, .serving⟩ = (.ok a, ⟨c', .serving⟩) := by
  unfold Action.run at h
  simp only [Action.run, request, h]

namespace Stage

/-- The step succeeds in a session at stage `s`, and leads to a stage on the script of which `Q`
holds. -/
def Serves {α : Type} (options : ContextOptions) (labels : List String) (s : Stage)
    (x : Action Session α) (Q : α → Stage → Prop) : Prop :=
  ∃ a t, x.run ⟨s.toContext, .serving⟩ = (.ok a, ⟨Stage.toContext t, .serving⟩) ∧
    t.OnScript options labels ∧ Q a t

namespace Serves

variable {options : ContextOptions} {labels : List String} {s : Stage} {α β : Type}

theorem pure (hs : s.OnScript options labels) {a : α} {Q : α → Stage → Prop} (h : Q a s) :
    Serves options labels s (Pure.pure a) Q :=
  ⟨a, s, rfl, hs, h⟩

theorem bind {x : Action Session α} {f : α → Action Session β} {Q : α → Stage → Prop}
    {R : β → Stage → Prop} (hx : Serves options labels s x Q)
    (hf : ∀ a t, t.OnScript options labels → Q a t → Serves options labels t (f a) R) :
    Serves options labels s (x >>= f) R := by
  obtain ⟨a, t, hrun, ht, hq⟩ := hx
  obtain ⟨b, u, hrun', hu, hr⟩ := hf a t ht hq
  exact ⟨b, u, by rw [Action.run_bind_ok hrun, hrun'], hu, hr⟩

theorem imp {x : Action Session α} {Q R : α → Stage → Prop} (hx : Serves options labels s x Q)
    (h : ∀ a t, Q a t → R a t) : Serves options labels s x R := by
  obtain ⟨a, t, hrun, ht, hq⟩ := hx
  exact ⟨a, t, hrun, ht, h a t hq⟩

/-- A request that succeeds. -/
theorem request (hs : s.OnScript options labels) {x : Action Context α} {Q : α → Stage → Prop}
    (hx : Leads (Scripted labels) s x fun r t => ∃ a, r = .ok a ∧ t.due = [] ∧ Q a t) :
    Serves options labels s (Session.request x) Q := by
  obtain ⟨r, t, hrun, hmoves, a, rfl, hdue, hq⟩ := hx
  exact ⟨a, t, Session.run_request hrun, hs.next hmoves hdue, hq⟩

/-- One step per item, where each keeps `I`. -/
theorem each {f : β → Action Session Unit} {l : List β} {I : Stage → Prop}
    (hstep : ∀ b ∈ l, ∀ t, t.OnScript options labels → I t →
      Serves options labels t (f b) fun _ => I)
    (hs : s.OnScript options labels) (h : I s) :
    Serves options labels s (Action.each f l) fun _ => I := by
  induction l generalizing s with
  | nil => exact .pure hs h
  | cons b rest ih =>
      refine bind (hstep b List.mem_cons_self s hs h) fun _ t ht hI => ?_
      exact ih (fun x hx => hstep x (List.mem_cons_of_mem _ hx)) ht hI

/-- One step per item, where `I` relates the items that are done, their results and the stage. -/
theorem collect {f : β → Action Session α} {l : List β} {I : List β → List α → Stage → Prop}
    (hstep : ∀ done b rest as t, l = done ++ b :: rest → t.OnScript options labels →
      I done as t → Serves options labels t (f b) fun a => I (done ++ [b]) (as ++ [a]))
    (hs : s.OnScript options labels) (h : I [] [] s) :
    Serves options labels s (Action.collect f l) (I l) := by
  suffices hrest : ∀ rest done as t, l = done ++ rest → t.OnScript options labels →
      I done as t → Serves options labels t (Action.collect f rest) fun as' => I l (as ++ as') from
    hrest l [] [] s rfl hs h
  intro rest
  induction rest with
  | nil =>
      intro done as t hl ht hI
      refine .pure ht ?_
      rw [hl, List.append_nil, List.append_nil]
      exact hI
  | cons b rest ih =>
      intro done as t hl ht hI
      refine bind (hstep done b rest as t hl ht hI) fun a u hu hI' => ?_
      refine bind (ih (done ++ [b]) (as ++ [a]) u (by simp [hl]) hu hI') fun as' w hw hI'' => ?_
      exact .pure hw (by simpa using hI'')

end Serves

end Stage

/-! ### What the steps refer to -/

/-- The label of the work that a step submits. -/
def Step.label : Step → String
  | .launch kernel _ _ => kernel
  | .access _ true => "array-write"
  | .access _ false => "array-read"

/-- The array has the declared name and type. -/
structure ArraySpec.Names (declared : String × ArraySpec) (a : String × DeviceArray) : Prop where
  name : a.1 = declared.1
  type : a.2.type = declared.2.type

/-- Under the name of a declared array stands an array of the declared type. -/
theorem ArraySpec.find_of_names {specs : Table String ArraySpec}
    {arrays : List (String × DeviceArray)} (h : List.Forall₂ Names specs.entries arrays)
    {name : String} {spec : ArraySpec} (hspec : specs.get? name = some spec) :
    ∃ a, Table.lookup name arrays = some a ∧ a.type = spec.type := by
  obtain ⟨a, ha, hnames⟩ := Table.lookup_of_forall₂ (fun _ _ hn => hn.name) h hspec
  exact ⟨a, ha, hnames.type⟩

namespace Stage

variable {options : ContextOptions} {labels : List String} {s t : Stage} {w : Workload}
  {arrays : List (String × DeviceArray)} {kernels : List (String × KernelId)}

/-- The kernel is known, with the declared name and parameters. -/
structure Knows (s : Stage) (declared : String × KernelSpec) (id : String × KernelId) : Prop where
  name : id.1 = declared.1
  kernel : ∃ k, s.kernels.get? id.2 = some k ∧ k.name = declared.1 ∧
    k.parameters = declared.2.parameters

/-- The later stage has the kernels of the earlier one, apart from how often they were launched. -/
def SameKernels (s t : Stage) : Prop :=
  ∀ id k, s.kernels.get? id = some k →
    ∃ k', t.kernels.get? id = some k' ∧ k'.name = k.name ∧ k'.parameters = k.parameters

theorem sameKernels_insert {id : KernelId} {k k' : Kernel} (hk : s.kernels.get? id = some k)
    (hname : k'.name = k.name) (hparameters : k'.parameters = k.parameters) :
    s.SameKernels { s with kernels := s.kernels.insert id k' } := by
  intro j x hx
  by_cases hj : id = j
  · subst hj
    obtain rfl : k = x := Option.some.inj (hk.symm.trans hx)
    exact ⟨k', by simp, hname, hparameters⟩
  · exact ⟨x, by simpa [hj] using hx, rfl, rfl⟩

theorem Knows.mono {declared : String × KernelSpec} {id : String × KernelId}
    (h : s.Knows declared id) (hk : s.SameKernels t) : t.Knows declared id := by
  obtain ⟨hname, k, hget, hk₁, hk₂⟩ := h
  obtain ⟨k', hget', hk₁', hk₂'⟩ := hk _ _ hget
  exact ⟨hname, k', hget', hk₁'.trans hk₁, hk₂'.trans hk₂⟩

/-- Everything that workload `w` declares is there. -/
structure Equipped (w : Workload) (arrays : List (String × DeviceArray))
    (kernels : List (String × KernelId)) (s : Stage) : Prop where
  named : List.Forall₂ ArraySpec.Names w.arrays.entries arrays
  allocated : ∀ name a, (name, a) ∈ arrays → a.buffer ∈ s.machine.buffers
  known : List.Forall₂ s.Knows w.kernels.entries kernels

namespace Equipped

theorem mono (h : s.Equipped w arrays kernels) (hk : s.SameKernels t)
    (hb : ∀ b ∈ s.machine.buffers, b ∈ t.machine.buffers) : t.Equipped w arrays kernels where
  named := h.named
  allocated name a ha := hb _ (h.allocated name a ha)
  known := h.known.imp fun _ _ hid => hid.mono hk

theorem findArray (h : s.Equipped w arrays kernels) {name : String} {spec : ArraySpec}
    (hspec : w.arrays.get? name = some spec) :
    ∃ a, Table.lookup name arrays = some a ∧ a.type = spec.type :=
  ArraySpec.find_of_names h.named hspec

theorem findKernel (h : s.Equipped w arrays kernels) {name : String} {spec : KernelSpec}
    (hspec : w.kernels.get? name = some spec) :
    ∃ id k, Table.lookup name kernels = some id ∧ s.kernels.get? id = some k ∧ k.name = name ∧
      k.parameters = spec.parameters := by
  obtain ⟨id, hid, hknows⟩ := Table.lookup_of_forall₂ (fun _ _ hn => hn.name) h.known hspec
  obtain ⟨k, hk⟩ := hknows.kernel
  exact ⟨id, k, hid, hk⟩

end Equipped

/-! ### The steps -/

/-- After a step is submitted: it is the next vertex, and everything is there still. -/
structure Submitted (w : Workload) (arrays : List (String × DeviceArray))
    (kernels : List (String × KernelId)) (index : Nat) (v : VertexId) (t : Stage) : Prop where
  vertex : v = index
  length : t.dag.vertices.length = index + 1
  equipped : t.Equipped w arrays kernels

/-- What is next in the script can be registered. -/
theorem OnScript.register (h : s.OnScript options labels) (heq : s.Equipped w arrays kernels)
    {e : Element} (hu : e.Unused) (hlabel : labels[s.dag.vertices.length]? = some e.label)
    (hb : ∀ b, e.touches b = true → b ∈ s.machine.buffers) :
    Leads (Scripted labels) s (Context.register e) fun r t =>
      ∃ v, r = .ok v ∧ t.due = [] ∧ t.Submitted w arrays kernels s.dag.vertices.length v := by
  have hscripted : ∀ t, Moves .closed s t → Scripted labels t e := by
    intro t hm
    refine ⟨h.coherent.length_closed hm ▸ hlabel, fun b htouches => ?_⟩
    exact (h.coherent.undisturbed_moves hm).buffers b (hb b htouches)
  obtain ⟨r, t, hrun, hmoves, hr⟩ := h.coherent.register h.due hu hscripted
  have hkernels : t.kernels = s.kernels := by
    have hkept := congrArg Prod.fst (Context.keepsKernels_register e s.toContext).1
    rwa [hrun] at hkept
  rcases hr with ⟨hr, htaken, -⟩ | ⟨n, -, haway⟩
  · refine ⟨r, t, hrun, hmoves, _, hr, htaken.due, rfl, htaken.length, ?_⟩
    refine heq.mono (fun id k hk => ⟨k, ?_, rfl, rfl⟩) (h.coherent.undisturbed_moves hmoves).buffers
    rwa [hkernels]
  · have hlimit := haway.limited
    simp [h.failureFree.unlimited] at hlimit

/-- A launch that was checked is accepted. -/
theorem OnScript.launch (h : s.OnScript options labels) (heq : s.Equipped w arrays kernels)
    {id : KernelId} {k : Kernel} {config : LaunchConfig} {values : List CallValue}
    {arguments : List Argument} (hk : s.kernels.get? id = some k)
    (hbind : k.bind values = .ok arguments)
    (hlabel : labels[s.dag.vertices.length]? = some k.name)
    (hvalues : ∀ b type, .array b type ∈ values → b ∈ s.machine.buffers) :
    Leads (Scripted labels) s (Context.launch id config values) fun r t =>
      ∃ v, r = .ok v ∧ t.due = [] ∧ t.Submitted w arrays kernels s.dag.vertices.length v := by
  have hm : Move (Scripted labels) s { s with
      kernels := s.kernels.insert id { k with launchCount := k.launchCount + 1 } } :=
    .adjust (adjusts_registry s _ _ _)
  have hsame : s.SameKernels { s with
      kernels := s.kernels.insert id { k with launchCount := k.launchCount + 1 } } :=
    sameKernels_insert hk rfl rfl
  have heq' := heq.mono hsame fun _ hb => hb
  have hbuffers : ∀ b, (Element.new (.launch k.id k.name config) arguments).touches b = true →
      b ∈ s.machine.buffers := by
    intro b hb
    simp only [Element.touches, touchesIn, List.any_eq_true, beq_iff_eq] at hb
    obtain ⟨a, ha, hab⟩ := hb
    obtain ⟨type, hmem⟩ := Kernel.buffer_of_bind hbind ha hab
    exact hvalues b type hmem
  obtain ⟨r, t, hrun, hmoves, hr⟩ :=
    (h.next (.single hm) h.due).register heq' (e := .new (.launch k.id k.name config) arguments)
      (Element.unused_new _ _) hlabel hbuffers
  refine ⟨r, t, ?_, .head hm hmoves, hr⟩
  rw [Context.launch, Action.run_gets_bind, hk]
  simp only [Kernel.launch, hbind]
  exact hrun

/-- The host can access an array that is there. -/
theorem OnScript.accessArray (h : s.OnScript options labels) (heq : s.Equipped w arrays kernels)
    {a : DeviceArray} {write : Bool}
    (hlabel : labels[s.dag.vertices.length]? = some (Work.access a.buffer write).label)
    (ha : a.buffer ∈ s.machine.buffers) :
    Leads (Scripted labels) s (Context.accessArray a write) fun r t =>
      ∃ v, r = .ok v ∧ t.due = [] ∧ t.Submitted w arrays kernels s.dag.vertices.length v := by
  have hm : Move (Scripted labels) s { s with arrays := s.arrays.insertNew a.buffer a } :=
    .adjust (adjusts_registry s _ _ _)
  have heq' : Equipped w arrays kernels { s with arrays := s.arrays.insertNew a.buffer a } :=
    heq.mono (fun _ k hk => ⟨k, hk, rfl, rfl⟩) fun _ hb => hb
  have hbuffers : ∀ b, (Element.ofAccess a.buffer a.type write).touches b = true →
      b ∈ s.machine.buffers := by
    intro b hb
    obtain rfl : a.buffer = b := by
      simpa [Element.touches, touchesIn, Element.ofAccess, Element.new, Argument.buffer?] using hb
    exact ha
  obtain ⟨r, t, hrun, hmoves, hr⟩ :=
    (h.next (.single hm) h.due).register heq' (Element.unused_new _ _) hlabel hbuffers
  exact ⟨r, t, hrun, .head hm hmoves, hr⟩

/-- **Every step of a sound workload is submitted**, as the vertex with its number. -/
theorem OnScript.submit (h : s.OnScript options (w.steps.map Step.label)) (hw : w.Sound)
    (heq : s.Equipped w arrays kernels) {step : Step}
    (hstep : w.steps[s.dag.vertices.length]? = some step) :
    Serves options (w.steps.map Step.label) s (Workload.submit arrays kernels step)
      (Submitted w arrays kernels s.dag.vertices.length) := by
  have hlabel : (w.steps.map Step.label)[s.dag.vertices.length]? = some step.label := by
    rw [List.getElem?_map, hstep]
    rfl
  cases hw.steps step (List.mem_of_getElem? hstep) with
  | @launch name args spec k values arguments index slot config hspec hk hvalues hbind =>
      obtain ⟨values', hvalues', halike⟩ := Workload.callValues_of_standIns
        (fun _ _ => heq.findArray) hvalues
      obtain ⟨id, k', hid, hget, rfl, hparameters⟩ := heq.findKernel hspec
      -- the check bound other buffers to the same parameters
      obtain ⟨arguments', hbind'⟩ := Kernel.bind_of_alike (hparameters.trans hk.symm) halike hbind
      have hsubmit : Workload.submit arrays kernels (.launch k'.name args config) =
          Session.request (Context.launch id config values') := by
        simp only [Workload.submit, hvalues', hid]
        rfl
      rw [hsubmit]
      refine .request h (h.launch heq hget hbind' hlabel fun b type hmem => ?_)
      obtain ⟨name, a, ha, rfl⟩ := Workload.array_of_callValues hvalues' hmem
      exact heq.allocated name a ha
  | @access name write harray =>
      obtain ⟨spec, hspec⟩ := Table.contains_iff.mp harray
      obtain ⟨a, ha, -⟩ := heq.findArray hspec
      have hsubmit : Workload.submit arrays kernels (.access name write) =
          Session.request (Context.accessArray a write) := by
        simp only [Workload.submit, Workload.findArray, ha]
        rfl
      rw [hsubmit]
      have hallocated := heq.allocated name a (Table.mem_of_lookup_eq_some ha)
      refine .request h (h.accessArray heq ?_ hallocated)
      rw [hlabel]
      cases write <;> rfl

/-! ### Before the steps -/

/-- The arrays of a sound workload can be allocated. -/
theorem OnScript.allocateArrays (h : s.OnScript options labels) (hw : w.Sound) :
    Serves options labels s w.allocateArrays fun arrays t =>
      List.Forall₂ ArraySpec.Names w.arrays.entries arrays ∧
        (∀ name a, (name, a) ∈ arrays → a.buffer ∈ t.machine.buffers) ∧
        t.dag.vertices.length = s.dag.vertices.length := by
  refine Serves.collect (I := fun done arrays t => List.Forall₂ ArraySpec.Names done arrays ∧
    (∀ name a, (name, a) ∈ arrays → a.buffer ∈ t.machine.buffers) ∧
    t.dag.vertices.length = s.dag.vertices.length) ?_ h ⟨.nil, by simp, rfl⟩
  rintro done ⟨name, spec⟩ rest arrays t hentries ht ⟨hnames, hallocated, hlength⟩
  obtain ⟨hvoid, hsize⟩ := hw.arrays name spec (by simp [hentries])
  refine Serves.bind (Q := fun a u => a = ⟨t.machine.nextBuffer, spec.type, spec.length⟩ ∧
    u = t.withArray spec.type spec.length) (.request ht ?_) ?_
  · exact ⟨_, _, run_allocateArray ht.coherent.faults hvoid hsize, moves_withArray t _ _, _, rfl,
      ht.due, rfl, rfl⟩
  · rintro _ _ hu ⟨rfl, rfl⟩
    refine .pure hu ⟨List.rel_append hnames (.cons ⟨rfl, rfl⟩ .nil), fun n a ha => ?_, hlength⟩
    rcases List.mem_append.mp ha with ha | ha
    · exact List.mem_append_left _ (hallocated n a ha)
    · obtain ⟨-, rfl⟩ : n = name ∧ a = ⟨t.machine.nextBuffer, spec.type, spec.length⟩ := by
        simpa using ha
      exact List.mem_append_right _ List.mem_cons_self

/-- The kernels of a sound workload can be declared. -/
theorem OnScript.declareKernels (h : s.OnScript options labels) (hw : w.Sound) :
    Serves options labels s w.declareKernels fun kernels t =>
      List.Forall₂ t.Knows w.kernels.entries kernels ∧ t.machine.buffers = s.machine.buffers ∧
        t.dag.vertices.length = s.dag.vertices.length := by
  -- a kernel that is declared gets a number above all that are in use
  refine (Serves.collect (I := fun done kernels t =>
    List.Forall₂ (fun declared id => t.Knows declared id ∧ id.2 < t.nextKernel) done kernels ∧
      t.machine.buffers = s.machine.buffers ∧
      t.dag.vertices.length = s.dag.vertices.length) ?_ h ⟨.nil, rfl, rfl⟩).imp
    fun _ _ ⟨hknown, hrest⟩ => ⟨hknown.imp fun _ _ hid => hid.1, hrest⟩
  rintro done ⟨name, spec⟩ rest kernels t hentries ht ⟨hknown, hbuffers, hlength⟩
  have hparse := hw.kernels name spec (by simp [hentries])
  have hk := Kernel.new_of_parse hparse t.nextKernel name
  generalize hkernel : (⟨t.nextKernel, name, spec.signature, spec.parameters, 0⟩ : Kernel) = k at hk
  refine Serves.bind (Q := fun id u => id = k.id ∧ u = t.withKernel k) (.request ht ?_) ?_
  · exact ⟨_, _, run_declareKernel hk, moves_withKernel t k, _, rfl, ht.due, rfl, rfl⟩
  · rintro _ _ hu ⟨rfl, rfl⟩
    refine .pure hu ⟨List.rel_append (hknown.imp ?_) (.cons ⟨⟨rfl, k, ?_, ?_, ?_⟩, ?_⟩ .nil),
      hbuffers, hlength⟩
    · rintro declared ⟨n, id⟩ ⟨⟨hname, k', hget, hk'⟩, hlt⟩
      refine ⟨⟨hname, k', ?_, hk'⟩, Nat.lt_succ_of_lt hlt⟩
      have hne : k.id ≠ id := by
        subst hkernel
        exact Nat.ne_of_gt hlt
      simpa [withKernel, hne] using hget
    · simp [withKernel]
    · subst hkernel
      rfl
    · subst hkernel
      rfl
    · subst hkernel
      exact Nat.lt_succ_self _

end Stage

end LaunchGraph
