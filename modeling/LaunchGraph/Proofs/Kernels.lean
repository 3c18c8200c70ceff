import LaunchGraph.Proofs.Runs

/-!
# Kernels — what a run does to them

A context has a table of kernels by number.  Of all commands three change it: a kernel is declared
under a number that is new, a kernel is made known, or a launch is counted (`Context.Restocks`).
Everything else leaves the table as it is, and so does whatever a launch does after it was counted
(`Context.keepsKernels_register`).

So every kernel stays under its own number (`Context.numbered_ran`), and stays as it is but for the
launches that are counted (`Context.Restocks.get?_eq`).  The count of a kernel that is declared is
zero, so no command but a launch changes what has been counted (`Context.Restocks.launchCount_eq`).
-/

namespace LaunchGraph

theorem Table.get?_insertNew {κ α : Type} [LT κ] [DecidableEq κ] [DecidableLT κ] [KeyOrder κ]
    (t : Table κ α) (k j : κ) (a : α) :
    (t.insertNew k a).get? j =
      if k = j then some ((t.get? k).getD a) else t.get? j := by
  unfold insertNew contains
  by_cases hj : k = j
  · subst hj
    cases hk : t.get? k <;> simp [hk]
  · cases hk : t.get? k <;> simp [hj]

namespace Context

/-! ### What leaves the kernels as they are -/

/-- The step leaves the kernels as they are, and makes up no new number. -/
abbrev KeepsKernels {α : Type} (x : Action Context α) : Prop := x.Keeps catalog

theorem keepsKernels_onScheduler {α : Type} (x : Action Scheduler α) :
    KeepsKernels (onScheduler x) :=
  fun _ => ⟨rfl, fun _ _ => trivial⟩

theorem keepsKernels_failVertex (v : VertexId) (cause : FailureCause) :
    KeepsKernels (Action.modify fun c => c.failVertex v cause) :=
  .modify fun c => catalog_failVertex c v cause

theorem keepsKernels_observe : KeepsKernels observe :=
  Detached.observe
    { ofEq := fun _ _ _ hcatalog => hcatalog
      eventStatus := fun _ => keepsKernels_onScheduler _
      releaseEvent := fun _ => keepsKernels_onScheduler _ }

theorem keepsKernels_issueVertex (v : VertexId) : KeepsKernels (issueVertex v) := by
  refine (keepsKernels_onScheduler _).seq fun e => ?_
  cases e.isTerminal with
  | true => exact .done _
  | false =>
      refine (keepsKernels_onScheduler _).seq fun stream =>
        (keepsKernels_onScheduler _).attempt.seq fun waits => ?_
      dsimp only
      split
      · exact keepsKernels_failVertex v _
      · exact keepsKernels_failVertex v _
      · exact keepsKernels_failVertex v _
      · refine (keepsKernels_onScheduler _).attempt.seq fun issued => ?_
        cases issued with
        | error error => exact keepsKernels_failVertex v _
        | ok =>
            refine (keepsKernels_onScheduler _).attempt.seq fun recorded => ?_
            cases recorded with
            | ok event => exact .modify fun _ => rfl
            | error error => exact .modify_seq (fun _ => rfl) <| .fail error

/-- Registering leaves the kernels as they are. -/
theorem keepsKernels_register (e : Element) : KeepsKernels (register e) := by
  refine keepsKernels_observe.seq fun _ => (keepsKernels_onScheduler _).seq fun v =>
    (keepsKernels_onScheduler _).attempt.seq fun assigned => ?_
  cases assigned with
  | error error => exact (keepsKernels_failVertex v _).seq fun _ => .fail error
  | ok stream =>
      have henqueue : KeepsKernels (enqueue v e.work.blocksHost) :=
        fun _ => ⟨rfl, fun _ _ => trivial⟩
      refine henqueue.seq fun ready =>
        (Action.Keeps.each keepsKernels_issueVertex ready).seq fun _ => ?_
      cases e.work.blocksHost with
      | false => exact .done _
      | true =>
          refine (keepsKernels_onScheduler _).seq fun el => ?_
          cases el.isTerminal with
          | true => exact .done _
          | false =>
              exact (keepsKernels_onScheduler _).seq fun _ =>
                keepsKernels_observe.seq fun _ => .done _

theorem keepsKernels_flush : KeepsKernels flush := by
  have hdrain : KeepsKernels drainQueue := fun _ => ⟨rfl, fun _ _ => trivial⟩
  exact keepsKernels_observe.seq fun _ => hdrain.seq fun ready =>
    .each keepsKernels_issueVertex ready

theorem keepsKernels_synchronize : KeepsKernels synchronize :=
  keepsKernels_flush.seq fun _ => (keepsKernels_onScheduler _).seq fun _ => keepsKernels_observe

theorem keepsKernels_wait (v : VertexId) : KeepsKernels (wait v) := by
  have hverdict : KeepsKernels (do
      let e ← element v
      Action.ofExcept (verdict v e)) :=
    (keepsKernels_onScheduler _).seq fun _ => .ofExcept _
  refine keepsKernels_flush.seq fun _ => (keepsKernels_onScheduler _).seq fun e => ?_
  cases e.isTerminal with
  | true => exact hverdict
  | false =>
      cases e.stream with
      | none => exact keepsKernels_observe.seq fun _ => hverdict
      | some stream =>
          exact (keepsKernels_onScheduler _).seq fun _ => keepsKernels_observe.seq fun _ => hverdict

theorem keepsKernels_cleanup : KeepsKernels cleanup := by
  refine (Action.Keeps.gets _).seq fun busy => ?_
  cases busy with
  | true => exact keepsKernels_synchronize.seq fun _ => keepsKernels_onScheduler _
  | false => exact keepsKernels_onScheduler _

/-- Answering with what a step gave leaves the kernels as they are if the step does. -/
theorem catalog_reply {α : Type} {x : Action Context α} (hx : KeepsKernels x) (f : α → Reply)
    (c : Context) : ((x >>= fun a => pure (f a)).run c).2.catalog = c.catalog := by
  rw [Action.snd_run_bind_pure]
  exact (hx c).1

/-! ### What commands make of the kernels -/

/-- What a command can make of the kernels. -/
inductive Restocks (c : Context) : Command → Context → Prop where
  | keep {command : Command} {c' : Context} (h : c'.kernels = c.kernels)
      (hn : c'.nextKernel = c.nextKernel) : Restocks c command c'
  | declare {name signature : String} {k : Kernel} {c' : Context} (hid : k.id = c.nextKernel)
      (hcount : k.launchCount = 0) (h : c'.kernels = c.kernels.insert k.id k)
      (hn : c'.nextKernel = c.nextKernel + 1) : Restocks c (.declare name signature) c'
  | register {k : Kernel} {c' : Context} (h : c'.kernels = c.kernels.insertNew k.id k)
      (hn : c'.nextKernel = c.nextKernel) : Restocks c (.registerKernel k) c'
  | launch {id : KernelId} {config : LaunchConfig} {values : List CallValue} {k : Kernel}
      {c' : Context} (hk : c.kernels.get? id = some k)
      (h : c'.kernels = c.kernels.insert id { k with launchCount := k.launchCount + 1 })
      (hn : c'.nextKernel = c.nextKernel) : Restocks c (.launch id config values) c'

theorem restocks_declare (c : Context) (name signature : String) :
    c.Restocks (.declare name signature) ((perform (.declare name signature)).run c).2 := by
  simp only [perform, declareKernel, newKernel, bind_assoc, Action.run_gets_bind]
  cases hk : Kernel.new c.nextKernel name signature with
  | error error => exact .keep rfl rfl
  | ok k =>
      unfold Kernel.new at hk
      split at hk
      · obtain rfl := Except.ok.inj hk
        exact .declare rfl rfl rfl rfl
      · cases hk

theorem restocks_launch (c : Context) (id : KernelId) (config : LaunchConfig)
    (values : List CallValue) :
    c.Restocks (.launch id config values) ((perform (.launch id config values)).run c).2 := by
  simp only [perform, launch, bind_assoc, Action.run_gets_bind]
  cases hk : c.kernels.get? id with
  | none => exact .keep rfl rfl
  | some k =>
      cases hl : k.launch config values with
      | error error =>
          simp only [hl]
          exact .keep rfl rfl
      | ok out =>
          obtain ⟨e, k'⟩ := out
          obtain ⟨arguments, -, -, rfl⟩ := Kernel.launch_ok hl
          have hkept := catalog_reply (keepsKernels_register e) Reply.vertex { c with
            kernels := c.kernels.insert id { k with launchCount := k.launchCount + 1 } }
          simp only [hl]
          exact .launch hk (congrArg Prod.fst hkept) (congrArg Prod.snd hkept)

/-- **What every command makes of the kernels.** -/
theorem restocks_perform (c : Context) (command : Command) :
    c.Restocks command ((perform command).run c).2 := by
  have hkeep : ∀ {α : Type} {x : Action Context α} {f : α → Reply}, KeepsKernels x →
      c.Restocks command ((x >>= fun a => pure (f a)).run c).2 := fun hx =>
    .keep (congrArg Prod.fst (catalog_reply hx _ c)) (congrArg Prod.snd (catalog_reply hx _ c))
  cases command with
  | allocate type length =>
      exact hkeep ((keepsKernels_onScheduler _).seq fun _ => .modify_seq (fun _ => rfl) (.done _))
  | registerArray a => exact .keep rfl rfl
  | declare name signature => exact restocks_declare c name signature
  | registerKernel k => exact .register rfl rfl
  | launch id config values => exact restocks_launch c id config values
  | access a write =>
      exact hkeep (.modify_seq (fun _ => rfl) (keepsKernels_register _))
  | register e => exact hkeep (keepsKernels_register e)
  | wait v => exact hkeep (keepsKernels_wait v)
  | state v =>
      exact hkeep (keepsKernels_observe.seq fun _ =>
        (keepsKernels_onScheduler _).seq fun _ => .done _)
  | flush => exact hkeep keepsKernels_flush
  | synchronize => exact hkeep keepsKernels_synchronize
  | cleanup => exact hkeep keepsKernels_cleanup
  | isActive => exact hkeep (keepsKernels_observe.seq fun _ => .gets _)
  | hasPending | summary => exact .keep rfl rfl
  | device command => exact hkeep (keepsKernels_onScheduler _)

/-- How many launches of kernel `id` have been counted, of a kernel that is not known none. -/
def launchCount (c : Context) (id : KernelId) : Nat :=
  (c.kernels.get? id).elim 0 Kernel.launchCount

/-- Every kernel is known under its own number. -/
def Numbered (c : Context) : Prop := ∀ id k, c.kernels.get? id = some k → k.id = id

namespace Restocks

variable {c c' : Context} {command : Command}

/-- No number is given out twice. -/
theorem nextKernel_le (h : c.Restocks command c') : c.nextKernel ≤ c'.nextKernel := by
  cases h with
  | keep _ hn | register _ hn | launch _ _ hn => exact Nat.le_of_eq hn.symm
  | declare _ _ _ hn => exact hn ▸ Nat.le_succ _

/-- **A kernel stays as it is**, unless the command launches it or gives its number to another. -/
theorem get?_eq (h : c.Restocks command c') {id : KernelId} {k : Kernel}
    (hk : c.kernels.get? id = some k) (hl : ∀ config values, command ≠ .launch id config values)
    (hd : ∀ name signature, command = .declare name signature → id < c.nextKernel) :
    c'.kernels.get? id = some k := by
  cases h with
  | keep h => rwa [h]
  | declare hid _ h =>
      have hne := Nat.ne_of_gt (hd _ _ rfl)
      rw [h, hid, Table.get?_insert, if_neg hne, hk]
  | register h =>
      rw [h, Table.get?_insertNew]
      split
      · next heq => rw [heq, hk, Option.getD_some]
      · exact hk
  | launch _ h =>
      rw [h, Table.get?_insert]
      split
      · next heq => exact absurd (by rw [heq]) (hl _ _)
      · exact hk

/-- Where a kernel that is known comes from. -/
theorem known_cases (h : c.Restocks command c') {id : KernelId}
    (hknown : (c'.kernels.get? id).isSome) :
    (c.kernels.get? id).isSome ∨ id < c'.nextKernel ∨
      ∃ k, command = .registerKernel k ∧ k.id = id := by
  cases h with
  | keep h => exact .inl (h ▸ hknown)
  | declare hid _ h hn =>
      rw [h, Table.get?_insert] at hknown
      split at hknown
      · next heq =>
        rw [hn, ← hid, heq]
        exact .inr (.inl (Nat.lt_succ_self id))
      · exact .inl hknown
  | @register k _ h =>
      by_cases heq : k.id = id
      · exact .inr (.inr ⟨k, rfl, heq⟩)
      · rw [h, Table.get?_insertNew, if_neg heq] at hknown
        exact .inl hknown
  | launch hk h =>
      rw [h, Table.get?_insert] at hknown
      split at hknown
      · next heq => exact .inl (heq ▸ Option.isSome_of_mem hk)
      · exact .inl hknown

/-- **What has been counted stays**, unless the command launches the kernel: a kernel that becomes
known is one that was not launched yet.  Its number must not be that of another kernel, if the
command gives it out. -/
theorem launchCount_eq (h : c.Restocks command c') {id : KernelId}
    (hl : ∀ config values, command ≠ .launch id config values)
    (hr : ∀ k, command = .registerKernel k → k.id = id → k.launchCount = 0)
    (hfresh : c.nextKernel ≤ id → id < c'.nextKernel → c.kernels.get? id = none) :
    c'.launchCount id = c.launchCount id := by
  unfold launchCount
  cases h with
  | keep h => rw [h]
  | @declare _ _ k _ hid hcount h hn =>
      rw [h, Table.get?_insert]
      split
      · next heq =>
        have hnext : c.nextKernel = id := hid.symm.trans heq
        rw [hfresh (Nat.le_of_eq hnext) (hn ▸ hnext ▸ Nat.lt_succ_self _)]
        exact hcount
      · rfl
  | @register k _ h =>
      rw [h, Table.get?_insertNew]
      split
      · next heq =>
        rw [heq]
        cases hx : c.kernels.get? id with
        | none => exact hr k rfl heq
        | some x => rfl
      · rfl
  | launch _ h =>
      rw [h, Table.get?_insert]
      split
      · next heq => exact absurd (by rw [heq]) (hl _ _)
      · rfl

theorem numbered (h : c.Restocks command c') (hn : c.Numbered) : c'.Numbered := by
  intro id k hk
  cases h with
  | keep h => exact hn id k (h ▸ hk)
  | declare _ _ h =>
      rw [h, Table.get?_insert] at hk
      split at hk
      · next heq => exact Option.some.inj hk ▸ heq
      · exact hn id k hk
  | @register x _ h =>
      rw [h, Table.get?_insertNew] at hk
      split at hk
      · next heq =>
        subst heq
        cases hx : c.kernels.get? x.id with
        | none =>
            obtain rfl : x = k := by simpa [hx] using hk
            rfl
        | some y => exact hn _ k (by simpa [hx] using hk)
      · exact hn id k hk
  | launch hx h =>
      rw [h, Table.get?_insert] at hk
      split at hk
      · next heq =>
        obtain rfl := Option.some.inj hk
        exact (hn _ _ hx).trans heq
      · exact hn id k hk

end Restocks

/-- **Every kernel is known under its own number**, after any run. -/
theorem numbered_ran (options : ContextOptions) (commands : List Command) :
    (ran options commands).Numbered := by
  induction commands using List.reverseRecOn with
  | nil =>
      intro id k hk
      cases hk
  | append_singleton earlier command ih =>
      rw [ran_concat]
      exact (restocks_perform _ command).numbered ih

end Context

end LaunchGraph
