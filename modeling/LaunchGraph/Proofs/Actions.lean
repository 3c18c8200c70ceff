import Mathlib.Tactic.Common
import LaunchGraph.Action

/-!
# Actions — running a composed step

The equations that push `Action.run` through the ways of composing steps, each for the outcome of
the first part.  With them a step is carried out by rewriting, one part after the other.

`Action.Keeps` says that a step leaves a part of the state as it is, whatever its outcome; composed
steps do if their parts do.
-/

namespace LaunchGraph.Action

variable {σ τ α β : Type}

theorem run_bind_ok {x : Action σ α} {f : α → Action σ β} {s t : σ} {a : α}
    (h : run x s = (.ok a, t)) : run (x >>= f) s = run (f a) t := by
  rw [run_bind, h]

theorem run_bind_error {x : Action σ α} {f : α → Action σ β} {s t : σ} {e : Halt}
    (h : run x s = (.error e, t)) : run (x >>= f) s = (.error e, t) := by
  rw [run_bind, h]

@[simp] theorem snd_run_bind_pure (x : Action σ α) (f : α → β) (s : σ) :
    (run (x >>= fun a => pure (f a)) s).2 = (run x s).2 := by
  rcases hx : run x s with ⟨_ | a, t⟩
  · rw [run_bind_error hx]
  · rw [run_bind_ok hx, run_pure]

/-- A composed step that succeeds does so in both parts. -/
theorem exists_run_of_bind {x : Action σ α} {f : α → Action σ β} {s t : σ} {b : β}
    (h : run (x >>= f) s = (.ok b, t)) :
    ∃ a u, run x s = (.ok a, u) ∧ run (f a) u = (.ok b, t) := by
  rcases hx : run x s with ⟨_ | a, u⟩
  · rw [run_bind_error hx] at h
    cases h
  · exact ⟨a, u, rfl, run_bind_ok hx ▸ h⟩

/-- A composed step that halts does so in one of its parts. -/
theorem error_of_bind {x : Action σ α} {f : α → Action σ β} {s : σ} {e : Halt}
    (h : (run (x >>= f) s).1 = .error e) :
    (run x s).1 = .error e ∨ ∃ a t, run x s = (.ok a, t) ∧ (run (f a) t).1 = .error e := by
  rcases hx : run x s with ⟨e' | a, t⟩
  · rw [run_bind_error hx] at h
    cases h
    exact .inl rfl
  · rw [run_bind_ok hx] at h
    exact .inr ⟨a, t, rfl, h⟩

@[simp] theorem run_gets_bind (g : σ → α) (f : α → Action σ β) (s : σ) :
    run (gets g >>= f) s = run (f (g s)) s := rfl

@[simp] theorem run_modify_bind (g : σ → σ) (f : Unit → Action σ β) (s : σ) :
    run (modify g >>= f) s = run (f ()) (g s) := rfl

@[simp] theorem run_fail (e : Error) (s : σ) :
    run (fail e : Action σ α) s = (.error (.error e), s) := rfl

@[simp] theorem run_require_some (a : α) (b : Breach) (s : σ) :
    run (require (some a) b : Action σ α) s = (.ok a, s) := rfl

@[simp] theorem run_require_none (b : Breach) (s : σ) :
    run (require none b : Action σ α) s = (.error (.breach b), s) := rfl

@[simp] theorem run_ofExcept_ok (a : α) (s : σ) :
    run (ofExcept (.ok a) : Action σ α) s = (.ok a, s) := rfl

@[simp] theorem run_ofExcept_error (e : Error) (s : σ) :
    run (ofExcept (.error e) : Action σ α) s = (.error (.error e), s) := rfl

theorem run_attempt_ok {x : Action σ α} {s t : σ} {a : α} (h : run x s = (.ok a, t)) :
    run (attempt x) s = (.ok (.ok a), t) := by
  unfold run at h
  simp only [run, attempt, h]

theorem run_attempt_error {x : Action σ α} {s t : σ} {e : Error}
    (h : run x s = (.error (.error e), t)) : run (attempt x) s = (.ok (.error e), t) := by
  unfold run at h
  simp only [run, attempt, h]

@[simp] theorem snd_run_attempt (x : Action σ α) (s : σ) :
    (run (attempt x) s).2 = (run x s).2 := by
  unfold run attempt
  split <;> (next h => rw [h])

theorem run_zoom {get : τ → σ} {set : σ → τ → τ} {x : Action σ α} {t : τ} {r : Except Halt α}
    {s : σ} (h : run x (get t) = (r, s)) : run (zoom get set x) t = (r, set s t) := by
  unfold run at h
  simp only [run, zoom, h]

@[simp] theorem run_each_nil (f : β → Action σ Unit) (s : σ) : run (each f []) s = (.ok (), s) :=
  rfl

@[simp] theorem run_each_cons (f : β → Action σ Unit) (b : β) (bs : List β) (s : σ) :
    run (each f (b :: bs)) s = run (f b >>= fun _ => each f bs) s := rfl

theorem each_append (f : β → Action σ Unit) (l l' : List β) :
    each f (l ++ l') = (do each f l; each f l') := by
  induction l with
  | nil => rfl
  | cons b rest ih =>
      change (do f b; each f (rest ++ l')) = (do (do f b; each f rest); each f l')
      rw [ih, bind_assoc]

/-- Where no step halts, it does not matter that errors would be passed over. -/
theorem run_each_attempt {f : β → Action σ Unit} {l : List β} {s t : σ}
    (h : run (each f l) s = (.ok (), t)) :
    run (each (fun b => do let _ ← attempt (f b)) l) s = (.ok (), t) := by
  induction l generalizing s with
  | nil => exact h
  | cons b rest ih =>
      obtain ⟨_, u, hb, hrest⟩ := exists_run_of_bind h
      rw [run_each_cons, bind_assoc, run_bind_ok (run_attempt_ok hb)]
      exact ih hrest

@[simp] theorem run_collect_cons (f : β → Action σ α) (b : β) (bs : List β) (s : σ) :
    run (collect f (b :: bs)) s =
      run (f b >>= fun a => collect f bs >>= fun as => pure (a :: as)) s := rfl

/-! ### What a step leaves as it is -/

/-- Whatever its outcome, the step leaves `f` of the state as it was; of its result `Q` holds. -/
def Keeps {γ : Type} (x : Action σ α) (f : σ → γ) (Q : α → Prop := fun _ => True) : Prop :=
  ∀ s, f (x.run s).2 = f s ∧ ∀ a, (x.run s).1 = .ok a → Q a

namespace Keeps

variable {γ : Type} {f : σ → γ} {Q : α → Prop} {R : β → Prop}

theorem pure {a : α} (h : Q a) : Keeps (Pure.pure a : Action σ α) f Q :=
  fun _ => ⟨rfl, fun _ hb => Except.ok.inj hb ▸ h⟩

theorem bind {x : Action σ α} {g : α → Action σ β} (hx : x.Keeps f Q)
    (hg : ∀ a, Q a → (g a).Keeps f R) : (x >>= g).Keeps f R := by
  intro s
  obtain ⟨hs, hq⟩ := hx s
  cases hrun : x.run s with
  | mk r t =>
      rw [hrun] at hs hq
      cases r with
      | ok a =>
          rw [run_bind_ok hrun]
          obtain ⟨ht, hr⟩ := hg a (hq a rfl) t
          exact ⟨ht.trans hs, hr⟩
      | error e =>
          rw [run_bind_error hrun]
          exact ⟨hs, fun _ hb => nomatch hb⟩

theorem done (a : α) : Keeps (Pure.pure a : Action σ α) f := .pure trivial

theorem seq {x : Action σ α} {g : α → Action σ β} (hx : x.Keeps f)
    (hg : ∀ a, (g a).Keeps f R) : (x >>= g).Keeps f R :=
  hx.bind fun a _ => hg a

theorem gets (g : σ → α) : (Action.gets g).Keeps f := fun _ => ⟨rfl, fun _ _ => trivial⟩

theorem modify {g : σ → σ} (h : ∀ s, f (g s) = f s) : (Action.modify g).Keeps f :=
  fun s => ⟨h s, fun _ _ => trivial⟩

theorem modify_seq {g : σ → σ} {k : Unit → Action σ β} (h : ∀ s, f (g s) = f s)
    (hk : (k ()).Keeps f R) : (Action.modify g >>= k).Keeps f R :=
  (modify h).seq fun _ => hk

theorem fail (e : Error) : (Action.fail e : Action σ α).Keeps f Q :=
  fun _ => ⟨rfl, fun _ hb => nomatch hb⟩

theorem fail_if {p : Prop} [Decidable p] {e : Error} {x : Action σ α} (hx : x.Keeps f Q) :
    (if p then (do Action.fail e; x) else x).Keeps f Q := by
  split
  · exact (fail e).seq fun (_ : PUnit) => hx
  · exact hx

theorem require (o : Option α) (b : Breach) : (Action.require o b : Action σ α).Keeps f := by
  cases o with
  | none => exact fun _ => ⟨rfl, fun _ _ => trivial⟩
  | some a => exact .done a

theorem ofExcept (r : Except Error α) : (Action.ofExcept r : Action σ α).Keeps f := by
  cases r with
  | ok a => exact .done a
  | error e => exact .fail e

theorem attempt {x : Action σ α} (hx : x.Keeps f) : (Action.attempt x).Keeps f := by
  intro s
  rw [snd_run_attempt]
  exact ⟨(hx s).1, fun _ _ => trivial⟩

theorem zoom {get : τ → σ} {set : σ → τ → τ} {x : Action σ α} {g : τ → γ} (hx : x.Keeps f Q)
    (hset : ∀ s t, g (set s t) = f s) (hget : ∀ t, g t = f (get t)) :
    (Action.zoom get set x).Keeps g Q := by
  intro t
  obtain ⟨hs, hq⟩ := hx (get t)
  exact ⟨(hset _ t).trans (hs.trans (hget t).symm), hq⟩

theorem each {g : β → Action σ Unit} (hg : ∀ b, (g b).Keeps f) (bs : List β) :
    (Action.each g bs).Keeps f := by
  induction bs with
  | nil => exact .done ()
  | cons b rest ih => exact (hg b).seq fun _ => ih

theorem collect {g : β → Action σ α} (hg : ∀ b, (g b).Keeps f) (bs : List β) :
    (Action.collect g bs).Keeps f := by
  induction bs with
  | nil => exact .done []
  | cons b rest ih => exact (hg b).seq fun _ => ih.seq fun _ => .done _

end Keeps

end LaunchGraph.Action
