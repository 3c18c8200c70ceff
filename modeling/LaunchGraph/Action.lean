import LaunchGraph.Error

/-!
# Actions

A step of a stateful part of the scheduler.  A step may halt, and then what it changed before
that stays: its result comes together with the state it leaves behind.

A step halts with an error, which the caller is meant to handle, or on a breach: the caller
referred to a vertex or an edge that does not exist, or used an element twice.  Errors can be
handled inside a step (`Action.attempt`), breaches cannot.
-/

namespace LaunchGraph

/-- How a caller can break the rules of the graph. -/
inductive Breach where
  | noVertex (vertex : VertexId)
  | noEdge (edge : EdgeId)
  /-- An element is already part of a graph. -/
  | registeredTwice
  /-- An edge does not lead to a later vertex. -/
  | edgeNotIncreasing (source target : VertexId)
  | edgeOutsideFrontier (source target : VertexId)
  | duplicateEdge (source target : VertexId)
deriving DecidableEq, Repr

/-- Why a step did not get to its end. -/
inductive Halt where
  | error (e : Error)
  | breach (b : Breach)
deriving DecidableEq, Repr

/-- A step on a state `σ` with a result in `α`. -/
def Action (σ α : Type) : Type := σ → Except Halt α × σ

namespace Action

variable {σ τ α β : Type}

/-- The result of a step, and the state it leaves behind. -/
def run (x : Action σ α) (s : σ) : Except Halt α × σ := x s

instance : Monad (Action σ) where
  pure a := fun s => (.ok a, s)
  bind x f := fun s =>
    match x s with
    | (.ok a, t) => f a t
    | (.error h, t) => (.error h, t)

/-- Halts. -/
def halt (h : Halt) : Action σ α := fun s => (.error h, s)

/-- Halts with an error. -/
def fail (e : Error) : Action σ α := halt (.error e)

/-- The current state, through `f`. -/
def gets (f : σ → α) : Action σ α := fun s => (.ok (f s), s)

/-- Changes the state. -/
def modify (f : σ → σ) : Action σ Unit := fun s => (.ok (), f s)

/-- The value, or a breach where there is none. -/
def require (o : Option α) (b : Breach) : Action σ α :=
  match o with
  | some a => pure a
  | none => halt (.breach b)

/-- The result of a computation that does not touch the state. -/
def ofExcept (r : Except Error α) : Action σ α :=
  match r with
  | .ok a => pure a
  | .error e => fail e

/-- Hands an error of `x` on as its result. -/
def attempt (x : Action σ α) : Action σ (Except Error α) := fun s =>
  match x s with
  | (.ok a, t) => (.ok (.ok a), t)
  | (.error (.error e), t) => (.ok (.error e), t)
  | (.error (.breach b), t) => (.error (.breach b), t)

/-- A step on a part of the state. -/
def zoom (get : τ → σ) (set : σ → τ → τ) (x : Action σ α) : Action τ α := fun t =>
  match x (get t) with
  | (r, s) => (r, set s t)

/-- One step per item, in order; the first halt ends it. -/
def each (f : β → Action σ Unit) : List β → Action σ Unit
  | [] => pure ()
  | b :: rest => do
      f b
      each f rest

/-- One step per item, in order, with the list of the results; the first halt ends it. -/
def collect (f : β → Action σ α) : List β → Action σ (List α)
  | [] => pure []
  | b :: rest => do
      let a ← f b
      let as ← collect f rest
      pure (a :: as)

@[simp] theorem run_pure (a : α) (s : σ) : run (pure a : Action σ α) s = (.ok a, s) := rfl

theorem run_bind (x : Action σ α) (f : α → Action σ β) (s : σ) :
    run (x >>= f) s =
      match run x s with
      | (.ok a, t) => run (f a) t
      | (.error h, t) => (.error h, t) := rfl

@[simp] theorem run_halt (h : Halt) (s : σ) : run (halt h : Action σ α) s = (.error h, s) := rfl

@[simp] theorem run_gets (f : σ → α) (s : σ) : run (gets f) s = (.ok (f s), s) := rfl

@[simp] theorem run_modify (f : σ → σ) (s : σ) : run (modify f) s = (.ok (), f s) := rfl

instance : LawfulMonad (Action σ) :=
  LawfulMonad.mk' _
    (fun {α} x => by
      funext s
      have h : ∀ r : Except Halt α × σ,
          (match r with
            | (.ok a, t) => ((.ok (id a), t) : Except Halt α × σ)
            | (.error h, t) => (.error h, t)) = r := by
        rintro ⟨_ | _, _⟩ <;> rfl
      exact h (x s))
    (fun _ _ => rfl)
    (fun {α β γ} x f g => by
      funext s
      have h : ∀ r : Except Halt α × σ,
          (match (match r with
              | (.ok a, t) => f a t
              | (.error h, t) => ((.error h, t) : Except Halt β × σ)) with
            | (.ok b, t) => g b t
            | (.error h, t) => ((.error h, t) : Except Halt γ × σ)) =
          (match r with
            | (.ok a, t) => (f a >>= g) t
            | (.error h, t) => (.error h, t)) := by
        rintro ⟨_ | _, _⟩ <;> rfl
      exact h (x s))

end Action

end LaunchGraph
