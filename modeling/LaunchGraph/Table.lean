/-!
# Tables

A finite map whose entries stand in increasing order of their keys.  The order is part of the
type, so a table is determined by its lookups (`Table.ext_get?`), and a walk over it meets the
keys in order.  Streams, events, arrays and kernels are kept in tables keyed by number; the
declarations of a workload are kept in tables keyed by name.
-/

namespace LaunchGraph

/-- A strict linear order on keys. -/
class KeyOrder (κ : Type) [LT κ] : Prop where
  irrefl : ∀ a : κ, ¬ a < a
  trans : ∀ {a b c : κ}, a < b → b < c → a < c
  connected : ∀ {a b : κ}, a ≠ b → ¬ b < a → a < b

instance : KeyOrder Nat where
  irrefl := Nat.lt_irrefl
  trans := Nat.lt_trans
  connected := fun hne h => by omega

instance : KeyOrder String where
  irrefl := String.lt_irrefl
  trans := String.lt_trans
  connected := fun hne h => Std.lt_of_le_of_ne (Std.not_lt.mp h) hne

/-- A finite map from `κ` to `α`, its entries in increasing order of their keys. -/
structure Table (κ : Type) [LT κ] (α : Type) where
  /-- The entries, by key. -/
  entries : List (κ × α)
  /-- No key occurs twice, and the keys increase. -/
  ordered : entries.Pairwise (fun a b => a.1 < b.1)

namespace Table

variable {κ α β : Type}

/-! ### Lists of entries -/

section Lists

/-- The value at `k` in a list of entries. -/
def lookup [DecidableEq κ] (k : κ) : List (κ × α) → Option α
  | [] => none
  | (j, a) :: rest => if j = k then some a else lookup k rest

/-- The entries with the one at `k` changed by `f`. -/
def modifyAt [DecidableEq κ] (k : κ) (f : α → α) : List (κ × α) → List (κ × α)
  | [] => []
  | (j, a) :: rest => if j = k then (j, f a) :: rest else (j, a) :: modifyAt k f rest

/-- The entries with `a` at `k`: an entry at `k` is replaced, a new one takes its place in the
order. -/
def insertAt [DecidableEq κ] [LT κ] [DecidableLT κ] (k : κ) (a : α) :
    List (κ × α) → List (κ × α)
  | [] => [(k, a)]
  | (j, b) :: rest =>
      if j = k then (k, a) :: rest
      else if k < j then (k, a) :: (j, b) :: rest
      else (j, b) :: insertAt k a rest

/-- The entries with their values changed by `f`, which may refuse one; the first refusal counts. -/
def traverseAt {ε : Type} (f : κ → α → Except ε β) : List (κ × α) → Except ε (List (κ × β))
  | [] => .ok []
  | (k, a) :: rest => do
      let b ← f k a
      let bs ← traverseAt f rest
      .ok ((k, b) :: bs)

theorem map_fst_traverseAt {ε : Type} {f : κ → α → Except ε β} {l : List (κ × α)}
    {m : List (κ × β)} (h : traverseAt f l = .ok m) : m.map Prod.fst = l.map Prod.fst := by
  induction l generalizing m with
  | nil => cases h; rfl
  | cons e rest ih =>
      obtain ⟨k, a⟩ := e
      simp only [traverseAt, bind, Except.bind] at h
      split at h
      · cases h
      · split at h
        · cases h
        next hbs => cases h; simp [ih hbs]

theorem map_fst_modifyAt [DecidableEq κ] (k : κ) (f : α → α) (l : List (κ × α)) :
    (modifyAt k f l).map Prod.fst = l.map Prod.fst := by
  induction l with
  | nil => rfl
  | cons e rest ih =>
      simp only [modifyAt]
      split <;> simp [ih]

theorem lookup_modifyAt [DecidableEq κ] (k j : κ) (f : α → α) (l : List (κ × α)) :
    lookup j (modifyAt k f l) = if k = j then (lookup j l).map f else lookup j l := by
  induction l with
  | nil => simp [modifyAt, lookup]
  | cons e rest ih => grind [modifyAt, lookup]

theorem lookup_filter [DecidableEq κ] (k j : κ) (l : List (κ × α)) :
    lookup j (l.filter (fun e => e.1 ≠ k)) = if k = j then none else lookup j l := by
  induction l with
  | nil => simp [lookup]
  | cons e rest ih => grind [lookup]

theorem mem_of_lookup_eq_some [DecidableEq κ] {k : κ} {a : α} {l : List (κ × α)}
    (h : lookup k l = some a) : (k, a) ∈ l := by
  induction l with
  | nil => simp [lookup] at h
  | cons e rest ih => grind [lookup]

theorem lookup_insertAt [DecidableEq κ] [LT κ] [DecidableLT κ] (k j : κ) (a : α)
    (l : List (κ × α)) :
    lookup j (insertAt k a l) = if k = j then some a else lookup j l := by
  induction l with
  | nil => simp [insertAt, lookup]
  | cons e rest ih => grind [insertAt, lookup]

theorem mem_insertAt [DecidableEq κ] [LT κ] [DecidableLT κ] {k : κ} {a : α}
    {l : List (κ × α)} {e : κ × α} : e ∈ insertAt k a l → e = (k, a) ∨ e ∈ l := by
  induction l with
  | nil => simp [insertAt]
  | cons d rest ih => grind [insertAt]

theorem ordered_insertAt [DecidableEq κ] [LT κ] [DecidableLT κ] [KeyOrder κ] (k : κ) (a : α)
    {l : List (κ × α)} (h : l.Pairwise (fun a b => a.1 < b.1)) :
    (insertAt k a l).Pairwise (fun a b => a.1 < b.1) := by
  induction l with
  | nil => simp [insertAt]
  | cons d rest ih =>
      obtain ⟨hd, hrest⟩ := List.pairwise_cons.mp h
      simp only [insertAt]
      split
      next heq => exact List.pairwise_cons.mpr ⟨fun e he => heq ▸ hd e he, hrest⟩
      next hne =>
        split
        next hlt =>
          refine List.pairwise_cons.mpr ⟨fun e he => ?_, h⟩
          rcases List.mem_cons.mp he with rfl | he
          · exact hlt
          · exact KeyOrder.trans hlt (hd e he)
        next hnlt =>
          refine List.pairwise_cons.mpr ⟨fun e he => ?_, ih hrest⟩
          rcases mem_insertAt he with rfl | he
          · exact KeyOrder.connected hne hnlt
          · exact hd e he

/-- In ordered entries every entry is found at its key. -/
theorem lookup_eq_some_of_mem [DecidableEq κ] [LT κ] [KeyOrder κ] {k : κ} {a : α}
    {l : List (κ × α)} (h : l.Pairwise (fun a b => a.1 < b.1)) (hmem : (k, a) ∈ l) :
    lookup k l = some a := by
  induction l with
  | nil => cases hmem
  | cons e rest ih =>
      obtain ⟨hd, hrest⟩ := List.pairwise_cons.mp h
      rcases List.mem_cons.mp hmem with rfl | hmem
      · simp [lookup]
      · have hne : e.1 ≠ k := fun heq =>
          KeyOrder.irrefl k (by simpa [heq] using hd (k, a) hmem)
        simp [lookup, hne, ih hrest hmem]

/-- Ordered entries are determined by their lookups. -/
theorem eq_of_lookup_eq [DecidableEq κ] [LT κ] [KeyOrder κ] {l m : List (κ × α)}
    (hl : l.Pairwise (fun a b => a.1 < b.1)) (hm : m.Pairwise (fun a b => a.1 < b.1))
    (h : ∀ k, lookup k l = lookup k m) : l = m := by
  have hsub : ∀ {l m : List (κ × α)}, l.Pairwise (fun a b => a.1 < b.1) →
      (∀ k, lookup k l = lookup k m) → ∀ e ∈ l, e ∈ m := fun hl h e he =>
    mem_of_lookup_eq_some ((h e.1) ▸ lookup_eq_some_of_mem hl he)
  induction l generalizing m with
  | nil =>
      cases m with
      | nil => rfl
      | cons e m => simpa using hsub hm (fun k => (h k).symm) e List.mem_cons_self
  | cons d l ih =>
      cases m with
      | nil => simpa using hsub hl h d List.mem_cons_self
      | cons e m =>
          obtain ⟨hd, hl'⟩ := List.pairwise_cons.mp hl
          obtain ⟨he, hm'⟩ := List.pairwise_cons.mp hm
          have hde : d = e := by
            rcases List.mem_cons.mp (hsub hl h d List.mem_cons_self) with hde | hdm
            · exact hde
            rcases List.mem_cons.mp (hsub hm (fun k => (h k).symm) e List.mem_cons_self)
              with hed | hel
            · exact hed.symm
            exact absurd (KeyOrder.trans (hd e hel) (he d hdm)) (KeyOrder.irrefl _)
          subst hde
          have : l = m := ih hl' hm' fun k => by
            by_cases hk : d.1 = k
            · have hnone : ∀ {n : List (κ × α)}, (∀ a ∈ n, d.1 < a.1) → lookup k n = none :=
                fun {n} hn => by
                  match hlk : lookup k n with
                  | none => rfl
                  | some a =>
                      have := hn _ (mem_of_lookup_eq_some hlk)
                      exact absurd (hk ▸ this) (KeyOrder.irrefl _)
              rw [hnone hd, hnone he]
            · simpa [lookup, hk] using h k
          rw [this]

end Lists

/-! ### The operations -/

section Operations

variable [LT κ]

/-- The table without entries. -/
def empty : Table κ α := ⟨[], .nil⟩

instance : EmptyCollection (Table κ α) := ⟨empty⟩

instance : Inhabited (Table κ α) := ⟨empty⟩

instance [DecidableEq κ] [DecidableEq α] : DecidableEq (Table κ α) := fun s t =>
  decidable_of_iff (s.entries = t.entries) (by cases s; cases t; simp)

/-- The keys, in order. -/
def keys (t : Table κ α) : List κ := t.entries.map Prod.fst

/-- The values, by key. -/
def values (t : Table κ α) : List α := t.entries.map Prod.snd

/-- How many entries there are. -/
def size (t : Table κ α) : Nat := t.entries.length

/-- The value at `k`. -/
def get? [DecidableEq κ] (t : Table κ α) (k : κ) : Option α := lookup k t.entries

/-- Whether there is an entry at `k`. -/
def contains [DecidableEq κ] (t : Table κ α) (k : κ) : Bool := (t.get? k).isSome

/-- The table without an entry at `k`. -/
def erase [DecidableEq κ] (t : Table κ α) (k : κ) : Table κ α :=
  ⟨t.entries.filter (fun e => e.1 ≠ k), t.ordered.filter _⟩

/-- The table with the value at `k`, if there is one, changed by `f`. -/
def modify [DecidableEq κ] (t : Table κ α) (k : κ) (f : α → α) : Table κ α :=
  ⟨modifyAt k f t.entries, by
    have h := t.ordered
    rw [← List.pairwise_map (f := Prod.fst) (R := (· < ·))] at h ⊢
    rwa [map_fst_modifyAt]⟩

/-- The table with its values changed by `f`, which may refuse one; the first refusal by key
counts. -/
def traverse {ε : Type} (f : κ → α → Except ε β) (t : Table κ α) : Except ε (Table κ β) :=
  match h : traverseAt f t.entries with
  | .ok m =>
      .ok ⟨m, by
        have ordered := t.ordered
        rw [← List.pairwise_map (f := Prod.fst) (R := (· < ·))] at ordered ⊢
        rwa [map_fst_traverseAt h]⟩
  | .error e => .error e

variable [DecidableEq κ] [DecidableLT κ] [KeyOrder κ]

/-- The table with `a` at `k`. -/
def insert (t : Table κ α) (k : κ) (a : α) : Table κ α :=
  ⟨insertAt k a t.entries, ordered_insertAt k a t.ordered⟩

/-- The table with `a` at `k`, unless there is an entry at `k` already. -/
def insertNew (t : Table κ α) (k : κ) (a : α) : Table κ α :=
  if t.contains k then t else t.insert k a

/-- The table of a list of entries; of two entries at one key the later one stays. -/
def ofList (l : List (κ × α)) : Table κ α :=
  l.foldl (fun t e => t.insert e.1 e.2) empty

end Operations

/-! ### Lookups -/

@[simp] theorem get?_empty [LT κ] [DecidableEq κ] (k : κ) :
    (empty : Table κ α).get? k = none := rfl

@[simp] theorem get?_insert [LT κ] [DecidableEq κ] [DecidableLT κ] [KeyOrder κ]
    (t : Table κ α) (k j : κ) (a : α) :
    (t.insert k a).get? j = if k = j then some a else t.get? j :=
  lookup_insertAt k j a t.entries

@[simp] theorem get?_erase [LT κ] [DecidableEq κ] (t : Table κ α) (k j : κ) :
    (t.erase k).get? j = if k = j then none else t.get? j :=
  lookup_filter k j t.entries

@[simp] theorem get?_modify [LT κ] [DecidableEq κ] (t : Table κ α) (k j : κ) (f : α → α) :
    (t.modify k f).get? j = if k = j then (t.get? j).map f else t.get? j :=
  lookup_modifyAt k j f t.entries

@[simp] theorem keys_modify [LT κ] [DecidableEq κ] (t : Table κ α) (k : κ) (f : α → α) :
    (t.modify k f).keys = t.keys :=
  map_fst_modifyAt k f t.entries

/-- A table is determined by its lookups. -/
theorem ext_get? [LT κ] [DecidableEq κ] [KeyOrder κ] {s t : Table κ α}
    (h : ∀ k, s.get? k = t.get? k) : s = t := by
  cases s with
  | mk l hl =>
      cases t with
      | mk m hm =>
          have : l = m := eq_of_lookup_eq hl hm h
          subst this
          rfl

end Table

end LaunchGraph
