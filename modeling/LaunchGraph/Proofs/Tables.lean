import Mathlib.Tactic.Common
import LaunchGraph.Table

/-!
# Tables — membership

Which keys a table has, and how the operations change that.  `contains` is the form in which the
pool of streams and the device ask; `keys` is the form in which they walk over a table.
-/

namespace LaunchGraph.Table

variable {κ α : Type} [LT κ] [DecidableEq κ]

theorem contains_iff {t : Table κ α} {k : κ} : t.contains k = true ↔ ∃ a, t.get? k = some a :=
  Option.isSome_iff_exists

theorem contains_of_get? {t : Table κ α} {k : κ} {a : α} (h : t.get? k = some a) :
    t.contains k = true :=
  contains_iff.mpr ⟨a, h⟩

theorem get?_eq_none_iff {t : Table κ α} {k : κ} : t.get? k = none ↔ t.contains k = false := by
  simp [contains]

@[simp] theorem contains_empty (k : κ) : (empty : Table κ α).contains k = false := rfl

@[simp] theorem contains_modify (t : Table κ α) (k j : κ) (f : α → α) :
    (t.modify k f).contains j = t.contains j := by
  unfold contains
  rw [get?_modify]
  split <;> simp

@[simp] theorem contains_erase (t : Table κ α) (k j : κ) :
    (t.erase k).contains j = (decide (k ≠ j) && t.contains j) := by
  unfold contains
  rw [get?_erase]
  split <;> simp [*]

@[simp] theorem contains_insert [DecidableLT κ] [KeyOrder κ] (t : Table κ α) (k j : κ) (a : α) :
    (t.insert k a).contains j = (decide (k = j) || t.contains j) := by
  unfold contains
  rw [get?_insert]
  split <;> simp [*]

/-- Of two entries made at one key, the later one stays. -/
theorem insert_insert [DecidableLT κ] [KeyOrder κ] (t : Table κ α) (k : κ) (a b : α) :
    (t.insert k a).insert k b = t.insert k b :=
  ext_get? fun j => by by_cases h : k = j <;> simp [h]

/-- Entries at different keys are made in either order. -/
theorem insert_comm [DecidableLT κ] [KeyOrder κ] (t : Table κ α) {k j : κ} (hne : k ≠ j)
    (a b : α) : (t.insert k a).insert j b = (t.insert j b).insert k a := by
  refine ext_get? fun i => ?_
  by_cases hk : k = i
  · simp [hk, show j ≠ i from fun h => hne (hk.trans h.symm)]
  · simp [hk]

/-- Entries at different keys are changed in either order. -/
theorem modify_comm [KeyOrder κ] (t : Table κ α) {k j : κ} (hne : k ≠ j) (f g : α → α) :
    (t.modify k f).modify j g = (t.modify j g).modify k f := by
  refine ext_get? fun i => ?_
  by_cases hk : k = i
  · simp [hk, show j ≠ i from fun h => hne (hk.trans h.symm)]
  · simp [hk]

/-- The keys are those with an entry. -/
theorem mem_keys_iff [KeyOrder κ] {t : Table κ α} {k : κ} : k ∈ t.keys ↔ t.contains k = true := by
  rw [contains_iff]
  constructor
  · intro h
    obtain ⟨⟨j, a⟩, he, rfl⟩ := List.mem_map.mp h
    exact ⟨a, lookup_eq_some_of_mem t.ordered he⟩
  · rintro ⟨a, h⟩
    exact List.mem_map.mpr ⟨(k, a), mem_of_lookup_eq_some h, rfl⟩

/-- The values are those found at a key. -/
theorem mem_values_iff [KeyOrder κ] {t : Table κ α} {a : α} :
    a ∈ t.values ↔ ∃ k, t.get? k = some a := by
  constructor
  · intro h
    obtain ⟨⟨k, b⟩, he, rfl⟩ := List.mem_map.mp h
    exact ⟨k, lookup_eq_some_of_mem t.ordered he⟩
  · rintro ⟨k, h⟩
    exact List.mem_map.mpr ⟨(k, a), mem_of_lookup_eq_some h, rfl⟩

/-- The table without entries at some keys. -/
def eraseAll (t : Table κ α) (ks : List κ) : Table κ α := ks.foldl erase t

theorem get?_eraseAll (t : Table κ α) (ks : List κ) (j : κ) :
    (t.eraseAll ks).get? j = if j ∈ ks then none else t.get? j := by
  induction ks generalizing t with
  | nil => simp [eraseAll]
  | cons k rest ih =>
      have h : (t.eraseAll (k :: rest)).get? j = _ := ih (t.erase k)
      rw [h, get?_erase]
      by_cases hk : k = j
      · simp [hk]
      · simp [hk, Ne.symm hk]

/-- Nothing is left once all keys are taken away. -/
theorem eraseAll_eq_empty [KeyOrder κ] {t : Table κ α} {ks : List κ}
    (h : ∀ k, t.contains k = true → k ∈ ks) : t.eraseAll ks = empty := by
  refine ext_get? fun k => ?_
  rw [get?_eraseAll, get?_empty]
  split
  · rfl
  · next hk => exact get?_eq_none_iff.mpr (Bool.eq_false_iff.mpr fun hc => hk (h k hc))

omit [DecidableEq κ] in
theorem keys_pairwise (t : Table κ α) : t.keys.Pairwise (· < ·) :=
  List.pairwise_map.mpr t.ordered

@[simp] theorem size_modify (t : Table κ α) (k : κ) (f : α → α) :
    (t.modify k f).size = t.size := by
  have h := congrArg List.length (keys_modify t k f)
  simpa [keys, size] using h

theorem length_insertAt [DecidableLT κ] [KeyOrder κ] {l : List (κ × α)}
    (h : l.Pairwise (fun a b => a.1 < b.1)) (k : κ) (a : α) :
    (insertAt k a l).length = if (lookup k l).isSome then l.length else l.length + 1 := by
  induction l with
  | nil => rfl
  | cons e rest ih =>
      obtain ⟨hd, hrest⟩ := List.pairwise_cons.mp h
      by_cases hek : e.1 = k
      · simp [insertAt, lookup, hek]
      by_cases hlt : k < e.1
      · -- the key comes before all others
        have hnone : lookup k rest = none := by
          refine Option.eq_none_iff_forall_ne_some.mpr fun b hb => ?_
          exact KeyOrder.irrefl k (KeyOrder.trans hlt (hd _ (mem_of_lookup_eq_some hb)))
        simp [insertAt, lookup, hek, hlt, hnone]
      · simp only [insertAt, lookup, hek, hlt, if_false, List.length_cons, ih hrest]
        split <;> rfl

/-- An entry at a new key makes the table larger by one. -/
theorem size_insert [DecidableLT κ] [KeyOrder κ] (t : Table κ α) (k : κ) (a : α) :
    (t.insert k a).size = if t.contains k then t.size else t.size + 1 :=
  length_insertAt t.ordered k a

omit [DecidableEq κ] in
theorem length_keys (t : Table κ α) : t.keys.length = t.size := by simp [keys, size]

end LaunchGraph.Table
