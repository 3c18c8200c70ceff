import Mathlib.Tactic.Common
import LaunchGraph.Text.Pattern

/-!
# Patterns — what a match is

The matcher enumerates the places where a match can end.  Read as a language, a pattern without
anchors relates texts to what its groups note in them (`Text.Pattern.Spells`), and the places that
are enumerated are exactly those behind such texts (`Text.Pattern.mem_ends_iff`).

A pattern between the two anchors is matched against the whole text.  There is a match if the text
is spelled by the pattern (`Text.Pattern.captures_of_spells`), and then the groups note one of the
ways in which it is (`Text.Pattern.spells_of_captures`).
-/

namespace LaunchGraph.Text.Pattern

/-- The pattern matches the text `x`, wherever it stands, and its groups note `gs`, the last one
first.  Anchors match the empty text. -/
def Spells : Pattern → List Char → List (Nat × String) → Prop
  | .start, x, gs => x = [] ∧ gs = []
  | .stop, x, gs => x = [] ∧ gs = []
  | .literal w, x, gs => x = w.toList ∧ gs = []
  | .repeated cls, x, gs => x ≠ [] ∧ (∀ c ∈ x, cls.has c = true) ∧ gs = []
  | .seq p q, x, gs => ∃ y gs₁ z gs₂, p.Spells y gs₁ ∧ q.Spells z gs₂ ∧ x = y ++ z ∧
      gs = gs₂ ++ gs₁
  | .either p q, x, gs => p.Spells x gs ∨ q.Spells x gs
  | .optional p, x, gs => p.Spells x gs ∨ x = [] ∧ gs = []
  | .group i p, x, gs => ∃ gs₁, p.Spells x gs₁ ∧ gs = (i, .ofList x) :: gs₁

/-- The pattern has no anchors. -/
def isFree : Pattern → Bool
  | .start | .stop => false
  | .literal _ | .repeated _ => true
  | .seq p q | .either p q => p.isFree && q.isFree
  | .optional p | .group _ p => p.isFree

/-- The place behind `x`, where `gs` has been noted. -/
def Behind (s : Cursor) (x : List Char) (gs : List (Nat × String)) (t : Cursor) : Prop :=
  s.rest = x ++ t.rest ∧ t.passed = s.passed + x.length ∧ t.groups = gs ++ s.groups

theorem behind_nil {s t : Cursor} : Behind s [] [] t ↔ t = s := by
  constructor
  · rintro ⟨hrest, hpassed, hgroups⟩
    cases s
    cases t
    simp_all
  · rintro rfl
    exact ⟨rfl, rfl, rfl⟩

theorem behind_skip {s t : Cursor} {x : List Char} (hx : x <+: s.rest) :
    Behind s x [] t ↔ t = s.skip x.length := by
  obtain ⟨rest, hrest⟩ := hx
  constructor
  · rintro ⟨ht, hpassed, hgroups⟩
    cases t
    simp_all [Cursor.skip]
  · rintro rfl
    exact ⟨by simp [Cursor.skip, ← hrest], rfl, rfl⟩

theorem Behind.trans {s t u : Cursor} {x y : List Char} {gs gs' : List (Nat × String)}
    (h : Behind s x gs t) (h' : Behind t y gs' u) : Behind s (x ++ y) (gs' ++ gs) u := by
  obtain ⟨hrest, hpassed, hgroups⟩ := h
  obtain ⟨hrest', hpassed', hgroups'⟩ := h'
  refine ⟨by rw [hrest, hrest', List.append_assoc], ?_, ?_⟩
  · rw [hpassed', hpassed, List.length_append, Nat.add_assoc]
  · rw [hgroups', hgroups, List.append_assoc]

/-- A group notes what stands before the place. -/
theorem behind_note {s t : Cursor} {x : List Char} {gs : List (Nat × String)} (i : Nat) :
    Behind s x ((i, .ofList x) :: gs) t ↔ ∃ u, Behind s x gs u ∧ t = u.note i s := by
  have htake : ∀ u, Behind s x gs u → s.rest.take (u.passed - s.passed) = x := by
    rintro u ⟨hrest, hpassed, -⟩
    rw [hpassed, Nat.add_sub_cancel_left, hrest, List.take_left]
  constructor
  · rintro ⟨hrest, hpassed, hgroups⟩
    have hu : Behind s x gs { t with groups := gs ++ s.groups } := ⟨hrest, hpassed, rfl⟩
    refine ⟨_, hu, ?_⟩
    rw [Cursor.note, htake _ hu]
    cases t
    simp_all
  · rintro ⟨u, hu, rfl⟩
    rw [Cursor.note, htake u hu]
    exact ⟨hu.1, hu.2.1, congrArg _ hu.2.2⟩

theorem mem_ends_literal {w : String} {s t : Cursor} :
    t ∈ (literal w).ends s ↔ Behind s w.toList [] t := by
  by_cases hw : w.toList <+: s.rest
  · rw [behind_skip hw, ends, if_pos (List.isPrefixOf_iff_prefix.mpr hw), List.mem_singleton,
      String.length_toList]
  · rw [ends, if_neg (mt List.isPrefixOf_iff_prefix.mp hw)]
    refine iff_of_false List.not_mem_nil fun h => hw ?_
    exact ⟨t.rest, h.1.symm⟩

/-- As many characters of a class as there are, or fewer. -/
theorem mem_ends_repeated {cls : CharClass} {s t : Cursor} : t ∈ (repeated cls).ends s ↔
    ∃ x, x ≠ [] ∧ (∀ c ∈ x, cls.has c = true) ∧ Behind s x [] t := by
  simp only [ends, List.mem_map, List.mem_reverse, List.mem_range]
  constructor
  · rintro ⟨n, hn, rfl⟩
    have hfront : (s.rest.takeWhile cls.has).take (n + 1) <+: s.rest :=
      (List.take_prefix _ _).trans (List.takeWhile_prefix _)
    have hlength : ((s.rest.takeWhile cls.has).take (n + 1)).length = n + 1 :=
      List.length_take_of_le hn
    refine ⟨_, ?_, fun c hc => ?_, (behind_skip hfront).mpr (by rw [hlength])⟩
    · exact List.ne_nil_of_length_eq_add_one hlength
    · exact List.all_eq_true.mp List.all_takeWhile c (List.mem_of_mem_take hc)
  · rintro ⟨x, hne, hx, h⟩
    have hpos := List.length_pos_iff.mpr hne
    refine ⟨x.length - 1, ?_, ?_⟩
    · rw [h.1, List.takeWhile_append_of_pos hx, List.length_append]
      omega
    · rw [Nat.sub_add_cancel hpos]
      exact ((behind_skip ⟨t.rest, h.1.symm⟩).mp h).symm

/-- **A match can end exactly behind what the pattern spells.** -/
theorem mem_ends_iff {p : Pattern} (hp : p.isFree = true) {s t : Cursor} :
    t ∈ p.ends s ↔ ∃ x gs, p.Spells x gs ∧ Behind s x gs t := by
  induction p generalizing s t with
  | start | stop => cases hp
  | literal w => simp [mem_ends_literal, Spells]
  | repeated cls => simp [mem_ends_repeated, Spells, and_assoc]
  | seq p q ihp ihq =>
      obtain ⟨hp, hq⟩ : p.isFree = true ∧ q.isFree = true := by simpa [isFree] using hp
      simp only [ends, List.mem_flatMap, ihp hp, ihq hq, Spells]
      constructor
      · rintro ⟨u, ⟨y, gs₁, hy, hu⟩, z, gs₂, hz, ht⟩
        exact ⟨_, _, ⟨y, gs₁, z, gs₂, hy, hz, rfl, rfl⟩, hu.trans ht⟩
      · rintro ⟨_, _, ⟨y, gs₁, z, gs₂, hy, hz, rfl, rfl⟩, hrest, hpassed, hgroups⟩
        refine ⟨⟨s.passed + y.length, z ++ t.rest, gs₁ ++ s.groups⟩, ⟨y, gs₁, hy, ?_⟩, z, gs₂, hz,
          ?_⟩
        · exact ⟨by rw [hrest, List.append_assoc], rfl, rfl⟩
        · exact ⟨rfl, by rw [hpassed, List.length_append, Nat.add_assoc],
            by rw [hgroups, List.append_assoc]⟩
  | either p q ihp ihq =>
      obtain ⟨hp, hq⟩ : p.isFree = true ∧ q.isFree = true := by simpa [isFree] using hp
      simp only [ends, List.mem_append, ihp hp, ihq hq, Spells, or_and_right, exists_or]
  | optional p ih =>
      simp only [ends, List.mem_append, List.mem_singleton, ih hp, Spells, or_and_right, exists_or]
      refine or_congr_right ?_
      simp [behind_nil]
  | group i p ih =>
      simp only [ends, List.mem_map, ih hp, Spells]
      constructor
      · rintro ⟨u, ⟨x, gs, hx, hu⟩, rfl⟩
        exact ⟨x, _, ⟨gs, hx, rfl⟩, (behind_note i).mpr ⟨u, hu, rfl⟩⟩
      · rintro ⟨x, _, ⟨gs, hx, rfl⟩, ht⟩
        obtain ⟨u, hu, rfl⟩ := (behind_note i).mp ht
        exact ⟨u, ⟨x, gs, hx, hu⟩, rfl⟩

/-! ### Whole texts -/

variable {p : Pattern}

theorem mem_ends_stop {s t : Cursor} : t ∈ stop.ends s ↔ t = s ∧ s.rest = [] := by
  rw [ends]
  split <;> simp_all

/-- No match begins behind the start. -/
theorem ends_whole_eq_nil {s : Cursor} (hs : s.passed ≠ 0) : (start ++ p ++ stop).ends s = [] := by
  have hseq : (start ++ p ++ stop).ends s =
      ((start.ends s).flatMap p.ends).flatMap stop.ends := rfl
  rw [hseq, ends, if_neg hs]
  rfl

/-- A match from the start to the end is a way to spell the text. -/
theorem mem_ends_whole (hp : p.isFree = true) {x : List Char} {t : Cursor} :
    t ∈ (start ++ p ++ stop).ends { passed := 0, rest := x } ↔
      ∃ gs, p.Spells x gs ∧ t = ⟨x.length, [], gs⟩ := by
  have hseq : (start ++ p ++ stop).ends { passed := 0, rest := x } =
      (p.ends { passed := 0, rest := x }).flatMap stop.ends :=
    congrArg (List.flatMap stop.ends) (List.append_nil _)
  simp only [hseq, List.mem_flatMap, mem_ends_stop, mem_ends_iff hp]
  constructor
  · rintro ⟨t, ⟨y, gs, hy, hrest, hpassed, hgroups⟩, rfl, hnil⟩
    obtain rfl : x = y := by simpa [hnil] using hrest
    refine ⟨gs, hy, ?_⟩
    cases t
    simp_all
  · rintro ⟨gs, hx, rfl⟩
    exact ⟨_, ⟨x, gs, hx, by simp [Behind]⟩, rfl, rfl⟩

theorem search_whole_eq_none {passed : Nat} (hpassed : passed ≠ 0) (x : List Char) :
    (start ++ p ++ stop).search passed x = none := by
  induction x generalizing passed with
  | nil =>
      rw [search, ends_whole_eq_nil (by exact hpassed)]
      rfl
  | cons c x ih =>
      rw [search, ends_whole_eq_nil (by exact hpassed)]
      exact ih (Nat.succ_ne_zero passed)

/-- Of the matches from the start to the end, the preferred one counts. -/
theorem captures_whole (s : String) : (start ++ p ++ stop).captures s =
    ((start ++ p ++ stop).ends { passed := 0, rest := s.toList }).head?.map Cursor.groups := by
  rw [captures]
  cases s.toList with
  | nil => rfl
  | cons c x =>
      rw [search]
      split
      · next t ht =>
        rw [ht]
        rfl
      · next hnone =>
        rw [hnone, search_whole_eq_none Nat.one_ne_zero]
        rfl

/-- **What the groups note is a way to spell the text.** -/
theorem spells_of_captures (hp : p.isFree = true) {s : String} {gs : List (Nat × String)}
    (h : (start ++ p ++ stop).captures s = some gs) : p.Spells s.toList gs := by
  rw [captures_whole] at h
  obtain ⟨t, ht, rfl⟩ := Option.map_eq_some_iff.mp h
  obtain ⟨gs, hx, rfl⟩ := (mem_ends_whole hp).mp (List.mem_of_head? ht)
  exact hx

/-- **Every text that is spelled is matched.** -/
theorem captures_of_spells (hp : p.isFree = true) {s : String} {gs : List (Nat × String)}
    (h : p.Spells s.toList gs) : ∃ gs', (start ++ p ++ stop).captures s = some gs' := by
  have hmem := (mem_ends_whole hp).mpr ⟨gs, h, rfl⟩
  obtain ⟨t, ts, hends⟩ := List.exists_cons_of_ne_nil (List.ne_nil_of_mem hmem)
  refine ⟨t.groups, ?_⟩
  rw [captures_whole, hends]
  rfl

end LaunchGraph.Text.Pattern
