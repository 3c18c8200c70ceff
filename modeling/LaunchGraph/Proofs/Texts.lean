import Mathlib.Data.List.TakeWhile
import Mathlib.Tactic.Common
import LaunchGraph.Text.Blank
import LaunchGraph.Text.Lowercase
import LaunchGraph.Text.WordChar

/-!
# Texts — words and the case of letters

A text is read up to blanks and to the case of letters.  Its words are those of its parts wherever
a blank stands between the parts (`Text.wordChars_append_blank`), and also where they meet without
one, if no word goes on from one part into the other (`Text.wordChars_append_of_parted`).

Lowercasing is about all of Unicode, but a name that is made of plain letters and digits, with no
`k` among them, is the lower case of no text outside ASCII: of all letters beyond ASCII the Kelvin
sign alone becomes a plain letter.  So such a name is met up to the case of plain letters only
(`Text.lower_eq_iff`).
-/

namespace LaunchGraph.Text

/-! ### Words -/

variable {x y : List Char}

@[simp] theorem wordChars_nil : wordChars [] = [] := rfl

/-- Words end at a blank. -/
theorem wordChars_append_blank {c : Char} (hc : isBlank c = true) (x y : List Char) :
    wordChars (x ++ c :: y) = wordChars x ++ wordChars y := by
  rw [wordChars, List.splitOnP_append_cons x y hc, List.filter_append]
  rfl

theorem wordChars_append_blanks {u : List Char} (hne : u ≠ []) (hu : ∀ c ∈ u, isBlank c = true)
    (x y : List Char) : wordChars (x ++ u ++ y) = wordChars x ++ wordChars y := by
  induction u generalizing x with
  | nil => exact absurd rfl hne
  | cons c u ih =>
      have hc := hu c List.mem_cons_self
      rw [List.append_assoc, List.cons_append, wordChars_append_blank hc]
      cases u with
      | nil => rfl
      | cons d u =>
          have hrest := ih (List.cons_ne_nil d u) (fun a ha => hu a (List.mem_cons_of_mem c ha)) []
          rw [List.nil_append, wordChars_nil, List.nil_append] at hrest
          rw [hrest]

/-- No word goes on from the first text into the second. -/
def Parted (x y : List Char) : Prop :=
  (∀ c, x.getLast? = some c → isBlank c = true) ∨ ∀ c, y.head? = some c → isBlank c = true

theorem wordChars_append_of_parted (h : Parted x y) :
    wordChars (x ++ y) = wordChars x ++ wordChars y := by
  rcases h with hx | hy
  · rcases List.eq_nil_or_concat x with rfl | ⟨x, c, rfl⟩
    · rfl
    · have hc := hx c (by simp)
      rw [List.concat_eq_append, List.append_assoc, List.singleton_append, wordChars_append_blank hc,
        wordChars_append_blank hc, wordChars_nil, List.append_nil]
  · cases y with
    | nil => simp
    | cons c y =>
        have hfirst := wordChars_append_blank (hy c rfl) [] y
        rw [wordChars_append_blank (hy c rfl), ← List.nil_append (c :: y), hfirst, wordChars_nil,
          List.nil_append]

/-- How wide a gap is does not matter, and where no word goes on there need not be one. -/
theorem wordChars_respaced {u v : List Char} (hu : ∀ c ∈ u, isBlank c = true)
    (hv : ∀ c ∈ v, isBlank c = true) (h : (u = [] ↔ v = []) ∨ Parted x y) :
    wordChars (x ++ u ++ y) = wordChars (x ++ v ++ y) := by
  by_cases hboth : u = [] ∧ v = []
  · rw [hboth.1, hboth.2]
  · have hwords : ∀ m, (∀ c ∈ m, isBlank c = true) → (m = u ∨ m = v) →
        wordChars (x ++ m ++ y) = wordChars x ++ wordChars y := by
      intro m hm hmem
      by_cases hne : m = []
      · have hparted : Parted x y := by
          refine h.resolve_left fun hiff => hboth ?_
          rcases hmem with rfl | rfl
          · exact ⟨hne, hiff.mp hne⟩
          · exact ⟨hiff.mpr hne, hne⟩
        rw [hne, List.append_nil]
        exact wordChars_append_of_parted hparted
      · exact wordChars_append_blanks hne hm x y
    rw [hwords u hu (.inl rfl), hwords v hv (.inr rfl)]

/-- Only blanks have no words. -/
theorem wordChars_eq_nil_iff : wordChars x = [] ↔ ∀ c ∈ x, isBlank c = true := by
  induction x with
  | nil => simp
  | cons c x ih =>
      cases hc : isBlank c with
      | true =>
          have hfirst := wordChars_append_blank hc [] x
          rw [List.nil_append, wordChars_nil, List.nil_append] at hfirst
          rw [hfirst, ih]
          simp [hc]
      | false =>
          obtain ⟨w, ws, hsplit⟩ := List.exists_cons_of_ne_nil (List.splitOnP_ne_nil isBlank x)
          have hwords : wordChars (c :: x) ≠ [] := by
            simp [wordChars, List.splitOnP_cons_eq_if_modifyHead, hc, hsplit]
          simp [hwords, hc]

/-- The characters of a word are not blank, and there are some. -/
def IsWord (w : List Char) : Prop := w ≠ [] ∧ ∀ c ∈ w, isBlank c = false

theorem IsWord.wordChars (h : IsWord x) : wordChars x = [x] := by
  simp [Text.wordChars, List.splitOnP_eq_singleton h.2, h.1]

theorem isWord_of_mem {w : List Char} (hw : w ∈ wordChars x) : IsWord w := by
  have hsolid : ∀ w ∈ x.splitOnP isBlank, ∀ c ∈ w, isBlank c = false := by
    clear hw
    induction x with
    | nil => simp
    | cons c x ih =>
        rw [List.splitOnP_cons_eq_if_modifyHead]
        split
        · exact List.forall_mem_cons.mpr ⟨by simp, ih⟩
        · next hc =>
          obtain ⟨v, vs, hsplit⟩ := List.exists_cons_of_ne_nil (List.splitOnP_ne_nil isBlank x)
          rw [hsplit, List.forall_mem_cons] at ih
          rw [hsplit, List.modifyHead_cons, List.forall_mem_cons, List.forall_mem_cons]
          exact ⟨⟨by simpa using hc, ih.1⟩, ih.2⟩
  obtain ⟨hmem, hne⟩ := List.mem_filter.mp hw
  exact ⟨by simpa using hne, hsolid w hmem⟩

/-- Words with single blanks between them are the words of what they make up. -/
theorem wordChars_intercalate {ws : List (List Char)} (h : ∀ w ∈ ws, IsWord w) :
    wordChars ([' '].intercalate ws) = ws := by
  induction ws with
  | nil => rfl
  | cons w ws ih =>
      obtain ⟨hw, hws⟩ := List.forall_mem_cons.mp h
      cases ws with
      | nil => simpa using hw.wordChars
      | cons v ws =>
          rw [List.intercalate_cons_cons, List.append_assoc, List.singleton_append,
            wordChars_append_blank (by decide), hw.wordChars, ih hws]
          rfl

theorem words_append_blanks {u : List Char} (hne : u ≠ []) (hu : ∀ c ∈ u, isBlank c = true)
    (x y : List Char) : words (x ++ u ++ y) = words x ++ words y := by
  rw [words, wordChars_append_blanks hne hu, List.map_append]
  rfl

theorem words_of_isWord {w : String} (h : IsWord w.toList) : words w.toList = [w] := by
  simp [words, h.wordChars]

theorem words_of_isWords {ws : List String} (h : ∀ w ∈ ws, IsWord w.toList) :
    words (" ".intercalate ws).toList = ws := by
  have hchars : ∀ x ∈ ws.map String.toList, IsWord x := by simpa using h
  have hwords : wordChars (" ".intercalate ws).toList = ws.map String.toList := by
    rw [String.toList_intercalate]
    exact wordChars_intercalate hchars
  rw [words, hwords]
  simp

theorem words_intercalate (x : List Char) : words (" ".intercalate (words x)).toList = words x := by
  refine words_of_isWords fun w hw => ?_
  obtain ⟨y, hy, rfl⟩ := List.mem_map.mp hw
  rw [String.toList_ofList]
  exact isWord_of_mem hy

/-- Only blanks are nothing without the blanks at their ends. -/
theorem trim_isEmpty_iff {s : String} :
    (trim s).isEmpty = true ↔ ∀ c ∈ s.toList, isBlank c = true := by
  have hempty : (trim s).isEmpty = true ↔
      ∀ c ∈ s.toList.dropWhile isBlank, isBlank c = true := by
    simp [trim, trimChars, List.dropWhile_eq_nil_iff]
  rw [hempty]
  constructor
  · intro h c hc
    rw [← List.takeWhile_append_dropWhile (p := isBlank) (l := s.toList)] at hc
    rcases List.mem_append.mp hc with hc | hc
    · exact List.all_eq_true.mp List.all_takeWhile c hc
    · exact h c hc
  · exact fun h c hc => h c (List.dropWhile_subset _ hc)

theorem trim_eq_self {s : String} (h : ∀ c ∈ s.toList, isBlank c = false) : trim s = s := by
  have hdrop : ∀ cs : List Char, (∀ c ∈ cs, isBlank c = false) → cs.dropWhile isBlank = cs := by
    intro cs hcs
    cases cs with
    | nil => rfl
    | cons c cs => simp [hcs c List.mem_cons_self]
  have hreverse : ∀ c ∈ s.toList.reverse, isBlank c = false := by simpa using h
  rw [trim, trimChars, hdrop _ h, hdrop _ hreverse, List.reverse_reverse, String.ofList_toList]

/-! ### Word characters -/

/-- The blanks beyond ASCII, as ranges. -/
def blankRanges : List (Nat × Nat) := [(0x85, 0x85), (0xA0, 0xA0), (0x1680, 0x1680),
  (0x2000, 0x200A), (0x2028, 0x2029), (0x202F, 0x202F), (0x205F, 0x205F), (0x3000, 0x3000)]

theorem isBlank_iff {c : Char} : isBlank c = true ↔ (0x09 ≤ c.toNat ∧ c.toNat ≤ 0x0D) ∨
    c.toNat = 0x20 ∨ ∃ b ∈ blankRanges, b.1 ≤ c.toNat ∧ c.toNat ≤ b.2 := by
  simp only [isBlank, blankRanges, Bool.or_eq_true, Bool.and_eq_true, decide_eq_true_eq,
    beq_iff_eq, List.mem_cons, List.not_mem_nil, or_false, exists_eq_or_imp, exists_eq_left]
  omega

theorem isAlphanum_iff {c : Char} : c.isAlphanum = true ↔ (0x30 ≤ c.toNat ∧ c.toNat ≤ 0x39) ∨
    (0x41 ≤ c.toNat ∧ c.toNat ≤ 0x5A) ∨ 0x61 ≤ c.toNat ∧ c.toNat ≤ 0x7A := by
  have hranges : c.isAlphanum = (decide (0x41 ≤ c.val ∧ c.val ≤ 0x5A) ||
      decide (0x61 ≤ c.val) && decide (c.val ≤ 0x7A) ||
      decide (0x30 ≤ c.val) && decide (c.val ≤ 0x39)) := rfl
  simp only [hranges, Bool.or_eq_true, Bool.and_eq_true, decide_eq_true_eq, UInt32.le_iff_toNat_le]
  exact or_comm.trans (or_congr Iff.rfl Iff.rfl)

/-- The blanks beyond ASCII stand between the ranges of the word characters. -/
theorem wordRanges_apart : ∀ r ∈ wordRanges, ∀ b ∈ blankRanges, r.2 < b.1 ∨ b.2 < r.1 := by
  decide +kernel

/-- No blank is a word character. -/
theorem isBlank_of_isWordChar {c : Char} (h : isWordChar c = true) : isBlank c = false := by
  have hfar : ∀ b ∈ blankRanges, 0x80 ≤ b.1 := by decide
  simp only [isWordChar, inRanges, Bool.or_eq_true, Bool.and_eq_true, List.any_eq_true,
    decide_eq_true_eq, beq_iff_eq] at h
  rw [← Bool.not_eq_true, isBlank_iff]
  rcases h with (halnum | rfl) | ⟨hc, r, hr, hlo, hhi⟩
  · rw [isAlphanum_iff] at halnum
    rintro (hb | hb | ⟨b, hb, hb', -⟩)
    · omega
    · omega
    · have := hfar b hb
      omega
  · decide
  · rintro (hb | hb | ⟨b, hb, hb', hb''⟩)
    · omega
    · omega
    · have := wordRanges_apart r hr b hb
      omega

/-! ### The case of letters -/

theorem toLower_cases (c : Char) : (0x41 ≤ c.toNat ∧ c.toNat ≤ 0x5A) ∨ c.toLower = c := by
  unfold Char.toLower
  split
  · next h =>
    simp only [ge_iff_le, UInt32.le_iff_toNat_le] at h
    exact .inl h
  · exact .inr rfl

theorem isAlphanum_of_toLower {c : Char} (h : c.toLower.isAlphanum = true) :
    c.isAlphanum = true := by
  rcases toLower_cases c with hc | hc
  · exact isAlphanum_iff.mpr (.inr (.inl hc))
  · rwa [hc] at h

theorem toNat_ofNat_cases (n : Nat) : (Char.ofNat n).toNat = n ∨ (Char.ofNat n).toNat = 0 := by
  by_cases hn : n.isValidChar
  · left
    rw [Char.ofNat, dif_pos hn]
    rfl
  · right
    rw [Char.ofNat, dif_neg hn]
    rfl

/-- Of all characters beyond ASCII, the Kelvin sign alone has its lower case within. -/
theorem lowerRuns_beyond_ascii :
    ∀ r ∈ lowerRuns, 0x80 ≤ r.2.2.2 ∨ r = (0x212A, 0x212A, 1, 0x6B) := by
  decide +kernel

/-- The lower case of a character beyond ASCII holds a character that is not plain, or a `k`. -/
theorem exists_of_lowerChar {c : Char} (hc : 0x80 ≤ c.toNat) :
    ∃ d ∈ lowerChar c, d.isAlphanum = true → d = 'k' := by
  rw [lowerChar, if_neg (Nat.not_lt.mpr hc)]
  split
  · exact ⟨'\u0307', by simp, by decide⟩
  · split
    · next r hr =>
      refine ⟨_, List.mem_singleton_self _, fun hd => ?_⟩
      rw [isAlphanum_iff] at hd
      rcases lowerRuns_beyond_ascii r (List.mem_of_find?_eq_some hr) with hfar | rfl
      · rcases toNat_ofNat_cases (r.2.2.2 + (c.toNat - r.1)) with h | h <;> omega
      · have hkelvin : c.toNat = 0x212A := by
          have hfound := List.find?_some hr
          simp only [Bool.and_eq_true, decide_eq_true_eq] at hfound
          omega
        rw [hkelvin]
        rfl
    · refine ⟨c, List.mem_singleton_self _, fun hd => ?_⟩
      rw [isAlphanum_iff] at hd
      omega

theorem lowerFrom_of_ascii {cs : List Char} (h : ∀ c ∈ cs, c.toNat < 0x80) (before : List Char) :
    lowerFrom before cs = cs.map Char.toLower := by
  induction cs generalizing before with
  | nil => rfl
  | cons c cs ih =>
      have hc := h c List.mem_cons_self
      have hsigma : c ≠ 'Σ' := by
        rintro rfl
        revert hc
        decide
      rw [lowerFrom, if_neg hsigma, ih (fun a ha => h a (List.mem_cons_of_mem c ha)), lowerChar,
        if_pos hc]
      rfl

/-- Whatever has a plain lower case with no `k` in it is within ASCII. -/
theorem ascii_of_lowerFrom {before cs : List Char}
    (h : ∀ d ∈ lowerFrom before cs, d.isAlphanum = true ∧ d ≠ 'k') : ∀ c ∈ cs, c.toNat < 0x80 := by
  induction cs generalizing before with
  | nil => simp
  | cons c cs ih =>
      rw [lowerFrom] at h
      refine List.forall_mem_cons.mpr ⟨?_, ih fun d hd => h d (List.mem_append_right _ hd)⟩
      by_contra hc
      obtain ⟨d, hd, hplain⟩ :
          ∃ d ∈ (if c = 'Σ' then [lowerSigma before cs] else lowerChar c),
            d.isAlphanum = true → d = 'k' := by
        split
        · refine ⟨_, List.mem_singleton_self _, ?_⟩
          unfold lowerSigma
          split <;> decide
        · exact exists_of_lowerChar (Nat.le_of_not_lt hc)
      obtain ⟨halnum, hk⟩ := h d (List.mem_append_left _ hd)
      exact hk (hplain halnum)

/-- **A plain name is met up to the case of plain letters.** -/
theorem lower_eq_iff {s n : String} (hn : ∀ d ∈ n.toList, d.isAlphanum = true ∧ d ≠ 'k') :
    lower s = n ↔ s.toList.map Char.toLower = n.toList := by
  rw [lower, ← String.toList_inj, String.toList_ofList]
  constructor
  · intro h
    have hascii := ascii_of_lowerFrom fun d hd => hn d (h ▸ hd)
    rw [← h, lowerFrom_of_ascii hascii]
  · intro h
    refine (lowerFrom_of_ascii (fun c hc => ?_) []).trans h
    have hlower := hn c.toLower (h ▸ List.mem_map_of_mem hc)
    have hplain := isAlphanum_iff.mp (isAlphanum_of_toLower hlower.1)
    omega

end LaunchGraph.Text
