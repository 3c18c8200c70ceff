import Mathlib.Data.List.Forall2
import LaunchGraph.Kernel.Signature
import LaunchGraph.Proofs.Patterns
import LaunchGraph.Proofs.Texts

/-!
# Signatures — what is read as a list of parameters

A signature is read piece by piece, where commas part the pieces, and a piece is read by two
patterns, with single blanks between its words.  `Signature.Reads` is the grammar of a piece, as a
relation between its words and the parameter they stand for.  What the patterns match are the words
of a pointer (`Signature.IsPointer`) or a name, so that a piece is read as the grammar says
(`Signature.readParameter_eq_ok_iff`); and a signature is accepted if and only if all its pieces are
in the grammar, and then it stands for their parameters (`Signature.readPieces_eq_ok_iff`).

Reading therefore depends on a text through the words of its pieces alone (`Signature.layout`).
These stay the same when gaps are made wider or narrower (`Signature.layout_respaced`), and the
text of a list of parameters has the words that it was printed from (`Signature.layout_text`).
-/

namespace LaunchGraph

open Text (Pattern)

/-- The word is a name of the type, up to the case of its letters. -/
def ElementType.NamedBy (t : ElementType) (w : String) : Prop :=
  ∃ n, ofName? n = some t ∧ w.toList.map Char.toLower = n.toList

namespace Parameter

/-- The words that a parameter is printed as. -/
def words : Parameter → List String
  | .pointer t true => ["const", "pointer", t.name]
  | .pointer t false => ["pointer", t.name]
  | .scalar t => [t.name]

def text (p : Parameter) : String := " ".intercalate p.words

end Parameter

namespace Signature

/-- The words that may stand before `pointer`, and whether the array is only read then. -/
inductive Qualifies : String → Bool → Prop where
  | const : Qualifies "const" true
  | input : Qualifies "in" true
  | output : Qualifies "out" false
  | inout : Qualifies "inout" false

/-- The grammar of a piece: the words, and the parameter they stand for. -/
inductive Reads : List String → Parameter → Prop where
  | scalar {w : String} {t : ElementType} (ht : t.NamedBy w) (hvoid : t ≠ .void) :
      Reads [w] (.scalar t)
  | pointer : Reads ["pointer"] (.pointer .void false)
  | typed {w : String} {t : ElementType} (ht : t.NamedBy w) :
      Reads ["pointer", w] (.pointer t false)
  | qualified {q : String} {isConst : Bool} (hq : Qualifies q isConst) :
      Reads [q, "pointer"] (.pointer .void isConst)
  | qualifiedTyped {q w : String} {isConst : Bool} {t : ElementType} (hq : Qualifies q isConst)
      (ht : t.NamedBy w) : Reads [q, "pointer", w] (.pointer t isConst)

/-- The word is made of word characters. -/
def IsName (w : String) : Prop := w ≠ "" ∧ ∀ c ∈ w.toList, Text.isWordChar c = true

/-- The words of the pieces, in order. -/
def layout (cs : List Char) : List (List String) := (cs.splitOn ',').map Text.words

/-- The text of a list of parameters. -/
def text (ps : List Parameter) : String := ", ".intercalate (ps.map Parameter.text)

end Signature

/-! ### Names of types -/

namespace ElementType

variable {t : ElementType} {n w : String}

/-- The names are plain. -/
theorem plain_of_ofName? (h : ofName? n = some t) :
    n ≠ "" ∧ ∀ d ∈ n.toList, d.isAlphanum = true ∧ d ≠ 'k' := by
  have hplain : n ≠ "" ∧ (n.toList.all fun d => d.isAlphanum && d != 'k') = true := by
    unfold ofName? at h
    split at h <;> cases h <;> decide
  simpa using hplain

theorem ofName?_name (t : ElementType) : ofName? t.name = some t := by
  cases t <;> rfl

theorem namedBy_name (t : ElementType) : t.NamedBy t.name :=
  ⟨t.name, t.ofName?_name, by cases t <;> decide⟩

namespace NamedBy

theorem isName (h : t.NamedBy w) : Signature.IsName w := by
  obtain ⟨n, hn, hw⟩ := h
  obtain ⟨hne, hplain⟩ := plain_of_ofName? hn
  refine ⟨?_, fun c hc => ?_⟩
  · rintro rfl
    exact hne (String.toList_inj.mp hw.symm)
  · have halnum := Text.isAlphanum_of_toLower (hplain _ (hw ▸ List.mem_map_of_mem hc)).1
    simp [Text.isWordChar, halnum]

theorem not_pointer (h : t.NamedBy "pointer") : False := by
  obtain ⟨n, hn, hw⟩ := h
  obtain rfl : n = "pointer" := String.toList_inj.mp (hw.symm.trans (by decide))
  cases hn

end NamedBy

/-- **A word is read as the type it names.** -/
theorem read_eq_ok_iff (hw : Signature.IsName w) : read w = .ok t ↔ t.NamedBy w := by
  have hsolid : ∀ c ∈ w.toList, Text.isBlank c = false := fun c hc =>
    Text.isBlank_of_isWordChar (hw.2 c hc)
  simp only [read, Text.trim_eq_self hsolid]
  constructor
  · intro h
    split at h
    · next t' hname =>
      obtain rfl := Except.ok.inj h
      exact ⟨_, hname, (Text.lower_eq_iff (plain_of_ofName? hname).2).mp rfl⟩
    · cases h
  · rintro ⟨n, hn, hlower⟩
    rw [(Text.lower_eq_iff (plain_of_ofName? hn).2).mpr hlower, hn]

end ElementType

/-! ### The two patterns -/

namespace Signature

variable {w q : String} {t : ElementType} {isConst : Bool} {p : Parameter}
  {ws : List String} {x : List Char} {gs : List (Nat × String)}

theorem IsName.isWord (h : IsName w) : Text.IsWord w.toList :=
  ⟨by simpa using h.1, fun c hc => Text.isBlank_of_isWordChar (h.2 c hc)⟩

theorem isName_iff_all : IsName w ↔ w ≠ "" ∧ w.toList.all Text.isWordChar = true := by
  simp [IsName]

theorem isName_pointer : IsName "pointer" := isName_iff_all.mpr ⟨by decide, by decide⟩

theorem Qualifies.isName (h : Qualifies q isConst) : IsName q := by
  cases h <;> exact isName_iff_all.mpr ⟨by decide, by decide⟩

/-- What stands before `pointer`: nothing, or a qualifier and a gap. -/
theorem spells_qualifier (h : (Pattern.optional qualifierPattern).Spells x gs) :
    ∃ q : Option String, (∀ a ∈ q, ∃ c, Qualifies a c) ∧ gs = q.toList.map (1, ·) ∧
      ∀ y, Text.words (x ++ y) = q.toList ++ Text.words y := by
  obtain ⟨z, _, u, _, ⟨_, hz, rfl⟩, ⟨hne, hu, rfl⟩, rfl, rfl⟩ | ⟨rfl, rfl⟩ := h
  · obtain ⟨q, c, hq, rfl, rfl⟩ : ∃ q c, Qualifies q c ∧ z = q.toList ∧ _ = [] := by
      obtain hz | hz | hz | hz := hz
      · exact ⟨_, _, .const, hz⟩
      · exact ⟨_, _, .input, hz⟩
      · exact ⟨_, _, .output, hz⟩
      · exact ⟨_, _, .inout, hz⟩
    refine ⟨some q, ?_, by simp, fun y => ?_⟩
    · rintro _ ⟨⟩
      exact ⟨c, hq⟩
    · rw [Text.words_append_blanks hne hu, Text.words_of_isWord hq.isName.isWord]
      rfl
  · exact ⟨none, by simp, rfl, fun y => rfl⟩

theorem spells_blank : (Pattern.repeated .blank).Spells [' '] [] :=
  ⟨List.cons_ne_nil _ _, List.forall_mem_singleton.mpr rfl, rfl⟩

theorem spells_of_qualifies (h : Qualifies q isConst) :
    qualifierPattern.Spells (q.toList ++ [' ']) [(1, q)] := by
  refine ⟨q.toList, [(1, q)], [' '], [], ⟨[], ?_, by simp⟩, spells_blank, rfl, rfl⟩
  cases h with
  | const => exact .inl ⟨rfl, rfl⟩
  | input => exact .inr (.inl ⟨rfl, rfl⟩)
  | output => exact .inr (.inr (.inl ⟨rfl, rfl⟩))
  | inout => exact .inr (.inr (.inr ⟨rfl, rfl⟩))

theorem spells_name_iff : (Pattern.repeated .word).Spells x gs ↔ IsName (.ofList x) ∧ gs = [] := by
  simp [Pattern.Spells, IsName, Text.CharClass.has, and_assoc]

/-- What stands behind `pointer`: nothing, or a gap and a name. -/
theorem spells_pointee (h : (Pattern.optional pointeePattern).Spells x gs) :
    ∃ w : Option String, (∀ a ∈ w, IsName a) ∧ gs = w.toList.map (2, ·) ∧
      ∀ y, Text.words (y ++ x) = Text.words y ++ w.toList := by
  obtain ⟨u, _, z, _, ⟨hne, hu, rfl⟩, ⟨_, hz, rfl⟩, rfl, rfl⟩ | ⟨rfl, rfl⟩ := h
  · obtain ⟨w, rfl⟩ : ∃ w : String, z = w.toList := ⟨.ofList z, by simp⟩
    obtain ⟨hw, rfl⟩ := spells_name_iff.mp hz
    rw [String.ofList_toList] at hw
    refine ⟨some w, ?_, by simp, fun y => ?_⟩
    · rintro _ ⟨⟩
      exact hw
    · rw [← List.append_assoc, Text.words_append_blanks hne hu, Text.words_of_isWord hw.isWord]
      rfl
  · exact ⟨none, by simp, rfl, fun y => by simp⟩

theorem spells_of_isName (h : IsName w) :
    pointeePattern.Spells (' ' :: w.toList) [(2, w)] := by
  refine ⟨[' '], [], w.toList, [(2, w)], spells_blank, ⟨[], ?_, by simp⟩, rfl, rfl⟩
  exact spells_name_iff.mpr ⟨by rwa [String.ofList_toList], rfl⟩

/-- The words of a pointer: a qualifier and the name of a type, each of which may be missing. -/
structure IsPointer (ws : List String) (q w : Option String) : Prop where
  words : ws = q.toList ++ "pointer" :: w.toList
  qualifier : ∀ a ∈ q, ∃ c, Qualifies a c
  name : ∀ a ∈ w, IsName a

/-- **A text that matches is a pointer**, and the groups have noted its words. -/
theorem isPointer_of_captures {s : String} (h : pointerPattern.captures s = some gs) :
    IsPointer (Text.words s.toList) (gs.lookup 1) (gs.lookup 2) := by
  obtain ⟨_, _, y, _, ⟨x, _, _, _, hx, ⟨rfl, rfl⟩, rfl, rfl⟩, hy, hs, rfl⟩ :=
    Pattern.spells_of_captures rfl h
  obtain ⟨q, hq, rfl, hfront⟩ := spells_qualifier hx
  obtain ⟨w, hw, rfl, hback⟩ := spells_pointee hy
  have hone : (w.toList.map (2, ·) ++ q.toList.map (1, ·)).lookup 1 = q := by
    cases q <;> cases w <;> rfl
  have htwo : (w.toList.map (2, ·) ++ q.toList.map (1, ·)).lookup 2 = w := by
    cases q <;> cases w <;> rfl
  rw [hone, htwo]
  refine ⟨?_, hq, hw⟩
  rw [hs, hback, hfront, Text.words_of_isWord isName_pointer.isWord, List.append_assoc,
    List.singleton_append]

/-- **Every pointer matches**, if its gaps are single blanks. -/
theorem IsPointer.captures {q w : Option String} (h : IsPointer ws q w) :
    ∃ gs, pointerPattern.captures (" ".intercalate ws) = some gs := by
  obtain ⟨rfl, hq, hw⟩ := h
  obtain ⟨x, gs₁, hx, hfront⟩ : ∃ x gs, (Pattern.optional qualifierPattern).Spells x gs ∧
      ∀ v vs, (" ".intercalate (q.toList ++ v :: vs)).toList =
        x ++ (" ".intercalate (v :: vs)).toList := by
    cases q with
    | none => exact ⟨[], [], .inr ⟨rfl, rfl⟩, fun _ _ => rfl⟩
    | some q =>
        obtain ⟨c, hc⟩ := hq q rfl
        exact ⟨_, _, .inl (spells_of_qualifies hc), by simp [String.intercalate_cons_cons]⟩
  obtain ⟨y, gs₂, hy, hback⟩ : ∃ y gs, (Pattern.optional pointeePattern).Spells y gs ∧
      (" ".intercalate ("pointer" :: w.toList)).toList = "pointer".toList ++ y := by
    cases w with
    | none => exact ⟨[], [], .inr ⟨rfl, rfl⟩, by simp⟩
    | some w =>
        exact ⟨_, _, .inl (spells_of_isName (hw w rfl)), by simp [String.intercalate_cons_cons]⟩
  refine Pattern.captures_of_spells rfl
    ⟨_, _, y, gs₂, ⟨x, gs₁, _, _, hx, ⟨rfl, rfl⟩, rfl, rfl⟩, hy, ?_, rfl⟩
  rw [hfront, hback, List.append_assoc]

theorem captures_scalar_iff {s : String} :
    scalarPattern.captures s = some gs ↔ IsName s ∧ gs = [(1, s)] := by
  have hone : ∀ gs, scalarPattern.captures s = some gs → IsName s ∧ gs = [(1, s)] := by
    intro gs h
    obtain ⟨_, hs, rfl⟩ := Pattern.spells_of_captures rfl h
    obtain ⟨hname, rfl⟩ := spells_name_iff.mp hs
    rw [String.ofList_toList] at hname ⊢
    exact ⟨hname, rfl⟩
  refine ⟨hone gs, ?_⟩
  rintro ⟨hs, rfl⟩
  have hspells := spells_name_iff.mpr ⟨by rwa [String.ofList_toList], rfl⟩
  obtain ⟨gs, hgs⟩ : ∃ gs, scalarPattern.captures s = some gs :=
    Pattern.captures_of_spells rfl ⟨[], hspells, rfl⟩
  rw [hgs, (hone gs hgs).2]

/-! ### Reading a piece -/

theorem readType_eq_ok_iff (hw : IsName w) : readType w = .ok t ↔ t.NamedBy w := by
  rw [readType, ← ElementType.read_eq_ok_iff hw]
  cases ElementType.read w <;> simp [Except.mapError]

theorem Qualifies.eq_decide (h : Qualifies q isConst) :
    isConst = decide (q = "const" ∨ q = "in") := by
  cases h <;> decide

/-- A qualifier says one thing. -/
theorem Qualifies.unique {c : Bool} (h : Qualifies q isConst) (h' : Qualifies q c) :
    isConst = c :=
  h.eq_decide.trans h'.eq_decide.symm

theorem Qualifies.ne_pointer (h : Qualifies q isConst) : q ≠ "pointer" := by
  cases h <;> decide

theorem readPointee_eq_ok_iff (hw : IsName w) (isConst : Bool) :
    ((readType w).map fun t => Parameter.pointer t isConst) = .ok p ↔
      ∃ t, t.NamedBy w ∧ p = .pointer t isConst := by
  simp only [← readType_eq_ok_iff hw]
  cases readType w <;> simp [Except.map, eq_comm]

theorem readPointer_of_qualifies (h : Qualifies q isConst) (w : Option String) :
    readPointer (some q) w = match w with
      | some w => (readType w).map fun t => .pointer t isConst
      | none => .ok (.pointer .void isConst) := by
  cases h <;> rfl

/-- The pointer that the two words say, with `pointer` between them. -/
theorem readPointer_eq_ok_iff {q w : Option String} (h : IsPointer ws q w) :
    readPointer q w = .ok p ↔ Reads ws p := by
  obtain ⟨rfl, hq, hw⟩ := h
  cases q with
  | none =>
      cases w with
      | none =>
          constructor
          · intro h
            obtain rfl := Except.ok.inj h
            exact .pointer
          · intro h
            cases h with
            | scalar ht => exact ht.not_pointer.elim
            | pointer => rfl
      | some w =>
          refine (readPointee_eq_ok_iff (hw w rfl) false).trans ⟨?_, fun h => ?_⟩
          · rintro ⟨t, ht, rfl⟩
            exact .typed ht
          · generalize hpointer : "pointer" = a at h
            cases h with
            | typed ht => exact ⟨_, ht, rfl⟩
            | qualified hq' => exact absurd hpointer.symm hq'.ne_pointer
  | some q =>
      obtain ⟨c, hc⟩ := hq q rfl
      rw [readPointer_of_qualifies hc]
      cases w with
      | none =>
          constructor
          · intro h
            obtain rfl := Except.ok.inj h
            exact .qualified hc
          · intro h
            cases h with
            | typed => exact absurd rfl hc.ne_pointer
            | qualified hq' => rw [hc.unique hq']
      | some w =>
          refine (readPointee_eq_ok_iff (hw w rfl) c).trans ⟨?_, fun h => ?_⟩
          · rintro ⟨t, ht, rfl⟩
            exact .qualifiedTyped hc ht
          · cases h with
            | qualifiedTyped hq' ht => exact ⟨_, ht, by rw [hc.unique hq']⟩

theorem readScalar_eq_ok_iff (hw : IsName w) (hpointer : w ≠ "pointer") :
    readScalar w = .ok p ↔ Reads [w] p := by
  have hread : readScalar w = .ok p ↔ ∃ t, readType w = .ok t ∧ t ≠ .void ∧ p = .scalar t := by
    unfold readScalar
    split
    · next h => simp [h]
    · next t hvoid h => simp [h, show t ≠ .void from hvoid, @eq_comm _ p]
    · next h => simp [h]
  simp only [hread, readType_eq_ok_iff hw]
  constructor
  · rintro ⟨t, ht, hvoid, rfl⟩
    exact .scalar ht hvoid
  · intro h
    cases h with
    | scalar ht hvoid => exact ⟨_, ht, hvoid, rfl⟩
    | pointer => exact absurd rfl hpointer

/-- What the words of a piece say that is in the grammar. -/
theorem Reads.words_cases (h : Reads ws p) :
    (∃ q w, IsPointer ws q w) ∨ ∃ w, ws = [w] ∧ IsName w := by
  cases h with
  | scalar ht hvoid => exact .inr ⟨_, rfl, ht.isName⟩
  | pointer => exact .inl ⟨none, none, rfl, by simp, by simp⟩
  | typed ht => exact .inl ⟨none, some _, rfl, by simp, by simpa using ht.isName⟩
  | qualified hq => exact .inl ⟨some _, none, rfl, by rintro _ ⟨⟩; exact ⟨_, hq⟩, by simp⟩
  | qualifiedTyped hq ht =>
      exact .inl ⟨some _, some _, rfl, by rintro _ ⟨⟩; exact ⟨_, hq⟩, by simpa using ht.isName⟩

/-- **The words of a piece are read as the grammar says.** -/
theorem readParameter_eq_ok_iff (x : List Char) :
    readParameter (" ".intercalate (Text.words x)) = .ok p ↔ Reads (Text.words x) p := by
  have hwords := Text.words_intercalate x
  unfold readParameter
  split
  · next gs hpointer => exact readPointer_eq_ok_iff (hwords ▸ isPointer_of_captures hpointer)
  · next hpointer =>
    have hnot : ∀ q w, ¬ IsPointer (Text.words x) q w := by
      intro q w h
      obtain ⟨gs, hgs⟩ := h.captures
      rw [hgs] at hpointer
      cases hpointer
    split
    · next gs hscalar =>
      obtain ⟨hname, rfl⟩ := captures_scalar_iff.mp hscalar
      have hone := hwords.symm.trans (Text.words_of_isWord hname.isWord)
      have hread := readScalar_eq_ok_iff (p := p) hname fun heq =>
        hnot none none ⟨hone.trans (congrArg (fun a => [a]) heq), by simp, by simp⟩
      rw [← hone] at hread
      exact hread
    · next hscalar =>
      refine iff_of_false (by simp) fun h => ?_
      rcases h.words_cases with ⟨q, w, h⟩ | ⟨w, hw, hname⟩
      · exact hnot q w h
      · rw [hw, String.intercalate_singleton, captures_scalar_iff.mpr ⟨hname, rfl⟩] at hscalar
        cases hscalar

/-- What the words of a parameter say of it. -/
theorem Reads.attributes (h : Reads ws p) : (p.isArray = true ↔ "pointer" ∈ ws) ∧
    (p.isConst = true ↔ p.isArray = false ∨ ws.head? = some "const" ∨ ws.head? = some "in") := by
  cases h with
  | @scalar w t ht hvoid =>
      have hpointer : "pointer" ≠ w := by
        rintro rfl
        exact ht.not_pointer
      simp [Parameter.isArray, Parameter.isConst, hpointer]
  | pointer | typed ht => simp [Parameter.isArray, Parameter.isConst]
  | qualified hq | qualifiedTyped hq ht =>
      cases hq <;> simp [Parameter.isArray, Parameter.isConst]

/-! ### Reading a signature -/

variable {cs : List Char} {ps : List Parameter}

theorem layout_append_comma (x y : List Char) : layout (x ++ ',' :: y) = layout x ++ layout y := by
  rw [layout, List.splitOn_append_cons_self, List.map_append]
  rfl

theorem layout_ne_nil (cs : List Char) : layout cs ≠ [] := by
  simp [layout]

theorem layout_of_not_mem (h : ',' ∉ cs) : layout cs = [Text.words cs] := by
  rw [layout, List.splitOn_eq_singleton h]
  rfl

/-- A blank text is one piece without words. -/
theorem layout_eq_blank_iff : layout cs = [[]] ↔ ∀ c ∈ cs, Text.isBlank c = true := by
  by_cases hcomma : ',' ∈ cs
  · obtain ⟨x, y, rfl, -⟩ := List.eq_append_cons_of_mem hcomma
    obtain ⟨w, ws, hx⟩ := List.exists_cons_of_ne_nil (layout_ne_nil x)
    refine iff_of_false ?_ fun hblank => ?_
    · simp [layout_append_comma, hx, layout_ne_nil]
    · exact absurd (hblank ',' (by simp)) (by decide)
  · rw [layout_of_not_mem hcomma, ← Text.wordChars_eq_nil_iff]
    simp [Text.words]

/-- **The pieces are read in order, each as the grammar says.** -/
theorem readPieces_eq_ok_iff {pieces : List (List Char)} : readPieces pieces = .ok ps ↔
    List.Forall₂ Reads (pieces.map Text.words) ps := by
  induction pieces generalizing ps with
  | nil => simp [readPieces, eq_comm]
  | cons piece rest ih =>
      simp only [List.map_cons, List.forall₂_cons_left_iff, ← readParameter_eq_ok_iff, ← ih,
        readPieces]
      cases readParameter (" ".intercalate (Text.words piece)) with
      | error fault => simp
      | ok p => cases readPieces rest <;> simp [eq_comm]

theorem exists_reads_iff {l : List (List String)} :
    (∃ ps, List.Forall₂ Reads l ps) ↔ ∀ ws ∈ l, ∃ p, Reads ws p := by
  induction l with
  | nil => simp
  | cons ws l ih =>
      rw [List.forall_mem_cons, ← ih]
      constructor
      · rintro ⟨_, _ | ⟨hp, hps⟩⟩
        exact ⟨⟨_, hp⟩, _, hps⟩
      · rintro ⟨⟨p, hp⟩, ps, hps⟩
        exact ⟨p :: ps, .cons hp hps⟩

/-- Reading a piece looks at nothing but its words. -/
theorem readPieces_congr {pieces pieces' : List (List Char)}
    (h : pieces.map Text.words = pieces'.map Text.words) :
    readPieces pieces = readPieces pieces' := by
  induction pieces generalizing pieces' with
  | nil =>
      obtain rfl := List.map_eq_nil_iff.mp h.symm
      rfl
  | cons piece rest ih =>
      obtain ⟨piece', rest', rfl, hpiece, hrest⟩ := List.map_eq_cons_iff.mp h.symm
      rw [readPieces, readPieces, ih hrest.symm, hpiece]

theorem parse_of_blank {s : String} (h : ∀ c ∈ s.toList, Text.isBlank c = true) :
    parse s = .ok [] :=
  if_pos (Text.trim_isEmpty_iff.mpr h)

/-- A text that is not blank is read by its pieces. -/
theorem parse_of_not_blank {s : String} (h : ¬ ∀ c ∈ s.toList, Text.isBlank c = true) :
    parse s = (readPieces (s.toList.splitOn ',')).mapError (.invalidSignature s) := by
  rw [parse, if_neg (mt Text.trim_isEmpty_iff.mp h)]
  cases readPieces (s.toList.splitOn ',') <;> rfl

theorem parse_eq_ok_iff {s : String} (h : ¬ ∀ c ∈ s.toList, Text.isBlank c = true) :
    parse s = .ok ps ↔ List.Forall₂ Reads (layout s.toList) ps := by
  rw [parse_of_not_blank h, layout, ← readPieces_eq_ok_iff]
  cases readPieces (s.toList.splitOn ',') <;> simp [Except.mapError]

/-- Both texts are read as the same parameters, or refused for the same fault. -/
def SameVerdict (s s' : String) : Prop :=
  ∃ r : Except SignatureFault (List Parameter), parse s = r.mapError (.invalidSignature s) ∧
    parse s' = r.mapError (.invalidSignature s')

/-- **Reading depends on the words of the pieces alone.** -/
theorem sameVerdict_of_layout {s s' : String} (h : layout s.toList = layout s'.toList) :
    SameVerdict s s' := by
  by_cases hblank : ∀ c ∈ s.toList, Text.isBlank c = true
  · have hblank' := layout_eq_blank_iff.mp (h ▸ layout_eq_blank_iff.mpr hblank)
    exact ⟨.ok [], parse_of_blank hblank, parse_of_blank hblank'⟩
  · have hblank' : ¬ ∀ c ∈ s'.toList, Text.isBlank c = true := by
      rwa [← layout_eq_blank_iff, ← h, layout_eq_blank_iff]
    refine ⟨_, parse_of_not_blank hblank, ?_⟩
    rw [parse_of_not_blank hblank', readPieces_congr h]

/-! ### Gaps -/

/-- A blank between the two texts parts nothing: one of them has its end, a blank or a comma
there. -/
def Loose (before after : List Char) : Prop :=
  (∀ c, before.getLast? = some c → Text.isBlank c = true ∨ c = ',') ∨
    ∀ c, after.head? = some c → Text.isBlank c = true ∨ c = ','

/-- The last piece of a text goes on in what follows. -/
theorem exists_last_piece (before : List Char) : ∃ init x, ',' ∉ x ∧
    (∀ c, x.getLast? = some c → before.getLast? = some c) ∧
    ∀ rest, (before ++ rest).splitOn ',' = init ++ (x ++ rest).splitOn ',' := by
  by_cases hcomma : ',' ∈ before
  · obtain ⟨x, y, hrev, hx⟩ := List.eq_append_cons_of_mem (List.mem_reverse.mpr hcomma)
    obtain rfl : before = y.reverse ++ ',' :: x.reverse := by
      rw [← List.reverse_reverse before, hrev]
      simp
    refine ⟨y.reverse.splitOn ',', x.reverse, by simpa using hx, fun c hc => ?_, fun rest => ?_⟩
    · rw [← List.singleton_append, ← List.append_assoc, List.getLast?_append, hc, Option.some_or]
    · rw [List.append_assoc, List.cons_append, List.splitOn_append_cons_self]
  · exact ⟨[], before, hcomma, fun _ hc => hc, fun _ => rfl⟩

/-- The first piece of a text goes on from what stands before. -/
theorem exists_first_piece (after : List Char) : ∃ y tail, ',' ∉ y ∧
    (∀ c, y.head? = some c → after.head? = some c) ∧
    ∀ piece, ',' ∉ piece → (piece ++ after).splitOn ',' = (piece ++ y) :: tail := by
  by_cases hcomma : ',' ∈ after
  · obtain ⟨y, rest, rfl, hy⟩ := List.eq_append_cons_of_mem hcomma
    refine ⟨y, rest.splitOn ',', hy, fun c hc => ?_, fun piece hpiece => ?_⟩
    · rw [List.head?_append, hc, Option.some_or]
    · rw [← List.append_assoc, List.splitOn_append_cons_self_of_not_mem]
      simp [hpiece, hy]
  · refine ⟨after, [], hcomma, fun _ hc => hc, fun piece hpiece => ?_⟩
    exact List.splitOn_eq_singleton (by simp [hpiece, hcomma])

/-- **How wide a gap is does not matter**, and where it parts nothing it may as well be missing. -/
theorem layout_respaced (before after : List Char) {u v : List Char}
    (hu : ∀ c ∈ u, Text.isBlank c = true) (hv : ∀ c ∈ v, Text.isBlank c = true)
    (h : (u = [] ↔ v = []) ∨ Loose before after) :
    layout (before ++ u ++ after) = layout (before ++ v ++ after) := by
  obtain ⟨init, x, hx, hlast, hbefore⟩ := exists_last_piece before
  obtain ⟨y, tail, hy, hfirst, hafter⟩ := exists_first_piece after
  have hsplit : ∀ m, (∀ c ∈ m, Text.isBlank c = true) →
      (before ++ m ++ after).splitOn ',' = init ++ (x ++ m ++ y) :: tail := by
    intro m hm
    have hcomma : ',' ∉ m := fun hmem => absurd (hm ',' hmem) (by decide)
    rw [List.append_assoc, hbefore, ← List.append_assoc, hafter _ (by simp [hx, hcomma])]
  have hparted : (u = [] ↔ v = []) ∨ Text.Parted x y := by
    refine h.imp_right fun hloose => ?_
    refine hloose.imp (fun hl c hc => ?_) fun hf c hc => ?_
    · refine (hl c (hlast c hc)).resolve_right ?_
      rintro rfl
      exact hx (List.mem_of_getLast? hc)
    · refine (hf c (hfirst c hc)).resolve_right ?_
      rintro rfl
      exact hy (List.mem_of_head? hc)
  rw [layout, layout, hsplit u hu, hsplit v hv, List.map_append, List.map_append, List.map_cons,
    List.map_cons, Text.words, Text.wordChars_respaced hu hv hparted]
  rfl

/-! ### Printed signatures -/

theorem layout_parameter (p : Parameter) : layout p.text.toList = [p.words] := by
  have hname : ∀ t : ElementType, IsName t.name := fun t => t.namedBy_name.isName
  have hcomma : ',' ∉ p.text.toList := by
    have hplain : ∀ t : ElementType, ',' ∉ t.name.toList := fun t hmem =>
      absurd ((hname t).2 ',' hmem) (by decide)
    rcases p with ⟨t, _ | _⟩ | t <;>
      simp [Parameter.text, Parameter.words, String.intercalate_cons_cons, hplain t]
  have hwords : ∀ w ∈ p.words, IsName w := by
    rcases p with ⟨t, _ | _⟩ | t <;> simp only [Parameter.words, List.forall_mem_cons]
    · exact ⟨isName_pointer, hname t, by simp⟩
    · exact ⟨Qualifies.const.isName, isName_pointer, hname t, by simp⟩
    · exact ⟨hname t, by simp⟩
  rw [layout_of_not_mem hcomma, Parameter.text,
    Text.words_of_isWords fun w hw => (hwords w hw).isWord]

/-- The words that a list of parameters is printed from. -/
theorem layout_text (p : Parameter) (ps : List Parameter) :
    layout (text (p :: ps)).toList = (p :: ps).map Parameter.words := by
  induction ps generalizing p with
  | nil => simp [text, layout_parameter]
  | cons q ps ih =>
      -- the blank after a comma parts nothing
      have hgap := layout_respaced [] (text (q :: ps)).toList (u := [' ']) (v := [])
        (List.forall_mem_singleton.mpr rfl) (by simp) (.inr (.inl (by simp)))
      have htext : (text (p :: q :: ps)).toList =
          p.text.toList ++ ',' :: ([] ++ [' '] ++ (text (q :: ps)).toList) := by
        simp [text, String.intercalate_cons_cons]
      rw [htext, layout_append_comma, hgap, layout_parameter, List.nil_append, List.nil_append,
        ih q]
      rfl

theorem Reads.words {p : Parameter} (h : p ≠ .scalar .void) : Reads p.words p := by
  cases p with
  | pointer t isConst =>
      cases isConst with
      | true => exact .qualifiedTyped .const t.namedBy_name
      | false => exact .typed t.namedBy_name
  | scalar t => exact .scalar t.namedBy_name fun ht => h (ht ▸ rfl)

/-- **Printed parameters are read back.** -/
theorem parse_text (h : ∀ p ∈ ps, p ≠ .scalar .void) : parse (text ps) = .ok ps := by
  cases ps with
  | nil => exact parse_of_blank (by simp [text])
  | cons p ps =>
      have hlayout := layout_text p ps
      have hblank : ¬ ∀ c ∈ (text (p :: ps)).toList, Text.isBlank c = true := by
        rw [← layout_eq_blank_iff, hlayout]
        rcases p with ⟨t, _ | _⟩ | t <;> simp [Parameter.words]
      have hreads : List.Forall₂ Reads (layout (text (p :: ps)).toList) (p :: ps) := by
        rw [hlayout, List.forall₂_map_left_iff, List.forall₂_same]
        exact fun q hq => .words (h q hq)
      exact (parse_eq_ok_iff hblank).mpr hreads

/-- **A signature is accepted exactly if it is in the grammar.**  A blank one has no parameters.
Any other is accepted if and only if the words of each of its pieces are in the grammar, and then
it has one parameter for each piece, in order, as the grammar says: an array if `pointer` occurs,
and constant if it is a scalar or marked so.  Everything else is an invalid signature.

So it does not matter how wide gaps are, nor whether there are any where they part nothing, and
parameters that are printed are read back. -/
theorem parse_exact :
    (∀ s : String, (∀ c ∈ s.toList, Text.isBlank c = true) → parse s = .ok []) ∧
    (∀ s : String, (¬ ∀ c ∈ s.toList, Text.isBlank c = true) →
      ((∃ ps, parse s = .ok ps) ↔ ∀ ws ∈ layout s.toList, ∃ p, Reads ws p) ∧
      (∀ ps, parse s = .ok ps ↔ List.Forall₂ Reads (layout s.toList) ps) ∧
      ((¬ ∀ ws ∈ layout s.toList, ∃ p, Reads ws p) →
        ∃ fault, parse s = .error (.invalidSignature s fault))) ∧
    (∀ ws p, Reads ws p → (p.isArray = true ↔ "pointer" ∈ ws) ∧ (p.isConst = true ↔
      p.isArray = false ∨ ws.head? = some "const" ∨ ws.head? = some "in")) ∧
    (∀ before after u v : List Char, (∀ c ∈ u, Text.isBlank c = true) →
      (∀ c ∈ v, Text.isBlank c = true) → (u = [] ↔ v = []) ∨ Loose before after →
      SameVerdict (.ofList (before ++ u ++ after)) (.ofList (before ++ v ++ after))) ∧
    ∀ ps, (∀ p ∈ ps, p ≠ .scalar .void) → parse (text ps) = .ok ps := by
  refine ⟨fun s => parse_of_blank, fun s hblank => ?_, fun _ _ h => h.attributes,
    fun before after u v hu hv h => ?_, fun ps => parse_text⟩
  · have haccepted : (∃ ps, parse s = .ok ps) ↔ ∀ ws ∈ layout s.toList, ∃ p, Reads ws p := by
      rw [← exists_reads_iff]
      exact exists_congr fun ps => parse_eq_ok_iff hblank
    refine ⟨haccepted, fun ps => parse_eq_ok_iff hblank, fun hnot => ?_⟩
    exact (parse_cases s).resolve_left fun hok => hnot (haccepted.mp hok)
  · refine sameVerdict_of_layout ?_
    rw [String.toList_ofList, String.toList_ofList]
    exact layout_respaced before after hu hv h

-- Names of types have aliases and may be written in capitals; the other words may not.
example : parse "in  pointer FLOAT,pointer , Int" =
    .ok [.pointer .float true, .pointer .void false, .scalar .sint32] ∧
    parse "IN pointer float" = .error (.invalidSignature "IN pointer float"
      (.unparsable "IN pointer float")) := by
  decide +kernel

end Signature

end LaunchGraph
