import TreeLint.Proofs.RowChildren

namespace TreeLint

theorem Text.trimList_append {p : Char → Bool} {before cs after : List Char}
    (hbefore : ∀ c ∈ before, p c) (hafter : ∀ c ∈ after, p c) :
    trimList p (before ++ cs ++ after) = trimList p cs := by
  have hnone : after.dropWhile p = [] := List.dropWhile_eq_nil_iff.mpr hafter
  have hreverse : ∀ c ∈ after.reverse, p c := by
    intro c hc
    exact hafter c (List.mem_reverse.mp hc)
  rw [trimList, trimList, List.append_assoc, List.dropWhile_append_of_pos hbefore,
    List.dropWhile_append, hnone]
  by_cases hempty : cs.dropWhile p = []
  · simp [hempty]
  · rw [if_neg (by simpa using hempty), List.reverse_append,
      List.dropWhile_append_of_pos hreverse]

theorem any_eq_of_mem_iff {α : Type} {as as' : List α} (h : ∀ a, a ∈ as ↔ a ∈ as')
    (p : α → Bool) : as.any p = as'.any p := by
  rw [Bool.eq_iff_iff, List.any_eq_true, List.any_eq_true]
  simp only [h]

namespace Node

def modifierWords (n : Node) : List String :=
  (n.childrenOf .modifier).map trimmedText

def declaratorCount? (n : Node) : Option Nat :=
  (n.childrenOf .variableDeclaration).head?.map fun v => (v.childrenOf .variableDeclarator).length

end Node

theorem Declarations.encapsulateField_eq (s : Site) :
    encapsulateField s = .reportIf (s.node.modifierWords.any exposingModifiers.contains &&
      !s.node.modifierWords.any restrictingFieldModifiers.contains &&
      s.node.declaratorCount? == some 1) s.node encapsulateFieldMessage := by
  have hwords : (s.node.childrenOf .modifier).map Node.trimmedText = s.node.modifierWords := rfl
  unfold encapsulateField Node.declaratorCount?
  rw [hwords]
  dsimp only
  generalize s.node.modifierWords.any exposingModifiers.contains = exposing
  generalize s.node.modifierWords.any restrictingFieldModifiers.contains = restricting
  cases exposing with
  | false => rfl
  | true =>
    cases restricting with
    | true => rfl
    | false =>
      cases s.node.childrenOf .variableDeclaration with
      | nil => rfl
      | cons v rest =>
        rw [List.head?_cons, Option.map_some, Option.some_beq_some]
        rfl

namespace Document

def modifierWordsAt (rows : List Row) (i : Nat) : List String :=
  (childrenOfAt rows .modifier i).map fun m => Text.trim (textAt rows m)

structure ExposedField (rows : List Row) (i : Nat) : Prop where
  exposing : ∃ word ∈ modifierWordsAt rows i, word ∈ Declarations.exposingModifiers
  free : ∀ word ∈ modifierWordsAt rows i, word ∉ Declarations.restrictingFieldModifiers
  single : ∃ v, (childrenOfAt rows .variableDeclaration i).head? = some v ∧
    (childrenOfAt rows .variableDeclarator v).length = 1

namespace Planted

variable {d : Document} {t : Tree} {i : Nat} {n : Node}

theorem modifierWords_nodeAt (h : Planted d t) (hd : d.Valid) (hn : t.NodeAt i n) :
    n.modifierWords = modifierWordsAt d.rows i := by
  have hmodifiers := h.childrenOf_nodeAt hd hn .modifier
  rw [Node.modifierWords, modifierWordsAt, eq_comm, ← List.forall₂_eq_eq_eq,
    List.forall₂_map_left_iff, List.forall₂_map_right_iff]
  apply hmodifiers.imp
  intro m modifier hm
  exact (h.trimmedText_nodeAt hd hm).symm

theorem declaratorCount?_nodeAt (h : Planted d t) (hd : d.Valid) (hn : t.NodeAt i n) :
    n.declaratorCount? = some 1 ↔
      ∃ v, (childrenOfAt d.rows .variableDeclaration i).head? = some v ∧
        (childrenOfAt d.rows .variableDeclarator v).length = 1 := by
  have hdeclarations := rel_head? (h.childrenOf_nodeAt hd hn .variableDeclaration)
  rw [Node.declaratorCount?]
  generalize (n.childrenOf .variableDeclaration).head? = declaration? at hdeclarations
  generalize (childrenOfAt d.rows .variableDeclaration i).head? = v? at hdeclarations
  cases hdeclarations with
  | none => simp
  | some hv => simp [(h.childrenOf_nodeAt hd hv .variableDeclarator).length_eq]

theorem encapsulateField_at (h : Planted d t) (hd : d.Valid) {s : Site}
    (hs : t.walk[i]? = some s) :
    t.Decides Declarations.encapsulateFieldMessage (Declarations.encapsulateField s) (some i)
      (ExposedField d.rows i) := by
  have hn : t.NodeAt i s.node := ⟨s, hs, rfl⟩
  apply Tree.Decides.reportIf rfl hs (Declarations.encapsulateField_eq s)
  rw [Bool.and_eq_true, Bool.and_eq_true, beq_iff_eq, h.modifierWords_nodeAt hd hn,
    h.declaratorCount?_nodeAt hd hn]
  simp only [List.any_eq_true, Bool.not_eq_true', List.any_eq_false, List.contains_iff_mem]
  constructor
  · rintro ⟨⟨hexposing, hfree⟩, hsingle⟩
    exact ⟨hexposing, hfree, hsingle⟩
  · rintro ⟨hexposing, hfree, hsingle⟩
    exact ⟨⟨hexposing, hfree⟩, hsingle⟩

end Planted

theorem Seats.mem_reported_field {d : Document} {t : Tree} {i : Nat} {s : Site}
    (h : d.Seats t .fieldDeclaration i s) : i ∈ t.reported "SEV001" ↔
      s.node.modifierWords.any Declarations.exposingModifiers.contains &&
        !s.node.modifierWords.any Declarations.restrictingFieldModifiers.contains &&
        s.node.declaratorCount? == some 1 := by
  have hrule : Rule.catalogue[0] ∈ Rule.catalogue := List.getElem_mem _
  exact h.mem_reported_iff hrule rfl rfl (Declarations.encapsulateField_eq s)

/--
A field is reported for the set of its modifiers and for the number of variables in its first
declaration. A restricting modifier silences it whatever the others are, and blanks around the words
do not matter.
-/
theorem exposed_fields_reported (d : Document) (hd : d.Valid) :
    ∃ t sink, d.Yields Registry.builtin t sink ∧
      t.Reports sink.diagnostics "SEV001" Declarations.encapsulateFieldMessage some
        (t.reported "SEV001") ∧
      (∀ i, i ∈ t.reported "SEV001" ↔
        kindAt d.rows i = some .fieldDeclaration ∧ ExposedField d.rows i) ∧
      (∀ (i i' : Nat) (s s' : Site) (d' : Document) (t' : Tree),
        d.Seats t .fieldDeclaration i s → d'.Seats t' .fieldDeclaration i' s' →
        (∀ word, word ∈ s.node.modifierWords ↔ word ∈ s'.node.modifierWords) →
        s.node.declaratorCount? = s'.node.declaratorCount? →
        (i ∈ t.reported "SEV001" ↔ i' ∈ t'.reported "SEV001")) ∧
      (∀ (i : Nat) (s : Site), d.Seats t .fieldDeclaration i s →
        ∀ m ∈ s.node.childrenOf .modifier,
          m.trimmedText ∈ Declarations.restrictingFieldModifiers → i ∉ t.reported "SEV001") ∧
      ∀ before text after : String, (∀ c ∈ before.toList, Text.isBlank c) →
        (∀ c ∈ after.toList, Text.isBlank c) →
        Text.trim (before ++ text ++ after) = Text.trim text := by
  obtain ⟨t, h⟩ := hd.planted
  have hrule : Rule.catalogue[0] ∈ Rule.catalogue := List.getElem_mem _
  obtain ⟨hreports, hmem⟩ := h.reports hrule rfl (fun _ _ => rfl) fun _ _ => h.encapsulateField_at hd
  refine ⟨t, _, h.yields_builtin, hreports, hmem, ?_, ?_, ?_⟩
  · intro i i' s s' d' t' hs hs' hwords hcount
    rw [hs.mem_reported_field, hs'.mem_reported_field, any_eq_of_mem_iff hwords,
      any_eq_of_mem_iff hwords, hcount]
  · intro i s hs m hm hrestricting
    have hany : s.node.modifierWords.any Declarations.restrictingFieldModifiers.contains := by
      apply List.any_eq_true.mpr
      exact ⟨m.trimmedText, List.mem_map_of_mem hm, List.contains_iff_mem.mpr hrestricting⟩
    rw [hs.mem_reported_field, hany]
    simp
  · intro before text after hbefore hafter
    rw [Text.trim, Text.trim, String.toList_append, String.toList_append,
      Text.trimList_append hbefore hafter]

theorem exposed_fields_reported_static :
    let d : Document := ⟨"a.cs", [
      ⟨.classDeclaration, none, none, none, none, none⟩,
      ⟨.fieldDeclaration, some 0, none, none, none, none⟩,
      ⟨.modifier, some 1, some " public ", none, none, none⟩,
      ⟨.variableDeclaration, some 1, none, none, none, none⟩,
      ⟨.variableDeclarator, some 3, some "x", none, none, none⟩,
      ⟨.fieldDeclaration, some 0, none, none, none, none⟩,
      ⟨.variableDeclaration, some 5, none, none, none, none⟩,
      ⟨.predefinedType, some 6, some "int", none, none, none⟩,
      ⟨.variableDeclarator, some 6, some "y", none, none, none⟩,
      ⟨.modifier, some 5, some "public", none, none, none⟩,
      ⟨.modifier, some 5, some "public\t", none, none, none⟩,
      ⟨.fieldDeclaration, some 0, none, none, none, none⟩,
      ⟨.modifier, some 11, some "\nstatic", none, none, none⟩,
      ⟨.modifier, some 11, some "public", none, none, none⟩]⟩
    d.Valid ∧ ∃ t sink, d.Yields Registry.builtin t sink ∧
      t.Reports sink.diagnostics "SEV001" Declarations.encapsulateFieldMessage some
        (t.reported "SEV001") ∧
      1 ∈ t.reported "SEV001" ∧ 5 ∈ t.reported "SEV001" ∧ 11 ∉ t.reported "SEV001" := by
  intro d
  have hd : d.Valid := by
    refine ⟨by simp [d], rfl, ?_⟩
    simp [d]
  obtain ⟨t, sink, hyields, hreports, hmem, hsame, -, -⟩ := exposed_fields_reported d hd
  obtain ⟨t', h⟩ := hd.planted
  obtain rfl : t = t' := Except.ok.inj (hyields.toTree.symm.trans h.toTree)
  have hfirst : 1 ∈ t.reported "SEV001" := by
    apply (hmem 1).mpr
    exact ⟨rfl, by decide +kernel, by decide +kernel, 3, by decide +kernel, by decide +kernel⟩
  have hsecond : 5 ∈ t.reported "SEV001" := by
    obtain ⟨s, hs, hkind⟩ := h.exists_site_of_kind (i := 1) rfl
    obtain ⟨s', hs', hkind'⟩ := h.exists_site_of_kind (i := 5) rfl
    have hn : t.NodeAt 1 s.node := ⟨s, hs, rfl⟩
    have hn' : t.NodeAt 5 s'.node := ⟨s', hs', rfl⟩
    apply (hsame 1 5 s s' d t ⟨h.toTree, hs, hkind⟩ ⟨h.toTree, hs', hkind'⟩ _ _).mp hfirst
    · have hwords : modifierWordsAt d.rows 1 = ["public"] := by decide +kernel
      have hwords' : modifierWordsAt d.rows 5 = ["public", "public"] := by decide +kernel
      rw [h.modifierWords_nodeAt hd hn, h.modifierWords_nodeAt hd hn', hwords, hwords']
      simp
    · have hcount := (h.declaratorCount?_nodeAt hd hn).mpr
        ⟨3, by decide +kernel, by decide +kernel⟩
      have hcount' := (h.declaratorCount?_nodeAt hd hn').mpr
        ⟨6, by decide +kernel, by decide +kernel⟩
      rw [hcount, hcount']
  refine ⟨hd, t, sink, hyields, hreports, hfirst, hsecond, ?_⟩
  rw [hmem]
  rintro ⟨-, hfield⟩
  exact hfield.free "static" (by decide +kernel) (by decide)

end Document

end TreeLint
