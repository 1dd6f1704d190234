import TreeLint.Proofs.RowChildren

namespace TreeLint

def Node.setting? (member : Node) : Option Node :=
  (member.childrenOf .equalsValueClause).head?.bind fun clause =>
    (clause.child? "value").or clause.children.head?

namespace Declarations

def isNonzero (member : Node) : Bool :=
  member.setting?.any (·.trimmedText != zeroLiteral)

theorem initializerValue_eq (member : Node) : initializerValue member = .ok member.setting? := by
  rw [initializerValue, Node.setting?]
  cases member.childrenOf .equalsValueClause with
  | nil => rfl
  | cons clause rest =>
    dsimp only [List.head?_cons, Option.bind_some]
    cases clause.child? "value" with
    | some value => rfl
    | none =>
      cases clause.children with
      | nil => rfl
      | cons first more => rfl

theorem allNonzero_eq (members : List Node) : allNonzero members = .ok (members.all isNonzero) := by
  induction members with
  | nil => rfl
  | cons member rest ih =>
    rw [allNonzero, initializerValue_eq, ih, List.all_cons, isNonzero]
    cases member.setting? with
    | none => rfl
    | some value =>
      by_cases hzero : value.trimmedText = zeroLiteral
      · simp [hzero, bind, Except.bind, pure, Except.pure]
      · simp [hzero, bind, Except.bind]

theorem enumDefaultValue_eq (s : Site) :
    enumDefaultValue s = .reportIf ((s.node.childrenOf .enumMemberDeclaration).all isNonzero)
      s.node enumDefaultValueMessage := by
  rw [enumDefaultValue, allNonzero_eq]
  rfl

theorem isNonzero_bare (member : Node) : isNonzero member.bare = isNonzero member := by
  have hsetting := initializerValue_recast .bare member
  rw [initializerValue_eq, initializerValue_eq, Except.map_ok] at hsetting
  rw [isNonzero, isNonzero, Node.bare, Except.ok.inj hsetting, Option.any_map]
  simp

theorem all_isNonzero_bare (n : Node) (kind : Kind) :
    (n.bare.childrenOf kind).all isNonzero = (n.childrenOf kind).all isNonzero := by
  simp [Node.childrenOf_bare, Function.comp_def, isNonzero_bare]

end Declarations

namespace Document

def settingAt (rows : List Row) (m : Nat) : Option Nat :=
  (childrenOfAt rows .equalsValueClause m).head?.bind fun c =>
    (childAt rows "value" c).or (childrenAt rows c).head?

def LacksZero (rows : List Row) (i : Nat) : Prop :=
  ∀ m ∈ childrenOfAt rows .enumMemberDeclaration i,
    ∃ v, settingAt rows m = some v ∧ Text.trim (textAt rows v) ≠ Declarations.zeroLiteral

namespace Planted

variable {d : Document} {t : Tree} {i : Nat}

theorem setting?_nodeAt (h : Planted d t) (hd : d.Valid) {n : Node} (hn : t.NodeAt i n) :
    Option.Rel t.NodeAt (settingAt d.rows i) n.setting? := by
  apply rel_bind (rel_head? (h.childrenOf_nodeAt hd hn .equalsValueClause))
  intro c clause hc
  exact rel_or (h.child?_nodeAt hd hc "value") (rel_head? (h.children_nodeAt hd hc))

theorem enumDefaultValue_at (h : Planted d t) (hd : d.Valid) {s : Site}
    (hs : t.walk[i]? = some s) :
    t.Decides Declarations.enumDefaultValueMessage (Declarations.enumDefaultValue s) (some i)
      (LacksZero d.rows i) := by
  apply Tree.Decides.reportIf rfl hs (Declarations.enumDefaultValue_eq s)
  apply all_iff_of_forall₂ (h.childrenOf_nodeAt hd ⟨s, hs, rfl⟩ .enumMemberDeclaration)
  intro m member hm
  apply any_iff_of_rel (h.setting?_nodeAt hd hm)
  intro v value hv
  rw [h.trimmedText_nodeAt hd hv, bne_iff_ne]

end Planted

theorem Seats.mem_reported_enum {d : Document} {t : Tree} {i : Nat} {s : Site}
    (h : d.Seats t .enumDeclaration i s) : i ∈ t.reported "SEV010" ↔
      ∀ m ∈ s.node.bare.childrenOf .enumMemberDeclaration, Declarations.isNonzero m := by
  have hrule : Rule.catalogue[9] ∈ Rule.catalogue := List.getElem_mem _
  have hmem := h.mem_reported_iff hrule rfl rfl (Declarations.enumDefaultValue_eq s)
  rw [← Declarations.all_isNonzero_bare, List.all_eq_true] at hmem
  exact hmem

/--
An enumeration is reported if each of its members is set to something other than zero. Neither the
order of its children nor those that are no members count, and no further member makes up for one
that is zero or not set.
-/
theorem zeroless_enums_reported (d : Document) (hd : d.Valid) :
    ∃ t sink, d.Yields Registry.builtin t sink ∧
      t.Reports sink.diagnostics "SEV010" Declarations.enumDefaultValueMessage some
        (t.reported "SEV010") ∧
      (∀ i, i ∈ t.reported "SEV010" ↔
        kindAt d.rows i = some .enumDeclaration ∧ LacksZero d.rows i) ∧
      (∀ i, kindAt d.rows i = some .enumDeclaration →
        childrenOfAt d.rows .enumMemberDeclaration i = [] → i ∈ t.reported "SEV010") ∧
      ∀ (i i' : Nat) (s s' : Site) (d' : Document) (t' : Tree),
        d.Seats t .enumDeclaration i s → d'.Seats t' .enumDeclaration i' s' →
        let members := s.node.bare.childrenOf .enumMemberDeclaration
        let members' := s'.node.bare.childrenOf .enumMemberDeclaration
        (s.node.bare.children.Perm s'.node.bare.children →
          (i ∈ t.reported "SEV010" ↔ i' ∈ t'.reported "SEV010")) ∧
        (members = members' → (i ∈ t.reported "SEV010" ↔ i' ∈ t'.reported "SEV010")) ∧
        (members ⊆ members' → i ∉ t.reported "SEV010" → i' ∉ t'.reported "SEV010") := by
  obtain ⟨t, h⟩ := hd.planted
  have hrule : Rule.catalogue[9] ∈ Rule.catalogue := List.getElem_mem _
  obtain ⟨hreports, hmem⟩ := h.reports hrule rfl (fun _ _ => rfl) fun _ _ => h.enumDefaultValue_at hd
  refine ⟨t, _, h.yields_builtin, hreports, hmem, ?_, ?_⟩
  · intro i hkind hnone
    apply (hmem i).mpr
    exact ⟨hkind, by simp [LacksZero, hnone]⟩
  · intro i i' s s' d' t' hs hs' members members'
    have hsubset : members ⊆ members' → i' ∈ t'.reported "SEV010" → i ∈ t.reported "SEV010" := by
      intro hsub hall
      rw [hs'.mem_reported_enum] at hall
      rw [hs.mem_reported_enum]
      intro m hm
      exact hall m (hsub hm)
    have hback : members' ⊆ members → i ∈ t.reported "SEV010" → i' ∈ t'.reported "SEV010" := by
      intro hsub hall
      rw [hs.mem_reported_enum] at hall
      rw [hs'.mem_reported_enum]
      intro m hm
      exact hall m (hsub hm)
    refine ⟨?_, ?_, ?_⟩
    · intro hperm
      have hmembers : members.Perm members' := hperm.filter _
      exact ⟨hback hmembers.symm.subset, hsubset hmembers.subset⟩
    · intro heq
      exact ⟨hback (heq ▸ List.Subset.refl _), hsubset (heq ▸ List.Subset.refl _)⟩
    · intro hsub hi
      exact mt (hsubset hsub) hi

theorem zeroless_enums_reported_reordered :
    let d : Document := ⟨"a.cs", [
      ⟨.compilationUnit, none, none, none, none, none⟩,
      ⟨.enumDeclaration, some 0, none, none, none, none⟩,
      ⟨.enumMemberDeclaration, some 1, some "None", none, none, none⟩,
      ⟨.modifier, some 1, some "public", none, none, none⟩,
      ⟨.enumDeclaration, some 0, none, none, none, none⟩,
      ⟨.modifier, some 4, some "public", none, none, none⟩,
      ⟨.enumMemberDeclaration, some 4, some "None", none, none, none⟩,
      ⟨.enumDeclaration, some 0, none, none, none, none⟩,
      ⟨.enumMemberDeclaration, some 7, none, none, none, none⟩,
      ⟨.equalsValueClause, some 8, none, none, none, none⟩,
      ⟨.literalExpression, some 9, some "0", none, none, none⟩,
      ⟨.literalExpression, some 9, some " 2", none, some "value", none⟩,
      ⟨.enumDeclaration, some 0, none, none, none, none⟩]⟩
    d.Valid ∧ ∃ t sink, d.Yields Registry.builtin t sink ∧
      t.Reports sink.diagnostics "SEV010" Declarations.enumDefaultValueMessage some
        (t.reported "SEV010") ∧
      1 ∉ t.reported "SEV010" ∧ 4 ∉ t.reported "SEV010" ∧ 7 ∈ t.reported "SEV010" ∧
      12 ∈ t.reported "SEV010" := by
  intro d
  have hd : d.Valid := by
    refine ⟨by simp [d], rfl, ?_⟩
    simp [d]
  have hw : Outlines d.rows (.mk d.rows[0] [
      .mk d.rows[1] [.mk d.rows[2] [], .mk d.rows[3] []],
      .mk d.rows[4] [.mk d.rows[5] [], .mk d.rows[6] []],
      .mk d.rows[7] [.mk d.rows[8] [.mk d.rows[9] [.mk d.rows[10] [], .mk d.rows[11] []]]],
      .mk d.rows[12] []]) := ⟨rfl, rfl⟩
  obtain ⟨t, sink, hyields, hreports, hmem, hempty, hsame⟩ := zeroless_enums_reported d hd
  have hwalk := walk_of_outlines hd hyields.toTree hw
  have hfirst : 1 ∉ t.reported "SEV010" := by
    rw [hmem]
    rintro ⟨-, hlacks⟩
    obtain ⟨v, hv, -⟩ := hlacks 2 (by decide +kernel)
    cases hv
  have hsecond : 4 ∉ t.reported "SEV010" := by
    have hat : t.walk[1]? = some _ := (congrArg (·[1]?) hwalk).trans rfl
    have hat' : t.walk[4]? = some _ := (congrArg (·[4]?) hwalk).trans rfl
    have hverdicts := hsame 1 4 _ _ d t ⟨hyields.toTree, hat, rfl⟩ ⟨hyields.toTree, hat', rfl⟩
    apply mt (hverdicts.1 _).mpr hfirst
    simp [Outline.fillAll, Outline.fill, Outline.growAll, Outline.grow, Node.bare, Node.recast,
      Node.recastAll, Node.children, Recast.bare, d, List.Perm.swap]
  refine ⟨hd, t, sink, hyields, hreports, hfirst, hsecond, ?_, ?_⟩
  · apply (hmem 7).mpr
    constructor
    · rfl
    · intro m hm
      have hmembers : childrenOfAt d.rows .enumMemberDeclaration 7 = [8] := by decide +kernel
      obtain rfl := List.mem_singleton.mp (hmembers ▸ hm)
      exact ⟨11, by decide +kernel, by decide +kernel⟩
  · apply hempty 12
    · rfl
    · decide +kernel

end Document

end TreeLint
