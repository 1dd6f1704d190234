import TreeLint.Proofs.RowChildren

namespace TreeLint

def Node.lacksArguments (n : Node) : Bool :=
  (n.childrenOf .argumentList).head?.any fun l => (l.childrenOf .argument).isEmpty

theorem Node.lacksArguments_bare (n : Node) : n.bare.lacksArguments = n.lacksArguments := by
  rw [lacksArguments, lacksArguments, childrenOf_bare, List.head?_map, Option.any_map]
  simp only [childrenOf_bare, List.isEmpty_map]

theorem Node.lacksArguments_congr {n n' : Node}
    (h : (n.bare.childrenOf .argumentList).head?.map (childrenOf · .argument) =
      (n'.bare.childrenOf .argumentList).head?.map (childrenOf · .argument)) :
    n.lacksArguments = n'.lacksArguments := by
  have hany : ∀ n : Node, n.lacksArguments =
      ((n.bare.childrenOf .argumentList).head?.map (childrenOf · .argument)).any
        List.isEmpty := by
    intro n
    rw [← lacksArguments_bare, lacksArguments, Option.any_map]
  rw [hany, hany, h]

theorem Site.parentIs_congr {s s' : Site}
    (h : s.above.head?.map Enclosing.kind = s'.above.head?.map Enclosing.kind)
    (kinds : List Kind) : s.parentIs kinds = s'.parentIs kinds := by
  have hkind : ∀ e, enclosingIs kinds e =
      (e.map Enclosing.kind).elim (.ok false) (OuterKind.isAmong kinds) := by
    intro e
    cases e <;> rfl
  rw [parentIs, parentIs, hkind, hkind, h]

namespace Throws

variable {s : Site} {made thrown : Bool}

theorem genericExceptionType_eq (hmade : s.parentIs [.objectCreationExpression] = .ok made)
    (hthrown : s.grandparentIs [.throwStatement] = .ok thrown) :
    genericExceptionType s = .reportIf
      (reservedExceptionTypes.contains s.node.name && made && thrown) s.node
      genericExceptionMessage := by
  unfold genericExceptionType
  rw [hmade, hthrown]
  generalize reservedExceptionTypes.contains s.node.name = reserved
  cases reserved <;> cases made <;> rfl

theorem exceptionWithoutContext_eq (hthrown : s.parentIs [.throwStatement] = .ok thrown) :
    exceptionWithoutContext s = .reportIf (thrown && s.node.lacksArguments) s.node
      exceptionWithoutContextMessage := by
  unfold exceptionWithoutContext Node.lacksArguments
  rw [hthrown]
  cases thrown with
  | false => rfl
  | true =>
    cases s.node.childrenOf .argumentList with
    | nil => rfl
    | cons l rest => rfl

end Throws

namespace Document

structure ThrownEmpty (rows : List Row) (c : Nat) : Prop where
  thrown : ∃ p, StandsIn (rows.map Row.parent) c p ∧ kindAt rows p = some .throwStatement
  empty : ∃ l, (childrenOfAt rows .argumentList c).head? = some l ∧
    childrenOfAt rows .argument l = []

structure ThrownReserved (rows : List Row) (i : Nat) : Prop where
  name : nameAt rows i ∈ Throws.reservedExceptionTypes
  thrown : ∃ c p, StandsIn (rows.map Row.parent) i c ∧ StandsIn (rows.map Row.parent) c p ∧
    kindAt rows c = some .objectCreationExpression ∧ kindAt rows p = some .throwStatement

namespace Planted

variable {d : Document} {t : Tree} {i : Nat} {s : Site}

theorem lacksArguments_at (h : Planted d t) (hd : d.Valid) {n : Node} (hn : t.NodeAt i n) :
    n.lacksArguments ↔ ∃ l, (childrenOfAt d.rows .argumentList i).head? = some l ∧
      childrenOfAt d.rows .argument l = [] := by
  apply any_iff_of_rel (rel_head? (h.childrenOf_nodeAt hd hn .argumentList))
  intro l list hl
  have hlength := (h.childrenOf_nodeAt hd hl .argument).length_eq
  rw [List.isEmpty_iff, ← List.length_eq_zero_iff, ← hlength, List.length_eq_zero_iff]

theorem exceptionWithoutContext_at (h : Planted d t) (hd : d.Valid) (hs : t.walk[i]? = some s) :
    t.Decides Throws.exceptionWithoutContextMessage (Throws.exceptionWithoutContext s) (some i)
      (ThrownEmpty d.rows i) := by
  obtain ⟨thrown, hthrown, hparent⟩ := h.parentIs_at hs [.throwStatement]
  have hlacks := h.lacksArguments_at hd ⟨s, hs, rfl⟩
  apply Tree.Decides.reportIf rfl hs (Throws.exceptionWithoutContext_eq hthrown)
  rw [Bool.and_eq_true, hparent, hlacks]
  constructor
  · rintro ⟨⟨p, hp, kind, hkind, hk⟩, hempty⟩
    obtain rfl := List.mem_singleton.mp hkind
    exact ⟨⟨p, hp, hk⟩, hempty⟩
  · rintro ⟨⟨p, hp, hk⟩, hempty⟩
    exact ⟨⟨p, hp, _, List.mem_singleton_self _, hk⟩, hempty⟩

theorem genericExceptionType_at (h : Planted d t) (hd : d.Valid) (hs : t.walk[i]? = some s) :
    t.Decides Throws.genericExceptionMessage (Throws.genericExceptionType s) (some i)
      (ThrownReserved d.rows i) := by
  obtain ⟨made, hmade, hparent⟩ := h.parentIs_at hs [.objectCreationExpression]
  obtain ⟨thrown, hthrown, hgrandparent⟩ := h.grandparentIs_at hs [.throwStatement]
  apply Tree.Decides.reportIf rfl hs (Throws.genericExceptionType_eq hmade hthrown)
  rw [Bool.and_eq_true, Bool.and_eq_true, hparent, hgrandparent, List.contains_iff_mem,
    h.name_at hd hs]
  constructor
  · rintro ⟨⟨hname, c, hc, kind, hkind, hmade⟩, c', p, hc', hp, kind', hkind', hthrown⟩
    obtain rfl := List.mem_singleton.mp hkind
    obtain rfl := List.mem_singleton.mp hkind'
    -- both surroundings are read off the one row around the name
    obtain rfl := Option.some.inj (Option.some.inj (hc'.symm.trans hc))
    exact ⟨hname, c', p, hc, hp, hmade, hthrown⟩
  · rintro ⟨hname, c, p, hc, hp, hmade, hthrown⟩
    refine ⟨⟨hname, c, hc, _, List.mem_singleton_self _, hmade⟩, ?_⟩
    exact ⟨c, p, hc, hp, _, List.mem_singleton_self _, hthrown⟩

end Planted

theorem Seats.mem_reported_creation {d : Document} {t : Tree} {c : Nat} {s : Site}
    (h : d.Seats t .objectCreationExpression c s) :
    ∃ thrown, s.parentIs [.throwStatement] = .ok thrown ∧
      (c ∈ t.reported "SEV009" ↔ thrown ∧ s.node.lacksArguments) := by
  have hrule : Rule.catalogue[8] ∈ Rule.catalogue := List.getElem_mem _
  have hplaced := Tree.placed_of_mem_walk (List.mem_of_getElem? h.visited)
  obtain ⟨thrown, hthrown⟩ := hplaced.parentIs [.throwStatement]
  refine ⟨thrown, hthrown, ?_⟩
  rw [← Bool.and_eq_true]
  exact h.mem_reported_iff hrule rfl rfl (Throws.exceptionWithoutContext_eq hthrown)

/--
A creation that is thrown is reported before the type that it names, and nothing but what stands
around it and the arguments in its first argument list count for that.
-/
theorem thrown_creations_reported (d : Document) (hd : d.Valid) :
    ∃ t sink, d.Yields Registry.builtin t sink ∧ t.remarks.map Prod.snd = sink.diagnostics ∧
      t.Reports sink.diagnostics "SEV009" Throws.exceptionWithoutContextMessage some
        (t.reported "SEV009") ∧
      t.Reports sink.diagnostics "SEV008" Throws.genericExceptionMessage some
        (t.reported "SEV008") ∧
      (∀ c, c ∈ t.reported "SEV009" ↔
        kindAt d.rows c = some .objectCreationExpression ∧ ThrownEmpty d.rows c) ∧
      (∀ i, i ∈ t.reported "SEV008" ↔
        kindAt d.rows i = some .identifierName ∧ ThrownReserved d.rows i) ∧
      (∀ c ∈ t.reported "SEV009", ∀ i ∈ t.reported "SEV008",
        StandsIn (d.rows.map Row.parent) i c → ∀ (a b : Nat) x y,
          t.remarks[a]? = some (c, x) → t.remarks[b]? = some (i, y) → a < b) ∧
      ∀ (c c' : Nat) (s s' : Site) (d' : Document) (t' : Tree),
        d.Seats t .objectCreationExpression c s → d'.Seats t' .objectCreationExpression c' s' →
        s.above.head?.map Enclosing.kind = s'.above.head?.map Enclosing.kind →
        (s.node.bare.childrenOf .argumentList).head?.map (Node.childrenOf · .argument) =
          (s'.node.bare.childrenOf .argumentList).head?.map (Node.childrenOf · .argument) →
        (c ∈ t.reported "SEV009" ↔ c' ∈ t'.reported "SEV009") := by
  obtain ⟨t, h⟩ := hd.planted
  have hcreation : Rule.catalogue[8] ∈ Rule.catalogue := List.getElem_mem _
  have hname : Rule.catalogue[7] ∈ Rule.catalogue := List.getElem_mem _
  obtain ⟨hempty, hemptyAt⟩ := h.reports hcreation rfl (fun _ _ => rfl)
    fun _ _ => h.exceptionWithoutContext_at hd
  obtain ⟨hreserved, hreservedAt⟩ := h.reports hname rfl (fun _ _ => rfl)
    fun _ _ => h.genericExceptionType_at hd
  refine ⟨t, _, h.yields_builtin, t.map_snd_remarks, hempty, hreserved, hemptyAt, hreservedAt,
    ?_, ?_⟩
  · intro c _ i _ hstands a b x y hx hy
    exact Tree.lt_of_getElem?_remarks hx hy (hd.followsPath.lt_of_standsIn hstands)
  · intro c c' s s' d' t' hs hs' habove harguments
    obtain ⟨thrown, hthrown, hmem⟩ := hs.mem_reported_creation
    obtain ⟨thrown', hthrown', hmem'⟩ := hs'.mem_reported_creation
    rw [Site.parentIs_congr habove, hthrown'] at hthrown
    obtain rfl := Except.ok.inj hthrown
    rw [hmem, hmem', Node.lacksArguments_congr harguments]

theorem thrown_creations_reported_second_list :
    let d : Document := ⟨"a.cs", [
      ⟨.block, none, none, none, none, none⟩,
      ⟨.throwStatement, some 0, none, none, none, none⟩,
      ⟨.objectCreationExpression, some 1, none, none, none, none⟩,
      ⟨.argumentList, some 2, some "()", none, none, none⟩,
      ⟨.throwStatement, some 0, none, none, none, none⟩,
      ⟨.objectCreationExpression, some 4, none, none, none, none⟩,
      ⟨.identifierName, some 5, some " Exception ", none, none, none⟩,
      ⟨.argumentList, some 5, none, none, none, none⟩,
      ⟨.objectCreationExpression, some 7, none, none, none, none⟩,
      ⟨.argumentList, some 8, some "()", none, none, none⟩,
      ⟨.argumentList, some 5, none, none, none, none⟩,
      ⟨.argument, some 10, some "1", none, none, none⟩]⟩
    d.Valid ∧ ∃ t sink, d.Yields Registry.builtin t sink ∧
      t.remarks.map Prod.snd = sink.diagnostics ∧
      2 ∈ t.reported "SEV009" ∧ 5 ∈ t.reported "SEV009" ∧ 8 ∉ t.reported "SEV009" ∧
      6 ∈ t.reported "SEV008" ∧ ∀ (a b : Nat) x y,
        t.remarks[a]? = some (5, x) → t.remarks[b]? = some (6, y) → a < b := by
  intro d
  have hd : d.Valid := by
    refine ⟨by simp [d], rfl, ?_⟩
    simp [d]
  have hw : Outlines d.rows (.mk d.rows[0] [
      .mk d.rows[1] [.mk d.rows[2] [.mk d.rows[3] []]],
      .mk d.rows[4] [.mk d.rows[5] [.mk d.rows[6] [], .mk d.rows[7] [
        .mk d.rows[8] [.mk d.rows[9] []]], .mk d.rows[10] [.mk d.rows[11] []]]]]) := ⟨rfl, rfl⟩
  obtain ⟨t, sink, hyields, hremarks, -, -, hempty, hreserved, horder, hsame⟩ :=
    thrown_creations_reported d hd
  have hwalk := walk_of_outlines hd hyields.toTree hw
  have hfirst : 2 ∈ t.reported "SEV009" := by
    apply (hempty 2).mpr
    exact ⟨rfl, ⟨1, rfl, rfl⟩, 3, by decide +kernel, by decide +kernel⟩
  have hsecond : 5 ∈ t.reported "SEV009" := by
    have hat : t.walk[2]? = some _ := (congrArg (·[2]?) hwalk).trans rfl
    have hat' : t.walk[5]? = some _ := (congrArg (·[5]?) hwalk).trans rfl
    apply (hsame 2 5 _ _ d t ⟨hyields.toTree, hat, rfl⟩ ⟨hyields.toTree, hat', rfl⟩ _ _).mp hfirst
    · simp [d]
    · simp [Outline.fillAll, Outline.fill, Outline.growAll, Outline.grow, Node.bare, Node.recast,
        Node.recastAll, Node.childrenOf, Node.children, Node.kind, d]
  have hname : 6 ∈ t.reported "SEV008" := by
    apply (hreserved 6).mpr
    exact ⟨rfl, by decide +kernel, 5, 4, rfl, rfl, rfl, rfl⟩
  refine ⟨hd, t, sink, hyields, hremarks, hfirst, hsecond, ?_, hname, ?_⟩
  · rw [hempty]
    rintro ⟨-, ⟨p, hp, hkind⟩, -⟩
    cases hp
    cases hkind
  · apply horder 5 hsecond 6 hname
    rfl

end Document

end TreeLint
