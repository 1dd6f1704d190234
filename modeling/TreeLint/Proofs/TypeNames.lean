import TreeLint.Proofs.Isolation
import TreeLint.Proofs.Revalidation

/-!
How a parameter and the generic type in it are judged. The type goes by its name, the parameter by
the whole text of its type, and of each the last dotted segment decides.
-/

namespace TreeLint

namespace Text

variable {c : Char}

theorem pieces_of_not_mem {cs : List Char} (h : c ∉ cs) : pieces c cs = [cs] := by
  induction cs with
  | nil => rfl
  | cons x rest ih =>
    rw [List.mem_cons, not_or] at h
    obtain ⟨hx, hrest⟩ := h
    rw [pieces, if_neg (Ne.symm hx), ih hrest]

theorem pieces_append_cons (c : Char) (xs ys : List Char) :
    pieces c (xs ++ c :: ys) = pieces c xs ++ pieces c ys := by
  induction xs with
  | nil => simp [pieces]
  | cons x xs ih =>
    rw [List.cons_append, pieces, pieces, ih]
    split
    · rfl
    · obtain ⟨p, more, hpieces⟩ := List.exists_cons_of_ne_nil (pieces_ne_nil c xs)
      rw [hpieces]
      rfl

def lastPiece (c : Char) (cs : List Char) : List Char :=
  (pieces c cs).getLast (pieces_ne_nil c cs)

theorem lastPiece_of_not_mem {cs : List Char} (h : c ∉ cs) : lastPiece c cs = cs := by
  simp [lastPiece, pieces_of_not_mem h]

theorem lastPiece_append_cons (c : Char) (xs ys : List Char) :
    lastPiece c (xs ++ c :: ys) = lastPiece c ys := by
  simp [lastPiece, pieces_append_cons, List.getLast_append_of_ne_nil, pieces_ne_nil]

theorem exists_last_split {cs : List Char} (h : c ∈ cs) :
    ∃ front back, cs = front ++ c :: back ∧ c ∉ back := by
  obtain ⟨back, front, hsplit, hback⟩ := List.eq_append_cons_of_mem (List.mem_reverse.mpr h)
  refine ⟨front.reverse, back.reverse, ?_, by simpa using hback⟩
  rw [← List.reverse_reverse cs, hsplit]
  simp

theorem lastPiece_append_of_mem (xs : List Char) {ys : List Char} (h : c ∈ ys) :
    lastPiece c (xs ++ ys) = lastPiece c ys := by
  obtain ⟨front, back, rfl⟩ := List.append_of_mem h
  rw [← List.append_assoc, lastPiece_append_cons, lastPiece_append_cons]

theorem lastPiece_append_of_not_mem (xs : List Char) {ys : List Char} (h : c ∉ ys) :
    lastPiece c (xs ++ ys) = lastPiece c xs ++ ys := by
  by_cases hxs : c ∈ xs
  · obtain ⟨front, back, rfl, hback⟩ := exists_last_split hxs
    rw [List.append_assoc, List.cons_append, lastPiece_append_cons, lastPiece_append_cons,
      lastPiece_of_not_mem hback, lastPiece_of_not_mem (by simp [hback, h])]
  · rw [lastPiece_of_not_mem hxs, lastPiece_of_not_mem (by simp [hxs, h])]

theorem prefix_append_cons_iff {start word : List Char} (rest : List Char) (h : c ∉ start) :
    start <+: word ++ c :: rest ↔ start <+: word := by
  constructor
  · intro hstart
    rcases List.prefix_or_prefix_of_prefix hstart (List.prefix_append word _) with hword | hword
    · exact hword
    · obtain ⟨more, rfl⟩ := hword
      rw [List.prefix_append_right_inj] at hstart
      cases more with
      | nil => simp
      | cons x more =>
        obtain ⟨rfl, -⟩ := List.cons_prefix_cons.mp hstart
        simp at h
  · intro hstart
    exact hstart.trans (List.prefix_append word _)

theorem trim_of_ends {s : String} {first last : Char} {middle : List Char}
    (hs : s.toList = first :: middle ++ [last]) (hfirst : ¬ isBlank first) (hlast : ¬ isBlank last) :
    trim s = s := by
  have htrim : trimList isBlank s.toList = s.toList := by
    rw [hs, trimList]
    simp [hfirst, hlast]
  rw [trim, htrim, String.ofList_toList]

end Text

namespace Signatures

def lastSegment (name : String) : String :=
  String.ofList (Text.lastPiece '.' name.toList)

theorem namesCollection_append_cons {c : Char}
    (hc : ∀ start ∈ collectionTypePrefixes, c ∉ start.toList) (word rest : List Char) :
    namesCollection (String.ofList (word ++ c :: rest)) = namesCollection (String.ofList word) := by
  rw [Bool.eq_iff_iff, namesCollection, namesCollection, List.any_eq_true, List.any_eq_true]
  refine exists_congr fun start => and_congr_right fun hstart => ?_
  simp only [Text.startsWith, List.isPrefixOf_iff_prefix, String.toList_ofList]
  exact Text.prefix_append_cons_iff rest (hc start hstart)

theorem namesCollection_generic (name arguments : String) :
    namesCollection (lastSegment (name ++ "<" ++ arguments ++ ">")) =
      namesCollection (lastSegment (if '.' ∈ arguments.toList then arguments else name)) := by
  have htext : (name ++ "<" ++ arguments ++ ">").toList =
      (name.toList ++ '<' :: arguments.toList) ++ ['>'] := by simp
  have hclose : '.' ∉ ['>'] := by decide
  -- the closing bracket ends the last piece, and no prefix has one in it
  rw [lastSegment, htext, Text.lastPiece_append_of_not_mem _ hclose,
    namesCollection_append_cons (by decide)]
  split
  · next hdot =>
    have hsplit : name.toList ++ '<' :: arguments.toList =
        (name.toList ++ ['<']) ++ arguments.toList := by simp
    rw [hsplit, Text.lastPiece_append_of_mem _ hdot]
    rfl
  · next hdot =>
    rw [Text.lastPiece_append_of_not_mem _ (by simpa using hdot),
      namesCollection_append_cons (by decide)]
    rfl

theorem typeName_parameter {n type : Node} (hkind : n.kind = .parameter)
    (htype : n.child? "type" = some type) {name arguments : String}
    (htext : type.text = name ++ "<" ++ arguments ++ ">") (hne : name ≠ "")
    (hplain : ∀ c ∈ name.toList, ¬ Text.isBlank c) : typeName n = .ok (some type.text) := by
  obtain ⟨first, rest, hname⟩ : ∃ first rest, name.toList = first :: rest := by
    apply List.exists_cons_of_ne_nil
    simpa using hne
  have hends : type.text.toList = first :: (rest ++ '<' :: arguments.toList) ++ ['>'] := by
    simp [htext, hname]
  have hfirst : ¬ Text.isBlank first := hplain first (hname ▸ List.mem_cons_self)
  have htrim : type.trimmedText = type.text := Text.trim_of_ends hends hfirst (by decide)
  rw [typeName, hkind]
  simp only [Node.typeText, htype, Option.map_some, htrim]

theorem typeName_generic {n : Node} (hkind : n.kind = .genericName) {name : String}
    (hname : n.identifier = some name) (hne : name ≠ "") : typeName n = .ok (some name) := by
  have hfilter : n.identifier.filter (· ≠ "") = some name := by simp [hname, Option.filter, hne]
  rw [typeName, hkind]
  simp only [genericTypeName, hfilter]
  rfl

theorem liskovSubstitution_of_typeName {s : Site} {name : String}
    (hparent : s.parentIs nonSurfaceTypeParents = .ok false)
    (hname : typeName s.node = .ok (some name)) (hne : name ≠ "") :
    liskovSubstitution s =
      .reportIf (namesCollection (lastSegment name)) s.node liskovMessage := by
  have hlast : lastOf (Text.pieces '.' name.toList) = .ok (Text.lastPiece '.' name.toList) := by
    rw [lastOf, List.getLast?_eq_some_getLast (Text.pieces_ne_nil _ _)]
    rfl
  have hfilter : (some name).filter (· ≠ "") = some name := by simp [Option.filter, hne]
  rw [liskovSubstitution, hparent, hname]
  simp only [bind, Except.bind, hfilter, hlast]
  rfl

end Signatures

namespace Site

theorem mem_preorderOf_self (n : Node) (above : List Enclosing) : ⟨n, above⟩ ∈ preorderOf above n := by
  obtain ⟨serial, kind, label, children⟩ := n
  exact List.mem_cons_self

theorem mem_preorderOf_of_child {n : Node} {above : List Enclosing} {s c : Site}
    (hs : s ∈ preorderOf above n) (hc : c ∈ s.children) : c ∈ preorderOf above n := by
  induction n using Node.by_children generalizing above with
  | mk serial kind label children ih =>
    rw [preorderOf, preordersOf_eq] at hs ⊢
    right
    rcases List.mem_cons.mp hs with rfl | hs
    · obtain ⟨m, hm, rfl⟩ := List.mem_map.mp hc
      exact List.mem_flatMap.mpr ⟨m, hm, mem_preorderOf_self m _⟩
    · obtain ⟨m, hm, hs⟩ := List.mem_flatMap.mp hs
      exact List.mem_flatMap.mpr ⟨m, hm, ih m hm hs⟩

def exposures (t : Tree) (s : Site) : List Diagnostic :=
  (Registry.builtin.outcome t [s]).diagnostics.filter (·.ruleId == "SEV005")

theorem exposures_ne_nil_iff {s : Site} {fires : Bool} (t : Tree)
    (hkind : s.kind ∈ [.parameter, .genericName, .predefinedType])
    (h : Signatures.liskovSubstitution s = .reportIf fires s.node Signatures.liskovMessage) :
    s.exposures t ≠ [] ↔ fires := by
  have hrule : Rule.catalogue[4] ∈ Rule.catalogue := List.getElem_mem _
  have hfilter := Registry.holds_builtin.filter_diagnostics hrule t [s]
  have hsites : [s].filter (·.node.isKind Rule.catalogue[4].kinds.toList) = [s] := by
    rw [List.filter_cons_of_pos, List.filter_nil]
    rw [isKind_toList]
    exact KindSet.has_ofList.mpr hkind
  have hverdict : Duty.verdict t ⟨s, Rule.catalogue[4]⟩ =
      (Signatures.liskovSubstitution s).verdict := rfl
  rw [h] at hverdict
  rw [hsites] at hfilter
  have hexposures : s.exposures t = Rule.catalogue[4].diagnostics t [s] := hfilter
  rw [hexposures, Rule.diagnostics, Rule.duties, List.map_singleton]
  cases fires <;> simp [Duty.diagnostic?, hverdict, Judgement.reportIf, Judgement.verdict]

end Site

theorem Registry.exposures_of_outcome (t : Tree) (sites : List Site) :
    (builtin.outcome t sites).diagnostics.filter (·.ruleId == "SEV005") =
      sites.flatMap (Site.exposures t) := by
  have hsites : sites = sites.flatMap fun s => [s] := (List.flatMap_singleton' sites).symm
  conv_lhs => rw [hsites, outcome_flatMap]
  exact List.filter_flatMap

namespace Tree

open Signatures

/--
A parameter and the generic type in its type slot: both are judged by the name, as long as there is no
dot among the arguments. With a dot there the parameter is judged by the last argument instead.
-/
theorem exposures_alike_iff {t : Tree} (ht : t.Accepted) (outside : List Enclosing) {s : Site}
    (hs : s ∈ (t.site outside).walk) (hkind : s.kind = .parameter)
    (hparent : s.parentIs nonSurfaceTypeParents = .ok false)
    {type : Node} (htype : s.node.child? "type" = some type) (hgeneric : type.kind = .genericName)
    {name arguments : String} (hname : type.identifier = some name)
    (htext : type.text = name ++ "<" ++ arguments ++ ">") (hne : name ≠ "")
    (hplain : ∀ c ∈ name.toList, ¬ Text.isBlank c) :
    (∃ ds, analyze .builtin (.tree t outside) none = .ok (ds, none) ∧
      ds.filter (·.ruleId == "SEV005") =
        (t.site outside).walk.flatMap (Site.exposures t)) ∧
    ∃ g ∈ (t.site outside).walk, g ∈ s.children ∧ g.node = type ∧
      (g.exposures t ≠ [] ↔ namesCollection (lastSegment name)) ∧
      (s.exposures t ≠ [] ↔
        namesCollection (lastSegment (if '.' ∈ arguments.toList then arguments else name))) ∧
      ((s.exposures t ≠ [] ↔ g.exposures t ≠ []) ↔
        '.' ∉ arguments.toList ∨
          namesCollection (lastSegment arguments) = namesCollection (lastSegment name)) := by
  have hprepare : (Input.tree t outside).prepare = .ok ⟨t, outside⟩ := rfl
  have hanalyze := Registry.fromCatalogue_builtin.analyze_eq hprepare ht
  rw [Site.walk_eq_preorder] at hs ⊢
  refine ⟨⟨_, hanalyze, Registry.exposures_of_outcome t _⟩, ?_⟩
  have hchild : (⟨type, s.inside⟩ : Site) ∈ s.children :=
    List.mem_map_of_mem (List.mem_of_find?_eq_some htype)
  have hown := liskovSubstitution_of_typeName (s := ⟨type, s.inside⟩)
    (by simp [Site.parentIs, Site.inside, Site.enclosingIs, hkind, nonSurfaceTypeParents])
    (typeName_generic hgeneric hname hne) hne
  have htextne : type.text ≠ "" := by simp [htext]
  have hwhole := liskovSubstitution_of_typeName hparent
    (typeName_parameter hkind htype htext hne hplain) htextne
  rw [htext, namesCollection_generic] at hwhole
  have hinner := Site.exposures_ne_nil_iff t (by simp [Site.kind, hgeneric]) hown
  have houter := Site.exposures_ne_nil_iff t (by simp [hkind]) hwhole
  refine ⟨_, Site.mem_preorderOf_of_child hs hchild, hchild, rfl, hinner, houter, ?_⟩
  rw [hinner, houter]
  split
  · next hdot =>
    rw [← Bool.eq_iff_iff]
    simp [hdot]
  · next hdot => simp [hdot]

theorem mem_walk_of_child {t : Tree} {s : Site} (hs : s ∈ (t.site []).children) : s ∈ t.walk := by
  rw [Tree.walk, Site.walk_eq_preorder]
  exact Site.mem_preorderOf_of_child (Site.mem_preorderOf_self _ _) hs

theorem accepted_parameterList (type parameter list : Label)
    (hspans : ∀ l ∈ [list, parameter, type], l.span.start ≤ l.span.stop) :
    Accepted ⟨.mk 2 .parameterList list [.mk 1 .parameter parameter [.mk 0 .genericName type []]],
      "a.cs", 3⟩ := by
  have hgrown := (((Forest.Grown.refl .empty).construct .genericName type).construct
    .parameter parameter).construct .parameterList list
  refine ⟨_, _, hgrown.accept ?_ "a.cs"⟩
  intro m hm
  exact hspans m.label (List.mem_map_of_mem hm)

theorem exposures_differ :
    let label (text : String) (identifier role : Option String) : Label :=
      ⟨.ofRange 0 18, text, identifier, role⟩
    let type : Node := .mk 0 .genericName
      (label ("List" ++ "<" ++ "System.Int32" ++ ">") (some "List") (some "type")) []
    let parameter : Node := .mk 1 .parameter (label "xs" (some "xs") none) [type]
    let t : Tree := ⟨.mk 2 .parameterList (label "(xs)" none none) [parameter], "a.cs", 3⟩
    let s : Site := ⟨parameter, [⟨2, .known .parameterList⟩]⟩
    let g : Site := ⟨type, s.inside⟩
    t.Accepted ∧ s ∈ t.walk ∧ s.parentIs nonSurfaceTypeParents = .ok false ∧
      s.node.child? "type" = some type ∧ g ∈ s.children ∧
      namesCollection (lastSegment "List") ∧ g.exposures t ≠ [] ∧ s.exposures t = [] := by
  intro label type parameter t s g
  have ht : t.Accepted := accepted_parameterList _ _ _ (by decide)
  exact ⟨ht, mem_walk_of_child List.mem_cons_self, rfl, rfl, List.mem_cons_self, by decide,
    by decide +kernel, by decide +kernel⟩

theorem exposures_alike_iff_nested :
    let label (text : String) (identifier role : Option String) : Label :=
      ⟨.ofRange 0 34, text, identifier, role⟩
    let type : Node := .mk 0 .genericName
      (label ("Generic.List" ++ "<" ++ "IDictionary<K, V>" ++ ">") (some "Generic.List")
        (some "type")) []
    let parameter : Node := .mk 1 .parameter (label "xs" (some "xs") none) [type]
    let t : Tree := ⟨.mk 2 .parameterList (label "(xs)" none none) [parameter], "a.cs", 3⟩
    let s : Site := ⟨parameter, [⟨2, .known .parameterList⟩]⟩
    t.Accepted ∧ s ∈ t.walk ∧ s.parentIs nonSurfaceTypeParents = .ok false ∧
      ∃ g ∈ s.children, g.node = type ∧ g.exposures t ≠ [] ∧ s.exposures t ≠ [] := by
  intro label type parameter t s
  have ht : t.Accepted := accepted_parameterList _ _ _ (by decide)
  have hs : s ∈ t.walk := mem_walk_of_child List.mem_cons_self
  have hparent : s.parentIs nonSurfaceTypeParents = .ok false := rfl
  have htype : s.node.child? "type" = some type := rfl
  have hplain : "Generic.List".toList.all fun c => !Text.isBlank c := by decide
  obtain ⟨-, g, -, hchild, hnode, hinner, houter, -⟩ :=
    exposures_alike_iff ht [] hs rfl hparent htype rfl rfl rfl (by decide)
      (by simpa using List.all_eq_true.mp hplain)
  exact ⟨ht, hs, hparent, g, hchild, hnode, hinner.mpr (by decide), houter.mpr (by decide)⟩

end Tree

end TreeLint
