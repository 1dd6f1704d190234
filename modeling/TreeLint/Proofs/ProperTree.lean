import Mathlib.Data.Set.Card
import Mathlib.Logic.Relation
import TreeLint.Proofs.Acceptance
import TreeLint.Proofs.Histories
import TreeLint.Proofs.RoundTrip
import TreeLint.Proofs.Writability
import TreeLint.Report

/-!
Which roots are accepted: those of proper trees. Each link is checked against the container that it
was met in, so two places of one node are told apart by its link or by the list of its siblings.
-/

namespace TreeLint

open Relation (ReflTransGen)

namespace Node

@[elab_as_elim]
theorem by_children {P : Node → Prop}
    (mk : ∀ serial kind label children, (∀ c ∈ children, P c) → P (mk serial kind label children))
    (n : Node) : P n := by
  cases n with
  | mk serial kind label children =>
    apply mk
    intro c hc
    exact by_children mk c

theorem mem_nodes_of_child {n m c : Node} (hc : c ∈ n.children) (hm : m ∈ c.nodes) :
    m ∈ n.nodes := by
  obtain ⟨serial, kind, label, children⟩ := n
  rw [nodes_mk]
  exact List.mem_cons_of_mem _ (List.mem_flatMap.mpr ⟨c, hc, hm⟩)

theorem mem_nodes_cases {n m : Node} (hm : m ∈ n.nodes) : m = n ∨ ∃ c ∈ n.children, m ∈ c.nodes := by
  obtain ⟨serial, kind, label, children⟩ := n
  rw [nodes_mk] at hm
  rcases List.mem_cons.mp hm with rfl | hm
  · exact .inl rfl
  · exact .inr (List.mem_flatMap.mp hm)

theorem sublist_flatMap_nodes (ns : List Node) : ns.Sublist (ns.flatMap nodes) := by
  induction ns with
  | nil => exact .slnil
  | cons n rest ih =>
    obtain ⟨serial, kind, label, children⟩ := n
    rw [Forest.flatMap_nodes_cons, List.flatMap_append]
    exact (ih.trans (List.sublist_append_right _ _)).cons_cons _

theorem children_draft (n : Node) : n.draft.children = n.children.map draft := by
  obtain ⟨serial, kind, label, children⟩ := n
  rw [draft, drafts_eq_map]
  rfl

theorem draft_injective : Function.Injective draft := by
  intro n m h
  have hsettle := congrArg Draft.settle h
  rw [settle_draft, settle_draft] at hsettle
  exact Except.ok.inj hsettle

theorem nodup_map_draft {ns : List Node} (h : (ns.map serial).Nodup) : (ns.map draft).Nodup := by
  have hserial : Draft.serial? ∘ draft = some ∘ serial := by
    funext n
    exact serial?_draft n
  apply List.Nodup.of_map Draft.serial?
  rw [List.map_map, hserial, ← List.map_map]
  exact h.map (Option.some_injective _)

theorem within_draft_iff {n : Node} {d : Draft} :
    n.draft.Within d ↔ ∃ m ∈ n.nodes, d = m.draft := by
  constructor
  · intro h
    induction h with
    | root => exact ⟨n, mem_nodes_self n, rfl⟩
    | child h hchild ih =>
      obtain ⟨m, hm, rfl⟩ := ih
      rw [children_draft] at hchild
      obtain ⟨c, hc, rfl⟩ := List.mem_map.mp hchild
      exact ⟨c, children_mem_nodes n hm hc, rfl⟩
  · rintro ⟨m, hm, rfl⟩
    revert hm
    induction n using by_children with
    | mk serial kind label children ih =>
      intro hm
      rcases mem_nodes_cases hm with rfl | ⟨c, hc, hm⟩
      · exact .root
      · refine .of_child ?_ (ih c hc hm)
        rw [children_draft]
        exact List.mem_map_of_mem hc

end Node

@[elab_as_elim]
theorem Draft.by_children {P : Draft → Prop} (foreign : ∀ mark v, P (foreign mark v))
    (node : ∀ serial kind label children,
      (∀ c ∈ children, P c) → P (node serial kind label children)) (d : Draft) : P d := by
  cases d with
  | foreign mark v => exact foreign mark v
  | node serial kind label children =>
    apply node
    intro c hc
    exact by_children foreign node c

theorem Draft.exists_map_draft {ds : List Draft} (h : ∀ d ∈ ds, ∃ n : Node, d = n.draft) :
    ∃ ns : List Node, ds = ns.map Node.draft := by
  induction ds with
  | nil => exact ⟨[], rfl⟩
  | cons d rest ih =>
    rw [List.forall_mem_cons] at h
    obtain ⟨⟨n, rfl⟩, hrest⟩ := h
    obtain ⟨ns, rfl⟩ := ih hrest
    exact ⟨n :: ns, rfl⟩

namespace Forest

open Draft

/-- A root with no parent, and below it nodes of known kinds, each in one place and linked to it. -/
structure Proper (f : Forest) (root : Draft) : Prop where
  isNode : root.isNode
  parent_eq_none : f.parent? root = none
  known : ∀ serial kind label children, root.Within (.node serial kind label children) →
    ∃ k, kind = .known k
  spans : ∀ serial kind label children, root.Within (.node serial kind label children) →
    ¬ label.span.stop < label.span.start
  nodes : ∀ d, root.Within d → ∀ c ∈ d.children, c.isNode
  once : ∀ d, root.Within d → d.children.Nodup
  single : ∀ d e, root.Within d → root.Within e → ∀ c ∈ d.children, c ∈ e.children → d = e
  linked : ∀ d, root.Within d → ∀ c ∈ d.children, f.parent? c = some d

theorem Proper.exists_draft {f : Forest} {root : Draft} (h : f.Proper root) :
    ∃ n : Node, root = n.draft := by
  have hall : ∀ d, root.Within d → d.isNode → ∃ n : Node, d = n.draft := by
    intro d
    induction d using Draft.by_children with
    | foreign mark v => exact fun _ hnode => absurd hnode (by simp [Draft.isNode, serial?])
    | node serial kind label children ih =>
      intro hd _
      obtain ⟨k, rfl⟩ := h.known _ _ _ _ hd
      obtain ⟨ns, rfl⟩ := exists_map_draft fun c hc => ih c hc (hd.child hc) (h.nodes _ hd c hc)
      exact ⟨.mk serial k label ns, by rw [Node.draft, Node.drafts_eq_map]⟩
  exact hall root .root h.isNode

def Up (f : Forest) (s r : Nat) : Prop :=
  (f.parentOf? s).bind Draft.serial? = some r

theorem rightUnique_up (f : Forest) : Relator.RightUnique f.Up := by
  intro s r r' h h'
  exact Option.some.inj (h.symm.trans h')

namespace Sound

variable {f : Forest} {held : List Draft}

theorem lt_of_up (h : f.Sound held) {s r : Nat} (hup : f.Up s r) : s < r := by
  obtain ⟨p, hp, hr⟩ := Option.bind_eq_some_iff.mp hup
  exact h.serial_lt_parent hp hr

theorem le_of_ups (h : f.Sound held) {s r : Nat} (hups : ReflTransGen f.Up s r) : s ≤ r := by
  induction hups with
  | refl => exact Nat.le_refl s
  | tail _ hup ih => exact Nat.le_trans ih (Nat.le_of_lt (h.lt_of_up hup))

end Sound

theorem ups_of_mem_nodes {f : Forest} {n : Node}
    (hlinks : ∀ m ∈ n.nodes, ∀ c ∈ m.children, f.Up c.serial m.serial) :
    ∀ m ∈ n.nodes, ReflTransGen f.Up m.serial n.serial := by
  induction n using Node.by_children with
  | mk serial kind label children ih =>
    intro m hm
    rcases Node.mem_nodes_cases hm with rfl | ⟨c, hc, hm⟩
    · exact .refl
    · have hbelow : ∀ m ∈ c.nodes, ∀ c' ∈ m.children, f.Up c'.serial m.serial :=
        fun m hm => hlinks m (Node.mem_nodes_of_child hc hm)
      exact (ih c hc hbelow m hm).tail (hlinks _ (Node.mem_nodes_self _) c hc)

theorem Sound.eq_of_ups {f : Forest} {held : List Draft} (h : f.Sound held) {s a b r : Nat}
    (ha : ReflTransGen f.Up s a) (hb : ReflTransGen f.Up s b) (har : f.Up a r) (hbr : f.Up b r) :
    a = b := by
  -- The ways up from the node below both agree as far as the shorter one goes.
  have hahead : ∀ {a b}, f.Up a r → f.Up b r → ReflTransGen f.Up a b → a = b := by
    intro a b har hbr hab
    rcases hab.cases_head with he | ⟨c, hac, hcb⟩
    · exact he
    · obtain rfl := rightUnique_up f har hac
      have := h.le_of_ups hcb
      have := h.lt_of_up hbr
      omega
  rcases ha.total_of_right_unique (rightUnique_up f) hb with hab | hba
  · exact hahead har hbr hab
  · exact (hahead hbr har hba).symm

theorem Sound.nodup_nodes {f : Forest} {held : List Draft} (h : f.Sound held) {n : Node}
    (hlinks : ∀ m ∈ n.nodes, ∀ c ∈ m.children, f.Up c.serial m.serial)
    (honce : ∀ m ∈ n.nodes, (m.children.map Node.serial).Nodup) :
    (n.nodes.map Node.serial).Nodup := by
  induction n using Node.by_children with
  | mk serial kind label children ih =>
    have hown : ∀ c ∈ children, f.Up c.serial serial := hlinks _ (Node.mem_nodes_self _)
    have hups : ∀ c ∈ children, ∀ m ∈ c.nodes, ReflTransGen f.Up m.serial c.serial :=
      fun c hc => ups_of_mem_nodes fun m hm => hlinks m (Node.mem_nodes_of_child hc hm)
    rw [Node.nodes_mk, List.map_cons, List.nodup_cons, List.map_flatMap, List.nodup_flatMap]
    refine ⟨?_, ?_, ?_⟩
    · -- What is below the node is older than the node itself.
      intro hmem
      obtain ⟨c, hc, hmem⟩ := List.mem_flatMap.mp hmem
      obtain ⟨m, hm, hserial⟩ := List.mem_map.mp hmem
      have hle := h.le_of_ups (hups c hc m hm)
      rw [hserial] at hle
      exact Nat.lt_irrefl serial (Nat.lt_of_le_of_lt hle (h.lt_of_up (hown c hc)))
    · intro c hc
      exact ih c hc (fun m hm => hlinks m (Node.mem_nodes_of_child hc hm))
        (fun m hm => honce m (Node.mem_nodes_of_child hc hm))
    · -- The links would lead from a node below two children to both of them.
      have hdistinct := List.pairwise_map.mp (honce _ (Node.mem_nodes_self _))
      refine hdistinct.imp_of_mem ?_
      intro a b ha hb hne
      apply List.disjoint_left.mpr
      intro s hsa hsb
      obtain ⟨m, hm, rfl⟩ := List.mem_map.mp hsa
      obtain ⟨m', hm', hserial⟩ := List.mem_map.mp hsb
      have hup := hups b hb m' hm'
      rw [hserial] at hup
      exact hne (h.eq_of_ups (hups a ha m hm) hup (hown a ha) (hown b hb))

variable {f : Forest} {held : List Draft} {root : Draft}

theorem up_of_parent? {n m : Node} (h : f.parent? n.draft = some m.draft) :
    f.Up n.serial m.serial := by
  rw [parent?, Node.serial?_draft, Option.bind_some] at h
  rw [Up, h]
  exact Node.serial?_draft m

theorem Sound.parent?_of_up (h : f.Sound held) {n m : Node} (hm : Live held m.draft)
    (hup : f.Up n.serial m.serial) : f.parent? n.draft = some m.draft := by
  obtain ⟨p, hp, hserial⟩ := Option.bind_eq_some_iff.mp hup
  rw [parent?, Node.serial?_draft, Option.bind_some, hp,
    h.eq_of_serial? (h.linked _ p hp).1 hm hserial (Node.serial?_draft m)]

theorem Linked.nodup_children {n m : Node} (h : f.Linked [n]) (hm : m ∈ n.nodes) :
    (m.children.map Node.serial).Nodup := by
  have hnodup : (n.nodes.map Node.serial).Nodup := by simpa using h.nodup
  clear h
  induction n using Node.by_children with
  | mk serial kind label children ih =>
    rw [Node.nodes_mk, List.map_cons, List.nodup_cons] at hnodup
    rcases Node.mem_nodes_cases hm with rfl | ⟨c, hc, hm⟩
    · exact ((Node.sublist_flatMap_nodes children).map Node.serial).nodup hnodup.2
    · refine ih c hc hm (hnodup.2.sublist (List.Sublist.map _ ?_))
      exact List.sublist_flatten_of_mem (List.mem_map_of_mem hc)

theorem proper_of_linked (h : f.Sound held) {n : Node} (hlive : Live held n.draft)
    (hnone : f.parent? n.draft = none) (hlinked : f.Linked [n]) : f.Proper n.draft := by
  have hspans := hlinked.spans
  have hlinks := hlinked.links
  simp only [List.flatMap_singleton] at hspans hlinks
  have hparent : ∀ d, n.draft.Within d → ∀ c ∈ d.children, f.parent? c = some d := by
    intro d hd c hc
    have hd' := hlive.within hd
    obtain ⟨m, hm, rfl⟩ := Node.within_draft_iff.mp hd
    rw [Node.children_draft] at hc
    obtain ⟨b, hb, rfl⟩ := List.mem_map.mp hc
    exact h.parent?_of_up hd' (hlinks m hm b hb)
  refine ⟨?_, hnone, ?_, ?_, ?_, ?_, ?_, hparent⟩
  · exact isNode_of_serial? (Node.serial?_draft n)
  · intro serial kind label children hd
    obtain ⟨⟨own, ownKind, ownLabel, parts⟩, -, hm⟩ := Node.within_draft_iff.mp hd
    rw [Node.draft] at hm
    exact ⟨ownKind, (Draft.node.inj hm).2.1⟩
  · intro serial kind label children hd
    obtain ⟨⟨own, ownKind, ownLabel, parts⟩, hmem, hm⟩ := Node.within_draft_iff.mp hd
    rw [Node.draft] at hm
    rw [(Draft.node.inj hm).2.2.1]
    exact Int.not_lt.mpr (hspans _ hmem)
  · intro d hd c hc
    obtain ⟨m, -, rfl⟩ := Node.within_draft_iff.mp (hd.child hc)
    exact isNode_of_serial? (Node.serial?_draft m)
  · intro d hd
    obtain ⟨m, hm, rfl⟩ := Node.within_draft_iff.mp hd
    rw [Node.children_draft]
    exact Node.nodup_map_draft (hlinked.nodup_children hm)
  · intro d e hd he c hc hc'
    exact Option.some.inj ((hparent d hd c hc).symm.trans (hparent e he c hc'))

theorem parent?_of_mem_nodes {n : Node}
    (hlinked : ∀ d, n.draft.Within d → ∀ c ∈ d.children, f.parent? c = some d) :
    ∀ m ∈ n.nodes, ∀ c ∈ m.children, f.parent? c.draft = some m.draft := by
  intro m hm c hc
  apply hlinked _ (Node.within_draft_iff.mpr ⟨m, hm, rfl⟩)
  rw [Node.children_draft]
  exact List.mem_map_of_mem hc

theorem Proper.accept {n : Node} (h : f.Sound held) (hlive : Live held n.draft)
    (hp : f.Proper n.draft) (path : String) :
    f.accept n.draft path = .ok ⟨n, path, n.nodes.length⟩ := by
  have hwithin : ∀ m ∈ n.nodes, n.draft.Within m.draft :=
    fun m hm => Node.within_draft_iff.mpr ⟨m, hm, rfl⟩
  have hlinks := parent?_of_mem_nodes hp.linked
  have honce : ∀ m ∈ n.nodes, (m.children.map Node.serial).Nodup := by
    intro m hm
    have hchildren := hp.once _ (hwithin m hm)
    rw [Node.children_draft] at hchildren
    refine List.Nodup.map_on ?_ hchildren.of_map
    intro a ha b hb hserial
    have hbelow : ∀ c ∈ m.children, Live held c.draft :=
      fun c hc => hlive.within (hwithin c (Node.children_mem_nodes n hm hc))
    apply Node.draft_injective
    apply h.eq_of_serial? (hbelow a ha) (hbelow b hb) (Node.serial?_draft a)
    rw [hserial]
    exact Node.serial?_draft b
  have hnodup := h.nodup_nodes (fun m hm c hc => up_of_parent? (hlinks m hm c hc)) honce
  refine accept_draft hp.parent_eq_none ?_ ?_ hnodup path
  · rintro ⟨serial, kind, label, children⟩ hm
    have hspan := hp.spans _ _ _ _ (hwithin _ hm)
    exact Int.not_lt.mp hspan
  · intro m hm c hc
    have hlink := hlinks m hm c hc
    rwa [parent?, Node.serial?_draft, Option.bind_some] at hlink

theorem eq_of_accept {path : String} {t : Tree} (h : f.accept root path = .ok t) :
    root = t.root.draft ∧ t = ⟨t.root, path, t.root.nodes.length⟩ := by
  obtain ⟨-, hcount, -⟩ := linked_of_accept h
  obtain ⟨-, seen, -, n, hn, rfl⟩ := accept_eq_ok h
  refine ⟨Draft.eq_draft_of_settle root hn, ?_⟩
  rw [← hcount]

theorem accept_ok_iff (h : f.Sound held) (hroot : Offers held root) (path : String) :
    (∃ t, f.accept root path = .ok t) ↔ f.Proper root := by
  have hlive : root.isNode → Live held root := fun hnode => hroot.resolve_right (by simpa using hnode)
  constructor
  · rintro ⟨t, ht⟩
    obtain ⟨hnone, -⟩ := accept_eq_ok ht
    obtain ⟨rfl, -⟩ := eq_of_accept ht
    have hnode := isNode_of_serial? (Node.serial?_draft t.root)
    exact proper_of_linked h (hlive hnode) hnone (linked_of_accept ht).2.2
  · intro hp
    obtain ⟨n, rfl⟩ := hp.exists_draft
    exact ⟨_, hp.accept h (hlive hp.isNode) path⟩

end Forest

namespace Workspace

open Forest

variable {w w' : Workspace} {name path : String} {root : Draft} {t : Tree}

theorem plantTree_of_accept (h : w.forest.accept root path = .ok t) :
    w.plantTree name root path = .ok (t, w.hold name (.tree root t)) := by
  rw [plantTree, h]

/-- A root of no known kind is refused without a message where that kind cannot be written. -/
theorem plantTree_of_unwritable {serial : Nat} {v : Value} {label : Label} {children : List Draft}
    {n : Int} (hparent : w.forest.parentOf? serial = none) (hn : n ∈ v.integers)
    (hlong : 10 ^ Decimal.mostDigits ≤ n.natAbs) :
    w.plantTree name (.node serial (.raw v) label children) path =
      .error (.ended .unwritable) := by
  have hliteral : v.literal? = none := by
    rw [← Option.not_isSome_iff_eq_none, v.isSome_literal?_iff]
    intro hall
    exact absurd ((Decimal.isWritable_iff n).mp (hall n hn)) (by omega)
  have haccept : w.forest.accept (.node serial (.raw v) label children) path =
      .error (.unknownKind v) := by
    simp [accept, inspect, parent?, Draft.serial?, hparent, bind, Except.bind]
  simp [plantTree, haccept, Stop.ofMalformed, Malformed.message?, hliteral, Denial.ofStop]

end Workspace

end TreeLint
