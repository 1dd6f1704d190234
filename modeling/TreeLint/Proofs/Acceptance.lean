import TreeLint.Proofs.Linking

namespace TreeLint.Forest

open Node

theorem checkChildren_drafts (f : Forest) (container : Draft) (ns : List Node)
    (h : ∀ n ∈ ns, (f.parentOf? n.serial).any container.isSame) :
    f.checkChildren container (ns.map draft) = .ok () := by
  induction ns with
  | nil => rfl
  | cons n rest ih =>
    have hn : (f.parent? n.draft).any container.isSame = true := by
      simpa [parent?, serial?_draft] using h n (by simp)
    obtain ⟨serial, kind, label, children⟩ := n
    rw [List.map_cons]
    rw [draft] at hn ⊢
    rw [checkChildren, if_pos hn]
    · exact ih fun m hm => h m (by simp [hm])
    · simp

theorem flatMap_nodes_cons (serial : Nat) (kind : Kind) (label : Label) (children rest : List Node) :
    (Node.mk serial kind label children :: rest).flatMap nodes =
      .mk serial kind label children :: (children ++ rest).flatMap nodes := by
  rw [List.flatMap_cons, nodes_mk, List.cons_append, List.flatMap_append]

theorem perm_flatMap_nodes (children rest : List Node) :
    ((children.reverse ++ rest).flatMap nodes).Perm ((children ++ rest).flatMap nodes) :=
  ((List.reverse_perm children).append_right rest).flatMap_right _

theorem inspect_drafts (f : Forest) (seen : List Nat) (ns : List Node)
    (hspans : ∀ n ∈ ns.flatMap nodes, n.span.start ≤ n.span.stop)
    (hlinks : ∀ n ∈ ns.flatMap nodes, ∀ c ∈ n.children, f.parentOf? c.serial = some n.draft)
    (hnodup : ((ns.flatMap nodes).map serial).Nodup)
    (hseen : ∀ n ∈ ns.flatMap nodes, n.serial ∉ seen) :
    ∃ met, f.inspect seen (ns.map draft) = .ok met ∧
      met.length = seen.length + (ns.flatMap nodes).length := by
  -- The children go on the stack in reverse, so neither the list nor one node of it is the measure.
  induction hm : (ns.flatMap nodes).length using Nat.strongRecOn generalizing seen ns with
  | _ m ih =>
  match ns with
  | [] =>
    refine ⟨seen, by simp [inspect], ?_⟩
    obtain rfl : 0 = m := hm
    rfl
  | .mk serial kind label children :: rest =>
    let below := children.reverse ++ rest
    have hperm : (below.flatMap nodes).Perm ((children ++ rest).flatMap nodes) :=
      perm_flatMap_nodes children rest
    have hnodes := flatMap_nodes_cons serial kind label children rest
    rw [hnodes] at hspans hlinks hnodup hseen hm
    rw [List.map_cons, List.nodup_cons] at hnodup
    have hself : serial ∉ seen := hseen (.mk serial kind label children) (by simp)
    have hspan : ¬ label.span.stop < label.span.start := by
      have : label.span.start ≤ label.span.stop := hspans (.mk serial kind label children) (by simp)
      omega
    have hchildren : f.checkChildren (Node.mk serial kind label children).draft
        (children.map draft) = .ok () := by
      apply checkChildren_drafts
      intro c hc
      rw [hlinks (.mk serial kind label children) (by simp) c hc, Option.any_some]
      exact isSame_draft _
    have hbelow : ∀ {n}, n ∈ below.flatMap nodes → n ∈ (children ++ rest).flatMap nodes :=
      fun hn => hperm.mem_iff.mp hn
    obtain ⟨met, hmet, hlen⟩ := ih (below.flatMap nodes).length
      (by rw [hperm.length_eq, ← hm, List.length_cons]; omega)
      (serial :: seen) below
      (fun n hn => hspans n (List.mem_cons_of_mem _ (hbelow hn)))
      (fun n hn => hlinks n (List.mem_cons_of_mem _ (hbelow hn)))
      ((hperm.map Node.serial).nodup_iff.mpr hnodup.2)
      (by
        intro n hn hin
        rcases List.mem_cons.mp hin with he | hin
        · exact hnodup.1 (List.mem_map.mpr ⟨n, hbelow hn, he⟩)
        · exact hseen n (List.mem_cons_of_mem _ (hbelow hn)) hin)
      rfl
    refine ⟨met, ?_, ?_⟩
    · rw [draft, drafts_eq_map] at hchildren
      rw [List.map_cons, draft, drafts_eq_map, inspect, if_neg (by simpa using hself),
        if_neg hspan, hchildren]
      simpa [below] using hmet
    · rw [hlen, hperm.length_eq, ← hm, List.length_cons, List.length_cons]
      omega

theorem accept_draft {f : Forest} {n : Node} (hparent : f.parent? n.draft = none)
    (hspans : ∀ m ∈ n.nodes, m.span.start ≤ m.span.stop)
    (hlinks : ∀ m ∈ n.nodes, ∀ c ∈ m.children, f.parentOf? c.serial = some m.draft)
    (hnodup : (n.nodes.map serial).Nodup) (path : String) :
    f.accept n.draft path = .ok ⟨n, path, n.nodes.length⟩ := by
  have hnodes : [n].flatMap nodes = n.nodes := by simp
  rw [← hnodes] at hspans hlinks hnodup
  obtain ⟨met, hmet, hlen⟩ := inspect_drafts f [] [n] hspans hlinks hnodup (by simp)
  rw [hnodes, List.length_nil, Nat.zero_add] at hlen
  have hinspect : f.inspect [] [n.draft] = .ok met := hmet
  simp only [Forest.accept, hparent, hinspect, settle_draft n, Option.isSome_none,
    Bool.false_eq_true, if_false, ← hlen]
  rfl

theorem Grown.accept {f g : Forest} {n : Node} (hg : Grown f g [n])
    (hspans : ∀ m ∈ n.nodes, m.span.start ≤ m.span.stop) (path : String) :
    g.accept n.draft path = .ok ⟨n, path, n.nodes.length⟩ := by
  have hnodes : [n].flatMap nodes = n.nodes := by simp
  have hlinks := hg.links
  have hnodup := hg.nodup
  rw [hnodes] at hlinks hnodup
  refine accept_draft ?_ hspans hlinks hnodup path
  rw [parent?, serial?_draft]
  exact hg.roots n (by simp)

theorem serial?_of_any_isSame {n : Node} {link : Option Draft}
    (h : link.any n.draft.isSame = true) : link.bind Draft.serial? = some n.serial := by
  obtain ⟨serial, kind, label, children⟩ := n
  match link with
  | none => simp at h
  | some (.foreign mark v) => simp [draft, Draft.isSame] at h
  | some (.node other _ _ _) =>
    obtain rfl : serial = other := by simpa [draft, Draft.isSame] using h
    rfl

theorem links_of_checkChildren {f : Forest} {container : Node} {ns : List Node}
    (h : f.checkChildren container.draft (ns.map draft) = .ok ()) :
    ∀ n ∈ ns, (f.parentOf? n.serial).bind Draft.serial? = some container.serial := by
  induction ns with
  | nil => simp
  | cons n rest ih =>
    obtain ⟨serial, kind, label, children⟩ := n
    rw [List.map_cons, Node.draft.eq_def (.mk serial kind label children)] at h
    simp only [checkChildren] at h
    split at h
    · next hlink =>
      intro m hm
      rcases List.mem_cons.mp hm with rfl | hm
      · exact serial?_of_any_isSame hlink
      · exact ih h m hm
    · simp at h

structure Linked (f : Forest) (ns : List Node) : Prop where
  nodup : ((ns.flatMap nodes).map serial).Nodup
  spans : ∀ n ∈ ns.flatMap nodes, n.span.start ≤ n.span.stop
  links : ∀ n ∈ ns.flatMap nodes, ∀ c ∈ n.children,
    (f.parentOf? c.serial).bind Draft.serial? = some n.serial

theorem linked_of_inspect {f : Forest} {seen met : List Nat} {stack : List Draft}
    (h : f.inspect seen stack = .ok met) :
    ∀ ns : List Node, stack = ns.map draft →
      f.Linked ns ∧ ∀ n ∈ ns.flatMap nodes, n.serial ∉ seen := by
  fun_induction inspect f seen stack with
  | case1 seen =>
    intro ns hns
    obtain rfl : ns = [] := by simpa using hns.symm
    exact ⟨⟨by simp, by simp, by simp⟩, by simp⟩
  | case7 seen serial label children rest hnew kind hspan _ d hchildren ih =>
    rw [List.unattach_reverse, List.unattach_attach] at ih
    intro ns hns
    obtain ⟨n, others, rfl, hn, rfl⟩ := List.map_eq_cons_iff.mp hns.symm
    obtain ⟨own, ownKind, ownLabel, parts⟩ := n
    rw [draft, drafts_eq_map, Draft.node.injEq] at hn
    obtain ⟨rfl, hkind, rfl, rfl⟩ := hn
    obtain rfl := KindTag.known.inj hkind
    obtain ⟨hlinked, hunseen⟩ := ih h (parts.reverse ++ others) (by simp)
    -- The check goes on with the children in reverse, which changes nothing of what it finds out.
    have hperm := perm_flatMap_nodes parts others
    have hbelow : ∀ {m}, m ∈ (parts ++ others).flatMap nodes →
        m ∈ (parts.reverse ++ others).flatMap nodes := fun hm => hperm.mem_iff.mpr hm
    have hnodes := flatMap_nodes_cons own ownKind ownLabel parts others
    refine ⟨⟨?_, ?_, ?_⟩, ?_⟩
    · rw [hnodes, List.map_cons, List.nodup_cons]
      refine ⟨?_, (hperm.map Node.serial).nodup_iff.mp hlinked.nodup⟩
      intro hmem
      obtain ⟨m, hm, hserial⟩ := List.mem_map.mp hmem
      exact hunseen m (hbelow hm) (hserial ▸ List.mem_cons_self)
    · intro m hm
      rcases List.mem_cons.mp (hnodes ▸ hm) with rfl | hm
      · exact Int.not_lt.mp hspan
      · exact hlinked.spans m (hbelow hm)
    · intro m hm
      rcases List.mem_cons.mp (hnodes ▸ hm) with rfl | hm
      · apply links_of_checkChildren
        rw [draft, drafts_eq_map]
        exact hchildren
      · exact hlinked.links m (hbelow hm)
    · intro m hm
      rcases List.mem_cons.mp (hnodes ▸ hm) with rfl | hm
      · simpa [Node.serial] using hnew
      · exact fun hin => hunseen m (hbelow hm) (List.mem_cons_of_mem _ hin)
  | _ => cases h

theorem length_of_inspect {f : Forest} {seen met : List Nat} {stack : List Draft}
    (h : f.inspect seen stack = .ok met) : met.length = seen.length + Draft.totalSize stack := by
  fun_induction inspect f seen stack with
  | case1 seen =>
    obtain rfl : seen = met := by simpa using h
    simp [Draft.totalSize]
  | case7 seen serial label children rest hnew kind hspan _ d hchildren ih =>
    rw [List.unattach_reverse, List.unattach_attach] at ih
    have := ih h
    rw [Draft.totalSize_append, Draft.totalSize_reverse, List.length_cons] at this
    rw [Draft.totalSize, Draft.size, this]
    omega
  | _ => cases h

theorem accept_eq_ok {f : Forest} {root : Draft} {path : String} {t : Tree}
    (h : f.accept root path = .ok t) :
    f.parent? root = none ∧ ∃ seen, f.inspect [] [root] = .ok seen ∧
      ∃ n, root.settle = .ok n ∧ t = ⟨n, path, seen.length⟩ := by
  cases hparent : f.parent? root with
  | some p =>
    simp [Forest.accept, hparent, bind, Except.bind, throw, throwThe, MonadExceptOf.throw] at h
  | none =>
    cases hseen : f.inspect [] [root] with
    | error fault => simp [Forest.accept, hparent, hseen, bind, Except.bind] at h
    | ok seen =>
      cases hnode : root.settle with
      | error fault => simp [Forest.accept, hparent, hseen, hnode, bind, Except.bind] at h
      | ok n =>
        refine ⟨rfl, seen, rfl, n, rfl, ?_⟩
        simpa [Forest.accept, hparent, hseen, hnode, bind, Except.bind, pure, Except.pure]
          using h.symm

end TreeLint.Forest

namespace TreeLint

mutual

theorem Draft.eq_draft_of_settle (d : Draft) {n : Node} (h : d.settle = .ok n) : d = n.draft := by
  match d with
  | .node serial (.known kind) label children =>
    rw [settle] at h
    cases hchildren : settleAll children with
    | error fault => simp [hchildren, Except.map] at h
    | ok ns =>
      obtain rfl : Node.mk serial kind label ns = n := by simpa [hchildren, Except.map] using h
      rw [Node.draft, eq_drafts_of_settleAll children hchildren]
  | .node _ (.raw v) _ _ => simp [settle] at h
  | .foreign _ v => simp [settle] at h

theorem Draft.eq_drafts_of_settleAll (ds : List Draft) {ns : List Node}
    (h : settleAll ds = .ok ns) : ds = Node.drafts ns := by
  match ds with
  | [] =>
    obtain rfl : [] = ns := by simpa [settleAll] using h
    rfl
  | d :: rest =>
    rw [settleAll] at h
    cases hd : d.settle with
    | error fault => simp [hd] at h
    | ok n =>
      cases hrest : settleAll rest with
      | error fault => simp [hd, hrest] at h
      | ok ms =>
        obtain rfl : n :: ms = ns := by simpa [hd, hrest] using h
        rw [Node.drafts, ← Draft.eq_draft_of_settle d hd, ← eq_drafts_of_settleAll rest hrest]

end

mutual

theorem Node.size_draft : ∀ n : Node, n.draft.size = n.size
  | .mk serial kind label children => by
    rw [draft, Draft.size, size, totalSize_drafts children]

theorem Node.totalSize_drafts : ∀ ns : List Node, Draft.totalSize (drafts ns) = totalSize ns
  | [] => rfl
  | n :: rest => by
    rw [drafts, Draft.totalSize, totalSize, size_draft n, totalSize_drafts rest]

end

namespace Tree

/-- Some draft, in some forest of drafts, was found to be this tree. -/
def Accepted (t : Tree) : Prop :=
  ∃ (f : Forest) (root : Draft), f.accept root t.path = .ok t

theorem Accepted.nodeCount_eq {t : Tree} (ht : t.Accepted) : t.nodeCount = t.root.size := by
  obtain ⟨f, root, h⟩ := ht
  obtain ⟨-, seen, hseen, node, hnode, ht⟩ := Forest.accept_eq_ok h
  have hlen := Forest.length_of_inspect hseen
  simp only [List.length_nil, Nat.zero_add, Draft.totalSize, Nat.add_zero] at hlen
  rw [ht, hlen, Draft.eq_draft_of_settle root hnode, Node.size_draft]

end Tree

theorem Forest.linked_of_accept {f : Forest} {root : Draft} {path : String} {t : Tree}
    (h : f.accept root path = .ok t) :
    t.path = path ∧ t.nodeCount = t.root.nodes.length ∧ f.Linked [t.root] := by
  obtain ⟨-, seen, hseen, n, hn, rfl⟩ := Forest.accept_eq_ok h
  rw [Draft.eq_draft_of_settle root hn] at hseen
  have hlen := Forest.length_of_inspect hseen
  simp only [List.length_nil, Nat.zero_add, Draft.totalSize, Nat.add_zero, Node.size_draft] at hlen
  exact ⟨rfl, hlen.trans n.length_nodes.symm, (Forest.linked_of_inspect hseen [n] rfl).1⟩

end TreeLint
