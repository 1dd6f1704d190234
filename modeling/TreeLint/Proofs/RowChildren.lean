import TreeLint.Proofs.KeywordNames
import TreeLint.Proofs.LoopExpressions

namespace TreeLint

section Related

variable {α β : Type} {R : α → β → Prop}

theorem rel_head? {as : List α} {bs : List β} (h : List.Forall₂ R as bs) :
    Option.Rel R as.head? bs.head? := by
  cases h with
  | nil => exact .none
  | cons hab _ => exact .some hab

theorem rel_or {a a' : Option α} {b b' : Option β} (h : Option.Rel R a b)
    (h' : Option.Rel R a' b') : Option.Rel R (a.or a') (b.or b') := by
  cases h with
  | none => exact h'
  | some hab => exact .some hab

theorem rel_bind {γ δ : Type} {S : γ → δ → Prop} {a : Option α} {b : Option β} {f : α → Option γ}
    {g : β → Option δ} (h : Option.Rel R a b) (hfg : ∀ x y, R x y → Option.Rel S (f x) (g y)) :
    Option.Rel S (a.bind f) (b.bind g) := by
  cases h with
  | none => exact .none
  | some hab => exact hfg _ _ hab

theorem any_iff_of_rel {a : Option α} {b : Option β} (h : Option.Rel R a b) {P : α → Prop}
    {q : β → Bool} (hpq : ∀ x y, R x y → (q y ↔ P x)) : b.any q ↔ ∃ x, a = some x ∧ P x := by
  cases h with
  | none => simp
  | some hxy => simp [hpq _ _ hxy]

theorem all_iff_of_forall₂ {as : List α} {bs : List β} (h : List.Forall₂ R as bs) {P : α → Prop}
    {q : β → Bool} (hpq : ∀ x y, R x y → (q y ↔ P x)) : bs.all q ↔ ∀ x ∈ as, P x := by
  induction h with
  | nil => simp
  | cons hxy _ ih => simp [hpq _ _ hxy, ih]

end Related

def Recast.bare : Recast :=
  ⟨fun _ => 0, fun _ => .ofRange 0 0⟩

def Node.bare (n : Node) : Node :=
  n.recast .bare

theorem Node.childrenOf_bare (n : Node) (kind : Kind) :
    n.bare.childrenOf kind = (n.childrenOf kind).map bare :=
  n.childrenOf_recast .bare kind

def Tree.NodeAt (t : Tree) (i : Nat) (n : Node) : Prop :=
  ∃ s, t.walk[i]? = some s ∧ s.node = n

namespace Document

structure Seats (d : Document) (t : Tree) (kind : Kind) (i : Nat) (s : Site) : Prop where
  toTree : d.toTree = .ok t
  visited : t.walk[i]? = some s
  kind_eq : s.kind = kind

theorem Seats.mem_reported_iff {d : Document} {t : Tree} {kind : Kind} {i : Nat} {s : Site}
    (h : d.Seats t kind i s) {r : Rule} (hr : r ∈ Rule.catalogue) (hkinds : r.kinds = .ofList [kind])
    {judge : Site → Judgement} (hjudge : r.evaluate t s = (judge s).verdict) {fires : Bool} {n : Node}
    {message : String} (heq : judge s = .reportIf fires n message) :
    i ∈ t.reported r.id ↔ fires := by
  obtain ⟨hlt, rfl⟩ := List.getElem?_eq_some_iff.mp h.visited
  rw [← h.kind_eq] at hkinds
  rw [Tree.reported_eq hr, List.mem_findIdxs_iff_pos_getElem hlt]
  cases fires with
  | false => simp [Rule.report?_of_abstain hjudge heq]
  | true => simp [Rule.report?_of_report hr hkinds hjudge heq]

theorem walk_of_outlines {d : Document} (hd : d.Valid) {t : Tree} (ht : d.toTree = .ok t)
    {w : Outline Row} (hw : Outlines d.rows w) : t.walk = Site.preorderOf [] ((w.fill 0).grow 0) := by
  obtain ⟨t', h⟩ := hd.planted
  obtain rfl : t' = t := Except.ok.inj (h.toTree.symm.trans ht)
  rw [walk_eq_preorderOf, root_eq_grow hd h hw]

def childrenOfAt (rows : List Row) (kind : Kind) (i : Nat) : List Nat :=
  (childrenAt rows i).filter fun j => kindAt rows j == some kind

namespace Planted

variable {d : Document} {t : Tree} {i : Nat} {n : Node}

theorem children_nodeAt (h : Planted d t) (hd : d.Valid) (hn : t.NodeAt i n) :
    List.Forall₂ t.NodeAt (childrenAt d.rows i) n.children := by
  obtain ⟨s, hs, rfl⟩ := hn
  have hsites : List.Forall₂ (fun c j => t.walk[j]? = some c) s.children (childrenAt d.rows i) := by
    have heq := List.forall₂_eq_eq_eq ▸ h.children_eq hd hs
    rw [List.forall₂_map_left_iff, List.forall₂_map_right_iff] at heq
    exact heq.imp fun _ _ he => he.symm
  have hnodes : s.node.children = s.children.map Site.node := by
    simp [Site.children, Function.comp_def]
  rw [hnodes, List.forall₂_map_right_iff]
  apply hsites.flip.imp
  intro j c hc
  exact ⟨c, hc, rfl⟩

theorem childrenOf_nodeAt (h : Planted d t) (hd : d.Valid) (hn : t.NodeAt i n) (kind : Kind) :
    List.Forall₂ t.NodeAt (childrenOfAt d.rows kind i) (n.childrenOf kind) := by
  apply List.rel_filter _ (h.children_nodeAt hd hn)
  rintro j _ ⟨c, hc, rfl⟩
  simp [h.kind_at hc, Site.kind]

theorem child?_nodeAt (h : Planted d t) (hd : d.Valid) (hn : t.NodeAt i n) (role : String) :
    Option.Rel t.NodeAt (childAt d.rows role i) (n.child? role) := by
  obtain ⟨s, hs, rfl⟩ := hn
  rw [h.child?_at hd hs]
  cases hj : childAt d.rows role i with
  | none => exact .none
  | some j =>
    obtain ⟨e, he⟩ := h.exists_child hj
    rw [Option.bind_some, he]
    exact .some ⟨e, he, rfl⟩

theorem trimmedText_nodeAt (h : Planted d t) (hd : d.Valid) (hn : t.NodeAt i n) :
    n.trimmedText = Text.trim (textAt d.rows i) := by
  obtain ⟨s, hs, rfl⟩ := hn
  rw [Node.trimmedText, h.text_eq hd hs]
  rfl

end Planted

end Document

end TreeLint
