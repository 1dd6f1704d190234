import Mathlib.Data.List.Forall2
import TreeLint.Proofs.Outline
import TreeLint.Syntax.Walk

namespace TreeLint

theorem forall₂_iff_getElem? {α β : Type} {R : α → β → Prop} {xs : List α} {ys : List β} :
    List.Forall₂ R xs ys ↔
      xs.length = ys.length ∧ ∀ (i : Nat) x y, xs[i]? = some x → ys[i]? = some y → R x y := by
  rw [List.forall₂_iff_get]
  constructor
  · rintro ⟨hlen, h⟩
    refine ⟨hlen, ?_⟩
    intro i x y hx hy
    obtain ⟨hix, rfl⟩ := List.getElem?_eq_some_iff.mp hx
    obtain ⟨hiy, rfl⟩ := List.getElem?_eq_some_iff.mp hy
    exact h i hix hiy
  · rintro ⟨hlen, h⟩
    refine ⟨hlen, ?_⟩
    intro i hix hiy
    exact h i _ _ (List.getElem?_eq_getElem hix) (List.getElem?_eq_getElem hiy)

namespace Node

mutual

def outline : Node → Outline Node
  | mk serial kind label children => .mk (mk serial kind label children) (outlines children)

def outlines : List Node → List (Outline Node)
  | [] => []
  | n :: rest => n.outline :: outlines rest

end

def nodes (n : Node) : List Node :=
  n.outline.labels

theorem labelsOf_outlines (ns : List Node) : Outline.labelsOf (outlines ns) = ns.flatMap nodes := by
  induction ns with
  | nil => rfl
  | cons n rest ih => simp only [outlines, Outline.labelsOf, ih, List.flatMap_cons, nodes]

theorem nodes_mk (serial : Nat) (kind : Kind) (label : Label) (children : List Node) :
    (mk serial kind label children).nodes =
      mk serial kind label children :: children.flatMap nodes := by
  rw [nodes, outline, Outline.labels, labelsOf_outlines]

mutual

theorem length_nodes : ∀ n : Node, n.nodes.length = n.size
  | mk serial kind label children => by
    rw [nodes_mk, List.length_cons, length_flatMap_nodes children, size]

theorem length_flatMap_nodes : ∀ ns : List Node, (ns.flatMap nodes).length = totalSize ns
  | [] => rfl
  | n :: rest => by
    rw [List.flatMap_cons, List.length_append, length_nodes n, length_flatMap_nodes rest, totalSize]

end

theorem mem_nodes_self (n : Node) : n ∈ n.nodes := by
  obtain ⟨serial, kind, label, children⟩ := n
  simp [nodes_mk]

mutual

theorem children_mem_nodes (n : Node) {m c : Node} (hm : m ∈ n.nodes) (hc : c ∈ m.children) :
    c ∈ n.nodes := by
  match n with
  | mk serial kind label children =>
    rw [nodes_mk] at hm ⊢
    rcases List.mem_cons.mp hm with rfl | hm
    · exact List.mem_cons_of_mem _ (List.mem_flatMap.mpr ⟨c, hc, mem_nodes_self c⟩)
    · exact List.mem_cons_of_mem _ (children_mem_flatMap_nodes children hm hc)

theorem children_mem_flatMap_nodes (ns : List Node) {m c : Node} (hm : m ∈ ns.flatMap nodes)
    (hc : c ∈ m.children) : c ∈ ns.flatMap nodes := by
  match ns with
  | [] => simp at hm
  | n :: rest =>
    rw [List.flatMap_cons] at hm ⊢
    rcases List.mem_append.mp hm with hm | hm
    · exact List.mem_append_left _ (children_mem_nodes n hm hc)
    · exact List.mem_append_right _ (children_mem_flatMap_nodes rest hm hc)

end

end Node

namespace Site

open Outline

def inside (s : Site) : List Enclosing :=
  ⟨s.node.serial, .known s.kind⟩ :: s.above

theorem children_eq (s : Site) : s.children = s.node.children.map (⟨·, s.inside⟩) := rfl

mutual

theorem map_node_preorderOf (above : List Enclosing) :
    ∀ n : Node, (preorderOf above n).map node = n.outline.labels
  | .mk serial kind label children => by
    simp only [preorderOf, Node.outline, labels, List.map_cons,
      map_node_preordersOf _ children]

theorem map_node_preordersOf (above : List Enclosing) :
    ∀ ns : List Node, (preordersOf above ns).map node = labelsOf (Node.outlines ns)
  | [] => rfl
  | n :: rest => by
    simp only [preordersOf, Node.outlines, labelsOf, List.map_append,
      map_node_preorderOf above n, map_node_preordersOf above rest]

end

theorem map_node_eq_nodes (above : List Enclosing) (n : Node) :
    (preorderOf above n).map node = n.nodes :=
  map_node_preorderOf above n

theorem length_preorderOf (above : List Enclosing) (n : Node) :
    (preorderOf above n).length = n.outline.labels.length := by
  rw [← map_node_preorderOf above n, List.length_map]

def Around (sites : List Site) (s : Site) : Option Nat → Prop
  | none => s.above = []
  | some p => ∃ r, sites[p]? = some r ∧ s.above = r.inside

mutual

theorem around_preorderOf (sites before after : List Site) (above : List Enclosing) (n : Node)
    (around : Option Nat) (hsites : sites = before ++ preorderOf above n ++ after)
    (h : Around sites ⟨n, above⟩ around) :
    List.Forall₂ (Around sites) (preorderOf above n) (n.outline.parents before.length around) := by
  match n with
  | .mk serial kind label children =>
    have hself : sites[before.length]? = some ⟨.mk serial kind label children, above⟩ := by
      rw [hsites]
      simp [preorderOf]
    have hchildren := around_preordersOf sites
      (before ++ [⟨.mk serial kind label children, above⟩]) after
      (⟨serial, .known kind⟩ :: above) children (some before.length)
      (by rw [hsites]; simp [preorderOf]) (fun c _ => ⟨_, hself, rfl⟩)
    rw [List.length_append] at hchildren
    exact .cons h hchildren

theorem around_preordersOf (sites before after : List Site) (above : List Enclosing)
    (ns : List Node) (around : Option Nat)
    (hsites : sites = before ++ preordersOf above ns ++ after)
    (h : ∀ n ∈ ns, Around sites ⟨n, above⟩ around) :
    List.Forall₂ (Around sites) (preordersOf above ns)
      (parentsOf before.length around (Node.outlines ns)) := by
  match ns with
  | [] => exact .nil
  | n :: rest =>
    have hfirst := around_preorderOf sites before (preordersOf above rest ++ after) above n around
      (by rw [hsites]; simp [preordersOf]) (h n (by simp))
    have hrest := around_preordersOf sites (before ++ preorderOf above n) after above rest around
      (by rw [hsites]; simp [preordersOf]) (fun m hm => h m (by simp [hm]))
    rw [List.length_append, length_preorderOf] at hrest
    exact List.rel_append hfirst hrest

end

def standingIn (sites : List Site) (ps : List (Option Nat)) (i : Nat) : List Site :=
  ((sites.zip ps).filter (·.2 == some i)).map Prod.fst

theorem standingIn_cons (s : Site) (sites : List Site) (q : Option Nat) (ps : List (Option Nat))
    (i : Nat) : standingIn (s :: sites) (q :: ps) i =
      (if q = some i then [s] else []) ++ standingIn sites ps i := by
  by_cases hq : q = some i <;> simp [standingIn, hq]

theorem standingIn_append {xs : List Site} {ps : List (Option Nat)} (h : xs.length = ps.length)
    (ys : List Site) (qs : List (Option Nat)) (i : Nat) :
    standingIn (xs ++ ys) (ps ++ qs) i = standingIn xs ps i ++ standingIn ys qs i := by
  simp only [standingIn, List.zip_append h, List.filter_append, List.map_append]

theorem standingIn_eq_nil {sites : List Site} {ps : List (Option Nat)} {i : Nat}
    (h : some i ∉ ps) : standingIn sites ps i = [] := by
  simp only [standingIn, List.map_eq_nil_iff, List.filter_eq_nil_iff]
  rintro ⟨s, q⟩ hq hqi
  obtain rfl : q = some i := by simpa using hqi
  exact h (List.of_mem_zip hq).2

theorem mem_standingIn {sites : List Site} {ps : List (Option Nat)} {i p : Nat} {s : Site}
    (hs : sites[i]? = some s) (hp : ps[i]? = some (some p)) : s ∈ standingIn sites ps p := by
  refine List.mem_map.mpr ⟨(s, some p), List.mem_filter.mpr ⟨?_, by simp⟩, rfl⟩
  exact List.mem_of_getElem? (List.getElem?_zip_eq_some.mpr ⟨hs, hp⟩)

theorem length_standingIn {sites : List Site} {ps : List (Option Nat)}
    (h : sites.length = ps.length) (i : Nat) :
    (standingIn sites ps i).length = ps.count (some i) := by
  have hcomp : (fun e : Site × Option Nat => e.2 == some i) = (· == some i) ∘ Prod.snd := rfl
  rw [standingIn, List.length_map, ← List.countP_eq_length_filter, hcomp, ← List.countP_map,
    List.map_snd_zip (Nat.le_of_eq h.symm), List.count]

theorem standingIn_preorderOf_of_lt (above : List Enclosing) (n : Node) (around : Option Nat)
    {index i : Nat} (hi : i < index) :
    standingIn (preorderOf above n) (n.outline.parents index around) i =
      if around = some i then [⟨n, above⟩] else [] := by
  obtain ⟨serial, kind, label, children⟩ := n
  have hbelow : some i ∉ parentsOf (index + 1) (some index) (Node.outlines children) := by
    intro hmem
    rcases mem_parentsOf hmem with hp | hp
    · obtain rfl : index = i := by simpa using hp
      omega
    · omega
  simp only [preorderOf, Node.outline, parents, standingIn_cons, standingIn_eq_nil hbelow,
    List.append_nil]

theorem standingIn_preordersOf_of_lt (above : List Enclosing) (ns : List Node)
    (around : Option Nat) {index i : Nat} (hi : i < index) :
    standingIn (preordersOf above ns) (parentsOf index around (Node.outlines ns)) i =
      if around = some i then ns.map (⟨·, above⟩) else [] := by
  induction ns generalizing index with
  | nil => simp [preordersOf, Node.outlines, parentsOf, standingIn]
  | cons n rest ih =>
    have hlen : (preorderOf above n).length = (n.outline.parents index around).length := by
      rw [length_preorderOf, parents_length]
    rw [preordersOf, Node.outlines, parentsOf, standingIn_append hlen,
      standingIn_preorderOf_of_lt above n around hi, ih (by omega)]
    by_cases hq : around = some i <;> simp [hq]

mutual

theorem standingIn_preorderOf (n : Node) (above : List Enclosing) (around : Option Nat)
    (index i : Nat) (s : Site) (hq : ∀ p, around = some p → p < index)
    (hs : (preorderOf above n)[i]? = some s) :
    standingIn (preorderOf above n) (n.outline.parents index around) (index + i) = s.children := by
  match n with
  | .mk serial kind label children =>
    have hne : around ≠ some (index + i) := by
      intro he
      have := hq _ he
      omega
    rw [preorderOf, Node.outline, parents, standingIn_cons, if_neg hne, List.nil_append]
    cases i with
    | zero =>
      obtain rfl : ⟨.mk serial kind label children, above⟩ = s := by
        simpa [preorderOf] using hs
      have hlt : index < index + 1 := by omega
      rw [Nat.add_zero index, standingIn_preordersOf_of_lt _ _ _ hlt, if_pos rfl]
      rfl
    | succ i =>
      have hshift : index + (i + 1) = index + 1 + i := by omega
      rw [hshift]
      apply standingIn_preordersOf children _ (some index) (index + 1) i s
      · intro p hp
        obtain rfl : index = p := by simpa using hp
        omega
      · simpa [preorderOf] using hs

theorem standingIn_preordersOf (ns : List Node) (above : List Enclosing) (around : Option Nat)
    (index i : Nat) (s : Site) (hq : ∀ p, around = some p → p < index)
    (hs : (preordersOf above ns)[i]? = some s) :
    standingIn (preordersOf above ns) (parentsOf index around (Node.outlines ns)) (index + i) =
      s.children := by
  match ns with
  | [] => simp [preordersOf] at hs
  | n :: rest =>
    have hlen : (preorderOf above n).length = (n.outline.parents index around).length := by
      rw [length_preorderOf, parents_length]
    rw [preordersOf] at hs
    rw [preordersOf, Node.outlines, parentsOf, standingIn_append hlen]
    rcases Nat.lt_or_ge i (preorderOf above n).length with hi | hi
    · rw [List.getElem?_append_left hi] at hs
      have hlater : some (index + i) ∉
          parentsOf (index + n.outline.labels.length) around (Node.outlines rest) := by
        intro hmem
        rw [length_preorderOf] at hi
        rcases mem_parentsOf hmem with hp | hp
        · have := hq _ hp
          omega
        · omega
      rw [standingIn_preorderOf n above around index i s hq hs, standingIn_eq_nil hlater,
        List.append_nil]
    · rw [List.getElem?_append_right hi] at hs
      rw [length_preorderOf] at hi hs
      have hearlier : some (index + i) ∉ n.outline.parents index around := by
        intro hmem
        rcases mem_parents hmem with hp | hp
        · have := hq _ hp
          omega
        · omega
      have hshift : index + i = index + n.outline.labels.length + (i - n.outline.labels.length) := by
        omega
      rw [standingIn_eq_nil hearlier, List.nil_append, hshift]
      apply standingIn_preordersOf rest above around _ _ s _ hs
      intro p hp
      have := hq p hp
      omega

end

end Site

end TreeLint
