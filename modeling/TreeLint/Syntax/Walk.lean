import TreeLint.Syntax.Node

/-!
Visiting a tree. `Walk` keeps the sites still to come and gives one after another; `Site.preorder`
says the same by recursion on the tree.
-/

namespace TreeLint

/-- The kind of a node around another one; such a node may stand in no tree. -/
inductive OuterKind where
  | known (k : Kind)
  | stray
  | unkeyed (typeName : String)
deriving DecidableEq, Repr

def OuterKind.kind? : OuterKind → Option Kind
  | known k => some k
  | _ => none

structure Enclosing where
  serial : Nat
  kind : OuterKind
deriving DecidableEq, Repr

structure Site where
  node : Node
  above : List Enclosing

namespace Site

def kind (s : Site) : Kind :=
  s.node.kind

def children (s : Site) : List Site :=
  s.node.children.map fun c => ⟨c, ⟨s.node.serial, .known s.node.kind⟩ :: s.above⟩

mutual

def preorderOf (above : List Enclosing) : Node → List Site
  | .mk serial kind label children =>
    ⟨.mk serial kind label children, above⟩ :: preordersOf (⟨serial, .known kind⟩ :: above) children

def preordersOf (above : List Enclosing) : List Node → List Site
  | [] => []
  | n :: rest => preorderOf above n ++ preordersOf above rest

end

def preorder (s : Site) : List Site :=
  preorderOf s.above s.node

theorem preordersOf_eq (above : List Enclosing) (ns : List Node) :
    preordersOf above ns = ns.flatMap (preorderOf above) := by
  induction ns with
  | nil => rfl
  | cons n rest ih => simp [preordersOf, ih]

theorem preorder_eq (s : Site) : s.preorder = s :: s.children.flatMap preorder := by
  obtain ⟨⟨serial, kind, label, children⟩, above⟩ := s
  simp only [preorder, preorderOf, preordersOf_eq, Site.children, List.flatMap_map]
  rfl

end Site

structure Walk where
  pending : List Site

namespace Walk

def start (s : Site) : Walk :=
  ⟨[s]⟩

def next? (w : Walk) : Option (Site × Walk) :=
  match w.pending with
  | [] => none
  | s :: rest => some (s, ⟨s.children ++ rest⟩)

def remaining (w : Walk) : Nat :=
  Node.totalSize (w.pending.map Site.node)

theorem totalSize_children (s : Site) :
    Node.totalSize (s.children.map Site.node) + 1 = s.node.size := by
  simp [Site.children, Node.size_eq, List.map_map, Function.comp_def]

theorem remaining_of_next? {w v : Walk} {s : Site} (h : w.next? = some (s, v)) :
    v.remaining + 1 = w.remaining := by
  obtain ⟨pending⟩ := w
  cases pending with
  | nil => simp [next?] at h
  | cons t rest =>
    simp only [next?, Option.some.injEq, Prod.mk.injEq] at h
    obtain ⟨rfl, rfl⟩ := h
    have := totalSize_children t
    simp only [remaining, List.map_append, List.map_cons, Node.totalSize_append, Node.totalSize]
    omega

def toList (w : Walk) : List Site :=
  match _h : w.next? with
  | none => []
  | some (s, rest) => s :: rest.toList
termination_by w.remaining
decreasing_by have := remaining_of_next? _h; omega

theorem toList_eq (w : Walk) : w.toList = w.pending.flatMap Site.preorder := by
  fun_induction toList w with
  | case1 w h =>
    obtain ⟨pending⟩ := w
    cases pending with
    | nil => rfl
    | cons s rest => simp [next?] at h
  | case2 w s rest h ih =>
    obtain ⟨pending⟩ := w
    cases pending with
    | nil => simp [next?] at h
    | cons t others =>
      simp only [next?, Option.some.injEq, Prod.mk.injEq] at h
      obtain ⟨rfl, rfl⟩ := h
      rw [ih, List.flatMap_append, List.flatMap_cons, Site.preorder_eq t, List.cons_append]

def take : Nat → Walk → List Site × Walk
  | 0, w => ([], w)
  | n + 1, w =>
    match w.next? with
    | none => ([], w)
    | some (s, rest) =>
      let (sites, left) := take n rest
      (s :: sites, left)

end Walk

namespace Site

def walk (s : Site) : List Site :=
  (Walk.start s).toList

def descendants (s : Site) : List Site :=
  s.walk.tail

theorem walk_eq_preorder (s : Site) : s.walk = s.preorder := by
  simp [walk, Walk.start, Walk.toList_eq]

theorem descendants_eq (s : Site) : s.descendants = s.children.flatMap preorder := by
  rw [descendants, walk_eq_preorder, preorder_eq, List.tail_cons]

end Site

end TreeLint
