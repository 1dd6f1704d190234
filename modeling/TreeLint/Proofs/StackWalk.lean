import TreeLint.Proofs.Cancellation
import TreeLint.Proofs.ProperTree

/-!
A walk by a stack whose top is at the end. Read from the top, the stack holds the sites still to come
as `Walk` has them, so it gives a node and then, child by child, what stands below it.
-/

namespace TreeLint

namespace Node

mutual

theorem preorder?_draft : ∀ n : Node, n.draft.preorder? = some (n.nodes.map draft)
  | mk serial kind label children => by
    rw [nodes_mk, List.map_cons, draft, Draft.preorder?, preorders?_drafts children, Option.map_some]

theorem preorders?_drafts :
    ∀ ns : List Node, Draft.preorders? (drafts ns) = some ((ns.flatMap nodes).map draft)
  | [] => rfl
  | n :: rest => by
    rw [drafts, Draft.preorders?, preorder?_draft n, preorders?_drafts rest, List.flatMap_cons,
      List.map_append]

end

end Node

namespace Site

@[elab_as_elim]
theorem by_children {P : Site → Prop} (step : ∀ s, (∀ c ∈ s.children, P c) → P s) (s : Site) :
    P s := by
  obtain ⟨n, above⟩ := s
  induction n using Node.by_children generalizing above with
  | mk serial kind label children ih =>
    apply step
    intro c hc
    obtain ⟨m, hm, rfl⟩ := List.mem_map.mp hc
    exact ih m hm _

inductive Within (s : Site) : Site → Prop
  | self : Within s s
  | child {r c : Site} (h : Within s r) (hc : c ∈ r.children) : Within s c

theorem Within.of_child {s c r : Site} (hc : c ∈ s.children) (h : c.Within r) : s.Within r := by
  induction h with
  | self => exact .child .self hc
  | child h hc ih => exact ih.child hc

theorem walk_eq (s : Site) : s.walk = s :: s.children.flatMap walk := by
  have hwalk : walk = preorder := funext walk_eq_preorder
  rw [hwalk]
  exact preorder_eq s

theorem walk_sublist_of_child {s c : Site} (hc : c ∈ s.children) : c.walk.Sublist s.walk := by
  rw [walk_eq s]
  exact (List.sublist_flatten_of_mem (List.mem_map_of_mem hc)).cons s

theorem Within.walk_sublist {s r : Site} (h : s.Within r) : r.walk.Sublist s.walk := by
  induction h with
  | self => exact List.Sublist.refl s.walk
  | child h hc ih => exact (walk_sublist_of_child hc).trans ih

theorem mem_walk_iff {s r : Site} : r ∈ s.walk ↔ s.Within r := by
  constructor
  · intro hr
    induction s using by_children with
    | step s ih =>
      rw [walk_eq] at hr
      rcases List.mem_cons.mp hr with rfl | hr
      · exact .self
      · obtain ⟨c, hc, hr⟩ := List.mem_flatMap.mp hr
        exact .of_child hc (ih c hc hr)
  · intro h
    apply h.walk_sublist.subset
    rw [walk_eq]
    exact List.mem_cons_self

theorem map_node_walk (s : Site) : s.walk.map node = s.node.nodes := by
  rw [walk_eq_preorder]
  exact map_node_eq_nodes s.above s.node

theorem map_walk {β : Type} (f : Node → β) (s : Site) :
    s.walk.map (fun r => f r.node) = s.node.nodes.map f := by
  rw [← map_node_walk, List.map_map]
  rfl

end Site

/-- What stands below the site given last is put on the stack when another site is asked for. -/
structure StackWalk where
  stack : List Site
  given : Option Site

namespace StackWalk

def start (s : Site) : StackWalk :=
  ⟨[s], none⟩

def filled (w : StackWalk) : List Site :=
  match w.given with
  | none => w.stack
  | some s => w.stack ++ s.children.reverse

def next? (w : StackWalk) : Option (Site × StackWalk) :=
  w.filled.getLast?.map fun s => (s, ⟨w.filled.dropLast, some s⟩)

inductive Gives : StackWalk → List Site → Prop
  | nothing {w : StackWalk} (h : w.next? = none) : Gives w []
  | next {w v : StackWalk} {s : Site} {sites : List Site} (h : w.next? = some (s, v))
      (hsites : Gives v sites) : Gives w (s :: sites)

def take : Nat → StackWalk → List Site × StackWalk
  | 0, w => ([], w)
  | n + 1, w =>
    match w.next? with
    | none => ([], w)
    | some (s, rest) =>
      let (sites, left) := take n rest
      (s :: sites, left)

def walk (w : StackWalk) : Walk :=
  ⟨w.filled.reverse⟩

variable {w v : StackWalk} {s : Site}

theorem next?_walk (w : StackWalk) : w.walk.next? = w.next?.map fun e => (e.1, e.2.walk) := by
  rcases List.eq_nil_or_concat' w.filled with hnil | ⟨stack, s, hs⟩
  · rw [walk, next?, hnil]
    rfl
  · -- put on last one first and read from the top, the children are in order again
    have hbelow : (⟨stack, some s⟩ : StackWalk).walk = ⟨s.children ++ stack.reverse⟩ := by
      simp [walk, filled]
    rw [walk, next?, hs, List.reverse_concat, List.getLast?_concat, List.dropLast_concat]
    simp only [Option.map_some, hbelow, Walk.next?]

theorem next?_walk_of_none (h : w.next? = none) : w.walk.next? = none := by
  rw [next?_walk, h, Option.map_none]

theorem next?_walk_of_some (h : w.next? = some (s, v)) : w.walk.next? = some (s, v.walk) := by
  rw [next?_walk, h, Option.map_some]

theorem remaining_of_next? (h : w.next? = some (s, v)) :
    v.walk.remaining + 1 = w.walk.remaining :=
  Walk.remaining_of_next? (next?_walk_of_some h)

theorem next?_eq_none_iff : w.next? = none ↔ w.walk.remaining = 0 := by
  constructor
  · intro h
    rw [Walk.eq_of_next?_none (next?_walk_of_none h)]
    rfl
  · intro h
    cases hnext : w.next? with
    | none => rfl
    | some e =>
      have := remaining_of_next? hnext
      omega

theorem gives_toList (w : StackWalk) : w.Gives w.walk.toList := by
  -- Each call takes one off the sites on the stack and below them.
  induction hn : w.walk.remaining using Nat.strongRecOn generalizing w with
  | _ n ih =>
    cases hnext : w.next? with
    | none =>
      rw [Walk.eq_of_next?_none (next?_walk_of_none hnext), Walk.toList_nil]
      exact .nothing hnext
    | some e =>
      obtain ⟨s, v⟩ := e
      have hless := remaining_of_next? hnext
      rw [Walk.toList_of_next? (next?_walk_of_some hnext)]
      exact .next hnext (ih v.walk.remaining (by omega) v rfl)

theorem gives_iff {sites : List Site} : w.Gives sites ↔ sites = w.walk.toList := by
  constructor
  · intro h
    induction h with
    | nothing h => rw [Walk.eq_of_next?_none (next?_walk_of_none h), Walk.toList_nil]
    | next h hsites ih => rw [Walk.toList_of_next? (next?_walk_of_some h), ih]
  · rintro rfl
    exact gives_toList w

theorem take_walk (w : StackWalk) (n : Nat) : w.walk.take n = ((w.take n).1, (w.take n).2.walk) := by
  induction n generalizing w with
  | zero => rfl
  | succ n ih =>
    cases hnext : w.next? with
    | none => rw [take, Walk.take, hnext, next?_walk_of_none hnext]
    | some e =>
      obtain ⟨s, v⟩ := e
      rw [take, hnext, Walk.take_of_next? (next?_walk_of_some hnext), ih v]

theorem fst_take (w : StackWalk) (n : Nat) : (w.take n).1 = w.walk.toList.take n := by
  rw [← Walk.fst_take, take_walk]

theorem walk_snd_take (w : StackWalk) (n : Nat) : (w.take n).2.walk = (w.walk.take n).2 := by
  rw [take_walk]

theorem gives_snd_take_iff {n : Nat} {sites : List Site} :
    (w.take n).2.Gives sites ↔ sites = w.walk.toList.drop n := by
  rw [gives_iff, walk_snd_take, Walk.toList_snd_take]

theorem next?_snd_take_eq_none_iff {n : Nat} :
    (w.take n).2.next? = none ↔ w.walk.remaining ≤ n := by
  rw [next?_eq_none_iff, walk_snd_take, Walk.remaining_snd_take]
  omega

theorem walk_start (s : Site) : (start s).walk = Walk.start s := rfl

theorem toList_walk_start (s : Site) : (start s).walk.toList = s.walk := rfl

theorem next?_start (s : Site) : (start s).next? = some (s, ⟨[], some s⟩) := rfl

theorem toList_walk_after_start (s : Site) :
    (⟨[], some s⟩ : StackWalk).walk.toList = s.descendants := by
  have hnext := Walk.toList_of_next? (next?_walk_of_some (next?_start s))
  rw [toList_walk_start] at hnext
  rw [Site.descendants, hnext, List.tail_cons]

end StackWalk

namespace Tree

theorem nodup_walk_of_within {t : Tree} (ht : t.Accepted) (outside : List Enclosing) {s : Site}
    (hs : (t.site outside).Within s) : (s.walk.map (·.node.serial)).Nodup := by
  obtain ⟨f, root, haccept⟩ := ht
  obtain ⟨-, -, hlinked⟩ := Forest.linked_of_accept haccept
  have hroot : ((t.site outside).walk.map (·.node.serial)).Nodup := by
    rw [Site.map_walk Node.serial]
    simpa [Tree.site] using hlinked.nodup
  exact (hs.walk_sublist.map _).nodup hroot

/--
A walk from any node of a tree gives the node and then what the walks from its children give, each
node below it once, and comes to an end. It may be left off after any number of sites.
-/
theorem walks_in_preorder (t : Tree) (ht : t.Accepted) (outside : List Enclosing) (s : Site)
    (hs : (t.site outside).Within s) :
    (∀ sites, (StackWalk.start s).Gives sites ↔ sites = s.walk) ∧
      s.walk = s :: s.children.flatMap Site.walk ∧
      (∀ r, r ∈ s.walk ↔ s.Within r) ∧ (s.walk.map (·.node.serial)).Nodup ∧
      (∃ rest, (StackWalk.start s).next? = some (s, rest) ∧
        ∀ sites, rest.Gives sites ↔ sites = s.descendants) ∧
      s.descendants = s.walk.tail ∧
      (∀ n, ∃ left, (StackWalk.start s).take n = (s.walk.take n, left) ∧
        (Walk.start s).take n = (s.walk.take n, left.walk) ∧
        (∀ sites, left.Gives sites ↔ sites = s.walk.drop n) ∧
        (left.next? = none ↔ s.node.size ≤ n)) ∧
      Workspace.walk s.node.draft = .ok (s.walk.map (·.node.draft)) := by
  refine ⟨?_, s.walk_eq, fun r => Site.mem_walk_iff, nodup_walk_of_within ht outside hs, ?_, rfl, ?_,
    ?_⟩
  · intro sites
    exact StackWalk.gives_iff
  · refine ⟨_, StackWalk.next?_start s, ?_⟩
    intro sites
    rw [StackWalk.gives_iff, StackWalk.toList_walk_after_start]
  · intro n
    have hfirst := StackWalk.fst_take (.start s) n
    rw [StackWalk.toList_walk_start] at hfirst
    refine ⟨_, Prod.ext hfirst rfl, ?_, fun sites => StackWalk.gives_snd_take_iff, ?_⟩
    · rw [← StackWalk.walk_start, StackWalk.take_walk, hfirst]
    · rw [StackWalk.next?_snd_take_eq_none_iff, StackWalk.walk_start, Walk.remaining_start]
  · rw [Workspace.walk, Node.preorder?_draft, Site.map_walk Node.draft]

theorem walks_in_preorder_inner_node :
    let label : Label := ⟨.ofRange 0 1, "x", none, none⟩
    let inner : Node := .mk 4 .ifStatement label
      [.mk 3 .block label [.mk 2 .returnStatement label []], .mk 1 .elseClause label []]
    let t : Tree := ⟨.mk 5 .block label [inner, .mk 0 .returnStatement label []], "a.cs", 6⟩
    let s : Site := ⟨inner, (t.site []).inside⟩
    t.Accepted ∧ (t.site []).Within s ∧
      (∃ sites, (StackWalk.start s).Gives sites ∧ sites.map (·.node.serial) = [4, 3, 2, 1]) ∧
      ∃ sites left later, (StackWalk.start s).take 2 = (sites, left) ∧
        sites.map (·.node.serial) = [4, 3] ∧ left.Gives later ∧
        later.map (·.node.serial) = [2, 1] := by
  intro label inner t s
  have ht : t.Accepted := by
    have leaf (f : Forest) (kind : Kind) := (Forest.Grown.refl f).construct kind label
    have branches (f : Forest) := (leaf f .elseClause).cons
      ((leaf _ .returnStatement).construct .block label)
    have hgrown := ((leaf .empty .returnStatement).cons
      ((branches _).construct .ifStatement label)).construct .block label
    refine ⟨_, _, hgrown.accept ?_ "a.cs"⟩
    have hspans : ∀ l ∈ List.replicate 6 label, l.span.start ≤ l.span.stop := by decide
    intro m hm
    exact hspans m.label (List.mem_map_of_mem hm)
  have hs : (t.site []).Within s := .child .self List.mem_cons_self
  have hserials : s.walk.map (·.node.serial) = [4, 3, 2, 1] := by
    rw [Site.walk_eq_preorder]
    rfl
  obtain ⟨hgives, -, -, -, -, -, htakes, -⟩ := walks_in_preorder t ht [] s hs
  obtain ⟨left, htake, -, hleft, -⟩ := htakes 2
  refine ⟨ht, hs, ⟨_, (hgives _).mpr rfl, hserials⟩, _, left, _, htake, ?_, (hleft _).mpr rfl, ?_⟩
  · rw [List.map_take, hserials]
    rfl
  · rw [List.map_drop, hserials]
    rfl

end Tree

end TreeLint
