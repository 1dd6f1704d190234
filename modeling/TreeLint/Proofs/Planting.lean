import Mathlib.Data.List.TakeWhile
import TreeLint.Document.Planting
import TreeLint.Proofs.Acceptance

namespace TreeLint

open Outline

mutual

def Outline.grow (base : Nat) : Outline (Row × Span) → Node
  | .mk (row, span) parts =>
    .mk (base + (labelsOf parts).length) row.kind
      ⟨span, row.text.getD (Text.phrase ((Outline.growAll base parts).map Node.text)),
        row.identifier, row.role⟩ (Outline.growAll base parts)

def Outline.growAll (base : Nat) : List (Outline (Row × Span)) → List Node
  | [] => []
  | t :: rest => t.grow (base + (labelsOf rest).length) :: Outline.growAll base rest

end

namespace Outline

structure Shows (e : Row × Span) (n : Node) : Prop where
  kind : n.kind = e.1.kind
  span : n.span = e.2
  identifier : n.identifier = e.1.identifier
  role : n.role = e.1.role
  text : ∀ text, e.1.text = some text → n.text = text

mutual

theorem shows_grow (base : Nat) (t : Outline (Row × Span)) :
    List.Forall₂ Shows t.labels (t.grow base).nodes := by
  match t with
  | .mk (row, span) parts =>
    rw [labels, grow, Node.nodes_mk]
    refine .cons ⟨rfl, rfl, rfl, rfl, ?_⟩ (shows_growAll base parts)
    intro text htext
    have htext : row.text = some text := htext
    simp [Node.text, Node.label, htext]

theorem shows_growAll (base : Nat) (ts : List (Outline (Row × Span))) :
    List.Forall₂ Shows (labelsOf ts) ((growAll base ts).flatMap Node.nodes) := by
  match ts with
  | [] => exact .nil
  | t :: rest =>
    rw [labelsOf, growAll, List.flatMap_cons]
    exact List.rel_append (shows_grow _ t) (shows_growAll base rest)

end

theorem length_nodes_growAll (base : Nat) (ts : List (Outline (Row × Span))) :
    ((growAll base ts).flatMap Node.nodes).length = (labelsOf ts).length :=
  (shows_growAll base ts).length_eq.symm

mutual

theorem parents_grow (base index : Nat) (around : Option Nat) (t : Outline (Row × Span)) :
    (t.grow base).outline.parents index around = t.parents index around := by
  match t with
  | .mk (row, span) parts =>
    rw [grow, Node.outline, parents, parents, parentsOf_growAll base (index + 1) _ parts]

theorem parentsOf_growAll (base index : Nat) (around : Option Nat)
    (ts : List (Outline (Row × Span))) :
    parentsOf index around (Node.outlines (growAll base ts)) = parentsOf index around ts := by
  match ts with
  | [] => rfl
  | t :: rest =>
    have hlen : (t.grow (base + (labelsOf rest).length)).outline.labels.length = t.labels.length :=
      (shows_grow _ t).length_eq.symm
    rw [growAll, Node.outlines, parentsOf, parentsOf, hlen, parents_grow _ index around t,
      parentsOf_growAll base _ around rest]

end

end Outline

namespace Document

open Forest

theorem inside_append {α : Type} {index : Nat} (inside : List α) {waiting : List (Option Nat × α)}
    (hw : ∀ e ∈ waiting, ∀ q, e.1 = some q → q < index) :
    (inside.map ((some index : Option Nat), ·) ++ waiting).takeWhile (·.1 == some index) =
        inside.map (some index, ·) ∧
      (inside.map ((some index : Option Nat), ·) ++ waiting).dropWhile (·.1 == some index) =
        waiting := by
  have hfront : ∀ e ∈ inside.map ((some index : Option Nat), ·), (e.1 == some index) = true := by
    intro e he
    obtain ⟨a, -, rfl⟩ := List.mem_map.mp he
    simp
  rw [List.takeWhile_append_of_pos hfront, List.dropWhile_append_of_pos hfront]
  cases waiting with
  | nil => simp
  | cons e rest =>
    have hback : (e.1 == some index) = false := by
      apply beq_false_of_ne
      intro he
      have := hw e (by simp) index he
      omega
    simp [hback]

theorem add_eq (p : Planting) (g : Forest) (index : Nat) (row : Row) (span : Span) (ns : List Node)
    (hw : ∀ e ∈ p.waiting, ∀ q, e.1 = some q → q < index) :
    Planting.add ⟨g, (ns.map fun n => (some index, n.draft)) ++ p.waiting⟩ index row span =
      let label : Label := ⟨span, row.text.getD (Text.phrase (ns.map Node.text)), row.identifier,
        row.role⟩
      ⟨(g.construct (.known row.kind) label (ns.map Node.draft)).2,
        (row.parent, (Node.mk g.size row.kind label ns).draft) :: p.waiting⟩ := by
  obtain ⟨htake, hdrop⟩ := inside_append (ns.map Node.draft) hw
  rw [List.map_map] at htake hdrop
  have hinside : (ns.map (((some index : Option Nat), ·) ∘ Node.draft)).map (·.2) =
      ns.map Node.draft := by
    rw [List.map_map]
    rfl
  simp only [Function.comp_def] at htake hdrop hinside
  simp only [Planting.add, htake, hdrop, hinside, create_eq, Node.draft, Node.drafts_eq_map]
  rfl

mutual

theorem plantFrom_grow (t : Outline (Row × Span)) (f : Forest) (p : Planting) (index : Nat)
    (around : Option Nat) (more : List (Row × Span))
    (hp : plantFrom f (index + t.labels.length) more = p)
    (hps : t.labels.map (·.1.parent) = t.parents index around)
    (hw : ∀ e ∈ p.waiting, ∀ q, e.1 = some q → q < index) :
    ∃ g, plantFrom f index (t.labels ++ more) =
        ⟨g, (around, (t.grow p.forest.size).draft) :: p.waiting⟩ ∧
      Grown p.forest g [t.grow p.forest.size] := by
  match t with
  | .mk (row, span) parts =>
    simp only [labels, parents, List.map_cons, List.cons.injEq] at hps
    obtain ⟨hrow, hparts⟩ := hps
    have hp' : plantFrom f (index + 1 + (labelsOf parts).length) more = p := by
      rw [← hp]
      congr 1
      simp only [labels, List.length_cons]
      omega
    obtain ⟨g, hg, hgrown⟩ := plantFrom_growAll parts f p (index + 1) (some index) more hp' hparts
      (by
        intro q hq
        obtain rfl : index = q := by simpa using hq
        omega)
      (fun e he q hq => Nat.lt_succ_of_lt (hw e he q hq))
    have hsize : g.size = p.forest.size + (labelsOf parts).length := by
      rw [hgrown.size, length_nodes_growAll]
    have hnode := hgrown.construct row.kind ⟨span,
      row.text.getD (Text.phrase ((growAll p.forest.size parts).map Node.text)), row.identifier,
      row.role⟩
    refine ⟨_, ?_, hsize ▸ hnode⟩
    rw [labels, List.cons_append, plantFrom, hg, add_eq p g index row span _ hw, hrow, hsize]
    rfl

theorem plantFrom_growAll (ts : List (Outline (Row × Span))) (f : Forest) (p : Planting)
    (index : Nat) (around : Option Nat) (more : List (Row × Span))
    (hp : plantFrom f (index + (labelsOf ts).length) more = p)
    (hps : (labelsOf ts).map (·.1.parent) = parentsOf index around ts)
    (haround : ∀ q, around = some q → q < index)
    (hw : ∀ e ∈ p.waiting, ∀ q, e.1 = some q → q < index) :
    ∃ g, plantFrom f index (labelsOf ts ++ more) =
        ⟨g, ((growAll p.forest.size ts).map fun n => (around, n.draft)) ++ p.waiting⟩ ∧
      Grown p.forest g (growAll p.forest.size ts) := by
  match ts with
  | [] => exact ⟨p.forest, hp, .refl p.forest⟩
  | t :: rest =>
    rw [labelsOf, parentsOf, List.map_append] at hps
    obtain ⟨ht, hrest⟩ := List.append_inj hps (by simp [parents_length])
    have hp' : plantFrom f (index + t.labels.length + (labelsOf rest).length) more = p := by
      rw [← hp, labelsOf, List.length_append, Nat.add_assoc]
    obtain ⟨g, hg, hgrown⟩ := plantFrom_growAll rest f p (index + t.labels.length) around more hp'
      hrest (fun q hq => Nat.lt_add_right _ (haround q hq))
      (fun e he q hq => Nat.lt_add_right _ (hw e he q hq))
    obtain ⟨k, hk, hkgrown⟩ := plantFrom_grow t f _ index around (labelsOf rest ++ more) hg ht
      (by
        intro e he q hq
        rcases List.mem_append.mp he with he | he
        · obtain ⟨n, -, rfl⟩ := List.mem_map.mp he
          exact haround q hq
        · exact hw e he q hq)
    have hsize : g.size = p.forest.size + (labelsOf rest).length := by
      rw [hgrown.size, length_nodes_growAll]
    simp only [hsize] at hk hkgrown
    refine ⟨k, ?_, ?_⟩
    · rw [labelsOf, List.append_assoc, hk, growAll, List.map_cons, List.cons_append]
    · rw [growAll]
      exact hgrown.cons hkgrown

end

end Document

end TreeLint
