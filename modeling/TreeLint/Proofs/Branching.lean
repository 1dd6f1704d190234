import Mathlib.Data.List.SplitBy
import TreeLint.Proofs.Filling
import TreeLint.Proofs.Locality
import TreeLint.Proofs.Replanting

namespace TreeLint

namespace Outline

variable {α : Type}

theorem labelsOf_eq_flatten (ts : List (Outline α)) : labelsOf ts = (ts.map labels).flatten := by
  induction ts with
  | nil => rfl
  | cons t rest ih => rw [labelsOf, ih, List.map_cons, List.flatten_cons]

mutual

theorem map_parents {f : Nat → Nat} (t : Outline α) {index first : Nat} {around : Option Nat}
    (hf : ∀ i, f (index + i) = first + i) :
    (t.parents index around).map (Option.map f) = t.parents first (around.map f) := by
  match t with
  | mk a inner =>
    have hindex : (some index).map f = some first := congrArg some (hf 0)
    rw [parents, parents, List.map_cons, map_parentsOf inner fun i => ?_, hindex]
    rw [Nat.add_assoc, Nat.add_assoc, hf]

theorem map_parentsOf {f : Nat → Nat} (ts : List (Outline α)) {index first : Nat}
    {around : Option Nat} (hf : ∀ i, f (index + i) = first + i) :
    (parentsOf index around ts).map (Option.map f) = parentsOf first (around.map f) ts := by
  match ts with
  | [] => rfl
  | t :: rest =>
    rw [parentsOf, parentsOf, List.map_append, map_parents t hf, map_parentsOf rest fun i => ?_]
    rw [Nat.add_assoc, Nat.add_assoc, hf]

end

end Outline

namespace Node

mutual

theorem shape_plain (n : Node) : n.plain.shape = n.shape := by
  match n with
  | mk serial kind label children =>
    rw [plain, shape, shape, outline, outline, Outline.map, Outline.map, mapAll_outlines_plains]
    rfl

theorem mapAll_outlines_plains (ns : List Node) :
    Outline.mapAll (fun m : Node => (m.kind, m.label)) (outlines (plains ns)) =
      Outline.mapAll (fun m => (m.kind, m.label)) (outlines ns) := by
  match ns with
  | [] => rfl
  | n :: rest =>
    have hn := shape_plain n
    rw [shape, shape] at hn
    rw [plains, outlines, outlines, Outline.mapAll, Outline.mapAll, hn, mapAll_outlines_plains rest]

end

theorem map_shape_of_map_plain {ns : List Node} {m : Node} (h : ns.map plain = [m.plain]) :
    ns.map shape = [m.shape] := by
  have hshapes := congrArg (List.map shape) h
  simp only [List.map_map, Function.comp_def, shape_plain, List.map_cons, List.map_nil] at hshapes
  exact hshapes

end Node

def Row.moved (index : Nat) (row : Row) : Row :=
  { row with parent := row.parent.map fun p => if p = 0 then 0 else p + 1 - index }

namespace Document

def branches (rows : List Row) : List (List Row) :=
  rows.splitBy fun _ row => row.parent != some 0

def partsFrom (path : String) (root : Row) (index : Nat) : List (List Row) → List Document
  | [] => []
  | branch :: rest =>
    ⟨path, root :: branch.map (Row.moved index)⟩ ::
      partsFrom path root (index + branch.length) rest

def byBranch (d : Document) : List Document :=
  match d.rows with
  | [] => []
  | root :: rest => partsFrom d.path root 1 (branches rest)

open Outline

structure IsBranch (rows : List Row) : Prop where
  ne_nil : rows ≠ []
  head : ∀ row ∈ rows.head?, row.parent = some 0
  tail : ∀ row ∈ rows.tail, row.parent ≠ some 0

theorem isBranch_labels {t : Outline Row} {index : Nat} (hindex : 0 < index)
    (hps : t.labels.map Row.parent = t.parents index (some 0)) : IsBranch t.labels := by
  obtain ⟨row, inner⟩ := t
  simp only [labels, parents, List.map_cons, List.cons.injEq] at hps
  refine ⟨by simp [labels], by simpa [labels] using hps.1, ?_⟩
  intro other hother he
  have hmem : some 0 ∈ parentsOf (index + 1) (some index) inner := by
    rw [← hps.2, ← he]
    exact List.mem_map_of_mem hother
  refine not_mem_parentsOf_inside inner ?_ hmem
  intro q hq
  obtain rfl : 0 = q := Option.some.inj hq
  exact hindex

theorem isBranch_of_mem {ts : List (Outline Row)} {index : Nat} (hindex : 0 < index)
    (hps : (labelsOf ts).map Row.parent = parentsOf index (some 0) ts) :
    ∀ t ∈ ts, IsBranch t.labels := by
  induction ts generalizing index with
  | nil => simp
  | cons t rest ih =>
    rw [labelsOf, parentsOf, List.map_append] at hps
    obtain ⟨ht, hrest⟩ := List.append_inj hps (by simp [parents_length])
    rw [List.forall_mem_cons]
    exact ⟨isBranch_labels hindex ht, ih (Nat.lt_add_right _ hindex) hrest⟩

theorem branches_flatten {blocks : List (List Row)} (h : ∀ rows ∈ blocks, IsBranch rows) :
    branches blocks.flatten = blocks := by
  apply List.splitBy_flatten
  · intro hnil
    exact (h [] hnil).ne_nil rfl
  · intro rows hrows
    rw [List.isChain_iff_getElem]
    intro i hi
    simpa using (h rows hrows).tail _ (List.getElem_mem_tail rows (Nat.succ_ne_zero i) hi)
  · refine (List.pairwise_of_forall_mem_list ?_).isChain
    intro before hbefore rows hrows
    have hne := (h rows hrows).ne_nil
    refine ⟨(h before hbefore).ne_nil, hne, ?_⟩
    simpa using (h rows hrows).head _ (List.head_mem_head? hne)

theorem branches_labelsOf {ts : List (Outline Row)} {index : Nat} (hindex : 0 < index)
    (hps : (labelsOf ts).map Row.parent = parentsOf index (some 0) ts) :
    branches (labelsOf ts) = ts.map labels := by
  rw [labelsOf_eq_flatten, branches_flatten]
  intro rows hrows
  obtain ⟨t, ht, rfl⟩ := List.mem_map.mp hrows
  exact isBranch_of_mem hindex hps t ht

end Document

namespace Outline

open Document

mutual

theorem plain_grow_moved (t : Outline Row) (h : ∀ row ∈ t.labels, row.span ≠ none)
    (index offset base offset' base' : Nat) :
    (((t.map (Row.moved index)).fill offset).grow base).plain =
      ((t.fill offset').grow base').plain := by
  match t with
  | mk row inner =>
    obtain ⟨span, hspan⟩ := Option.ne_none_iff_exists'.mp (h row (by simp [labels]))
    have hinner := plain_growAll_moved inner
      (fun r hr => h r (List.mem_cons_of_mem _ hr)) index offset base offset' base'
    -- A text that is not given is made of those below, which agree by the induction.
    have htexts := congrArg (List.map Node.text) hinner
    simp only [List.map_map, Function.comp_def, Node.text_plain] at htexts
    simp only [map, fill, grow, Node.plain, Node.plains_eq_map, hinner, htexts]
    simp only [filled, label, Row.moved, hspan, Option.getD_some]

theorem plain_growAll_moved (ts : List (Outline Row)) (h : ∀ row ∈ labelsOf ts, row.span ≠ none)
    (index offset base offset' base' : Nat) :
    (growAll base (fillAll offset (mapAll (Row.moved index) ts))).map Node.plain =
      (growAll base' (fillAll offset' ts)).map Node.plain := by
  match ts with
  | [] => rfl
  | t :: rest =>
    simp only [mapAll, fillAll, growAll, List.map_cons]
    rw [plain_grow_moved t (fun r hr => h r (List.mem_append_left _ hr)) index offset _ offset' _,
      plain_growAll_moved rest (fun r hr => h r (List.mem_append_right _ hr)) index _ base _ base']

end

end Outline

namespace Document

open Outline

structure Houses (path : String) (root : Row) (part : Document) (n : Node) (inner : Outline Row) :
    Prop where
  path_eq : part.path = path
  outlines : Outlines part.rows (Outline.mk root [inner])
  spans : ∀ row ∈ inner.labels, ∃ s, row.span = some s ∧ IsSound s
  plain : ∀ offset base, ((inner.fill offset).grow base).plain = n.plain

theorem outlines_moved {root : Row} (hroot : root.parent = none) {t : Outline Row} {index : Nat}
    (hindex : 0 < index) (hps : t.labels.map Row.parent = t.parents index (some 0)) :
    Outlines (root :: t.labels.map (Row.moved index))
      (Outline.mk root [t.map (Row.moved index)]) where
  labels := by
    simp only [labels, labelsOf, labels_map, List.append_nil]
  parents := by
    have hmoved : Row.parent ∘ Row.moved index =
        Option.map (fun p => if p = 0 then 0 else p + 1 - index) ∘ Row.parent := rfl
    have hnumbers : ∀ i, (if index + i = 0 then 0 else index + i + 1 - index) = 1 + i := by
      intro i
      rw [if_neg (by omega)]
      omega
    simp only [parents, parentsOf, parents_map, List.append_nil, List.map_cons, List.map_map,
      hmoved, hroot]
    rw [← List.map_map, hps, map_parents t hnumbers]
    rfl

theorem houses_partsFrom (path : String) {root : Row} (hroot : root.parent = none)
    (ts : List (Outline Row)) (index offset base : Nat) (hindex : 0 < index)
    (hps : (labelsOf ts).map Row.parent = parentsOf index (some 0) ts)
    (hspans : ∀ row ∈ labelsOf ts, ∃ s, row.span = some s ∧ IsSound s) :
    List.Forall₂ (fun n part => ∃ inner, Houses path root part n inner)
      (growAll base (fillAll offset ts)) (partsFrom path root index (ts.map Outline.labels)) := by
  induction ts generalizing index offset base with
  | nil => exact .nil
  | cons t rest ih =>
    rw [labelsOf, parentsOf, List.map_append] at hps
    obtain ⟨ht, hrest⟩ := List.append_inj hps (by simp [parents_length])
    rw [labelsOf] at hspans
    have hgiven : ∀ row ∈ t.labels, ∃ s, row.span = some s ∧ IsSound s :=
      fun row hrow => hspans row (List.mem_append_left _ hrow)
    refine .cons ⟨t.map (Row.moved index), rfl, outlines_moved hroot hindex ht, ?_, ?_⟩
      (ih _ _ _ (Nat.lt_add_right _ hindex) hrest
        fun row hrow => hspans row (List.mem_append_right _ hrow))
    · rw [labels_map, List.forall_mem_map]
      exact hgiven
    · intro offset' base'
      apply plain_grow_moved
      intro row hrow hnone
      obtain ⟨s, hs, -⟩ := hgiven row hrow
      simp [hs] at hnone

variable {path : String} {root : Row} {part : Document} {n : Node} {inner : Outline Row}

theorem Houses.valid (h : Houses path root part n inner)
    (hroot : ∀ s, root.span = some s → IsSound s) : part.Valid where
  nonempty := by
    rw [← h.outlines.labels]
    simp [labels]
  ordered := by
    rw [checkOrder, ← h.outlines.parents]
    exact checkParents_parents _
  spans := by
    intro row hrow s hs
    rw [← h.outlines.labels, labels, labelsOf, labelsOf, List.append_nil] at hrow
    rcases List.mem_cons.mp hrow with rfl | hrow
    · exact hroot s hs
    · obtain ⟨given, hgiven, hsound⟩ := h.spans row hrow
      obtain rfl : given = s := Option.some.inj (hgiven.symm.trans hs)
      exact hsound

theorem Houses.root_eq (h : Houses path root part n inner) {t : Tree} (ht : Planted part t)
    (hpart : part.Valid) :
    t.root.kind = root.kind ∧ t.root.children.map Node.plain = [n.plain] := by
  rw [root_eq_grow hpart ht h.outlines]
  refine ⟨rfl, ?_⟩
  rw [children_grow, parts_fill, parts, fillAll, fillAll, growAll, growAll, List.map_cons, h.plain]
  rfl

theorem Planted.kind_root {d : Document} {t : Tree} (h : Planted d t) (hd : d.Valid) :
    d.rows.head?.map Row.kind = some t.root.kind := by
  obtain ⟨⟨root, ts⟩, hw⟩ := hd.exists_outlines
  have hrows : root :: labelsOf ts = d.rows := hw.labels
  rw [root_eq_grow hd h hw, ← hrows]
  rfl

theorem Planted.children_byBranch {d : Document} {t : Tree} (h : Planted d t) (hd : d.Valid)
    (hspans : ∀ row ∈ d.rows, row.span ≠ none) :
    List.Forall₂ (fun n part => part.Valid ∧ part.path = d.path ∧ ∃ t', Planted part t' ∧
      t'.root.kind = t.root.kind ∧ t'.root.children.map Node.plain = [n.plain])
      t.root.children d.byBranch := by
  obtain ⟨⟨root, ts⟩, hw⟩ := hd.exists_outlines
  have hrows : root :: labelsOf ts = d.rows := hw.labels
  have hparents := hw.parents
  rw [← hrows, Outline.parents, List.map_cons, List.cons.injEq] at hparents
  have hsound : ∀ row ∈ root :: labelsOf ts, ∃ s, row.span = some s ∧ IsSound s := by
    intro row hrow
    rw [hrows] at hrow
    obtain ⟨s, hs⟩ := Option.ne_none_iff_exists'.mp (hspans row hrow)
    exact ⟨s, hs, hd.spans row hrow s hs⟩
  have hbranches : d.byBranch = partsFrom d.path root 1 (ts.map Outline.labels) := by
    rw [byBranch, ← hrows, ← branches_labelsOf Nat.one_pos hparents.2.symm]
  have hroot := root_eq_grow hd h hw
  have hchildren : t.root.children = growAll 0 (fillAll 0 ts) := by
    rw [hroot]
    rfl
  rw [hbranches, hchildren]
  refine (houses_partsFrom d.path hparents.1.symm ts 1 0 0 Nat.one_pos hparents.2.symm
    fun row hrow => hsound row (List.mem_cons_of_mem _ hrow)).imp ?_
  rintro n part ⟨inner, hpart⟩
  have hvalid : part.Valid := by
    apply hpart.valid
    intro s hs
    obtain ⟨given, hgiven, hgivenSound⟩ := hsound root (by simp)
    obtain rfl : given = s := Option.some.inj (hgiven.symm.trans hs)
    exact hgivenSound
  obtain ⟨t', ht'⟩ := hvalid.planted
  obtain ⟨hkind, hplain⟩ := hpart.root_eq ht' hvalid
  refine ⟨hvalid, hpart.path_eq, t', ht', ?_, hplain⟩
  rw [hkind, hroot]
  rfl

end Document

end TreeLint
