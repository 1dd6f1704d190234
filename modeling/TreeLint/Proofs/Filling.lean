import TreeLint.Proofs.Loading
import TreeLint.Proofs.Parts

/-!
The spans of a listing by recursion on its outline: each part starts at the offset that the parts
before it leave, and whatever is around others reaches as far as those of them that give no span.
-/

namespace TreeLint

namespace Outline

open Document

mutual

def next (offset : Nat) : Outline Row → Nat
  | mk row parts =>
    nextOf (if parts.isEmpty && row.span.isNone then offset + textLength row + 1 else offset) parts

def nextOf (offset : Nat) : List (Outline Row) → Nat
  | [] => offset
  | t :: rest => nextOf (t.next offset) rest

end

mutual

def stop (offset : Nat) : Outline Row → Nat
  | mk row parts =>
    (stopsOf offset parts).foldl max (if parts.isEmpty then offset + textLength row else offset)

def stopsOf (offset : Nat) : List (Outline Row) → List Nat
  | [] => []
  | t :: rest =>
    (if t.label.span.isNone then [t.stop offset] else []) ++ stopsOf (t.next offset) rest

end

def filled (offset : Nat) (t : Outline Row) : Span :=
  t.label.span.getD ⟨offset, t.stop offset, 1, offset⟩

mutual

def fill (offset : Nat) : Outline Row → Outline (Row × Span)
  | mk row parts => mk (row, (mk row parts).filled offset) (fillAll offset parts)

def fillAll (offset : Nat) : List (Outline Row) → List (Outline (Row × Span))
  | [] => []
  | t :: rest => t.fill offset :: fillAll (t.next offset) rest

end

theorem label_fill (offset : Nat) (t : Outline Row) :
    (t.fill offset).label = (t.label, t.filled offset) := by
  cases t
  rfl

theorem parts_fill (offset : Nat) (t : Outline Row) :
    (t.fill offset).parts = fillAll offset t.parts := by
  cases t
  rfl

mutual

theorem map_fst_labels_fill (offset : Nat) (t : Outline Row) :
    (t.fill offset).labels.map Prod.fst = t.labels := by
  match t with
  | mk row parts =>
    rw [fill, labels, labels, List.map_cons, map_fst_labelsOf_fillAll offset parts]

theorem map_fst_labelsOf_fillAll (offset : Nat) (ts : List (Outline Row)) :
    (labelsOf (fillAll offset ts)).map Prod.fst = labelsOf ts := by
  match ts with
  | [] => rfl
  | t :: rest =>
    rw [fillAll, labelsOf, labelsOf, List.map_append, map_fst_labels_fill offset t,
      map_fst_labelsOf_fillAll _ rest]

end

theorem length_labels_fill (offset : Nat) (t : Outline Row) :
    (t.fill offset).labels.length = t.labels.length := by
  rw [← map_fst_labels_fill offset t, List.length_map]

mutual

theorem parents_fill (offset index : Nat) (around : Option Nat) (t : Outline Row) :
    (t.fill offset).parents index around = t.parents index around := by
  match t with
  | mk row parts => rw [fill, parents, parents, parentsOf_fillAll offset _ _ parts]

theorem parentsOf_fillAll (offset index : Nat) (around : Option Nat) (ts : List (Outline Row)) :
    parentsOf index around (fillAll offset ts) = parentsOf index around ts := by
  match ts with
  | [] => rfl
  | t :: rest =>
    rw [fillAll, parentsOf, parentsOf, parents_fill offset index around t,
      parentsOf_fillAll _ _ around rest, length_labels_fill]

end

def pending (around : Option Nat) (offset : Nat) (t : Outline Row) : List (Option Nat × Nat) :=
  if t.label.span.isNone then [(around, t.stop offset)] else []

theorem map_stopsOf_cons (around : Option Nat) (offset : Nat) (t : Outline Row)
    (rest : List (Outline Row)) :
    (stopsOf offset (t :: rest)).map (around, ·) =
      t.pending around offset ++ (stopsOf (t.next offset) rest).map (around, ·) := by
  rw [stopsOf, List.map_append, pending]
  split <;> rfl

end Outline

namespace Document

open Outline

def Closes (index : Nat) (rows : List Row) : Prop :=
  ∀ row q, rows.head? = some row → row.parent = some q → q < index

theorem isLeaf_eq {index : Nat} {parts : List (Outline Row)} {more : List Row}
    (hparts : (labelsOf parts).map Row.parent = parentsOf (index + 1) (some index) parts)
    (hmore : Closes index more) : isLeaf index (labelsOf parts ++ more) = parts.isEmpty := by
  cases parts with
  | nil =>
    cases more with
    | nil => rfl
    | cons row more =>
      have hne : row.parent ≠ some index := by
        intro he
        have := hmore row index rfl he
        omega
      simpa [isLeaf, labelsOf] using hne
  | cons t rest =>
    obtain ⟨row, inner⟩ := t
    have hrow : row.parent = some index := by
      simp only [labelsOf, labels, parentsOf, parents, List.cons_append, List.map_cons,
        List.cons.injEq] at hparts
      exact hparts.1
    simp [isLeaf, labelsOf, labels, hrow]

theorem closes_labelsOf {index first : Nat} {around : Option Nat} {ts : List (Outline Row)}
    {more : List Row} (hps : (labelsOf ts).map Row.parent = parentsOf first around ts)
    (haround : ∀ q, around = some q → q < index) (hmore : Closes index more) :
    Closes index (labelsOf ts ++ more) := by
  cases ts with
  | nil => exact hmore
  | cons t rest =>
    obtain ⟨front, inner⟩ := t
    simp only [labelsOf, labels, parentsOf, parents, List.cons_append, List.map_cons,
      List.cons.injEq] at hps
    intro row q hrow hq
    obtain rfl : front = row := by simpa [labelsOf, labels] using hrow
    exact haround q (hps.1.symm.trans hq)

mutual

theorem fillSpans_append (t : Outline Row) (index offset : Nat) (around : Option Nat)
    (more : List Row) (hps : t.labels.map Row.parent = t.parents index around)
    (hmore : Closes index more)
    (hwait : ∀ e ∈ (fillSpans (index + t.labels.length) (t.next offset) more).2,
      ∀ q, e.1 = some q → q < index) :
    fillSpans index offset (t.labels ++ more) =
      ((t.fill offset).labels.map Prod.snd ++
          (fillSpans (index + t.labels.length) (t.next offset) more).1,
        t.pending around offset ++
          (fillSpans (index + t.labels.length) (t.next offset) more).2) := by
  match t with
  | .mk row parts =>
    simp only [labels, parents, List.map_cons, List.cons.injEq] at hps
    obtain ⟨hrow, hparts⟩ := hps
    have hlen : index + (Outline.mk row parts).labels.length =
        index + 1 + (labelsOf parts).length := by
      simp only [labels, List.length_cons]
      omega
    rw [hlen] at hwait ⊢
    let start := if parts.isEmpty && row.span.isNone then offset + textLength row + 1 else offset
    have hnext : (Outline.mk row parts).next offset = nextOf start parts := rfl
    rw [hnext] at hwait ⊢
    -- Only a leaf moves the offset on, and a leaf has no parts that would start there.
    have hstart : fillAll start parts = fillAll offset parts ∧
        stopsOf start parts = stopsOf offset parts := by
      cases parts with
      | nil => exact ⟨rfl, rfl⟩
      | cons _ _ => exact ⟨rfl, rfl⟩
    have hbelow := fillSpans_appendAll parts (index + 1) start (some index) more hparts (by simp)
      (fun row q hr hq => Nat.lt_succ_of_lt (hmore row q hr hq))
      (fun e he q hq => Nat.lt_succ_of_lt (hwait e he q hq))
    rw [hstart.1, hstart.2] at hbelow
    obtain ⟨htake, hdrop⟩ := inside_append (stopsOf offset parts) hwait
    rw [labels, List.cons_append, fillSpans]
    cases hspan : row.span with
    | some span =>
      have hoffset : start = offset := by simp [start, hspan]
      rw [hoffset] at hbelow hdrop ⊢
      simp only [hbelow, hdrop]
      simp [fill, filled, label, pending, hspan, labels]
    | none =>
      have hleaf := isLeaf_eq hparts hmore
      have hoffset : (if parts.isEmpty then (if parts.isEmpty then offset + textLength row
          else offset) + 1 else offset) = start := by
        simp only [start, hspan, Option.isNone_none, Bool.and_true]
        split <;> rfl
      simp only [hleaf, hoffset, hbelow, htake, hdrop, List.foldl_map]
      simp [fill, filled, label, pending, stop, hspan, labels, hrow]

theorem fillSpans_appendAll (ts : List (Outline Row)) (index offset : Nat) (around : Option Nat)
    (more : List Row) (hps : (labelsOf ts).map Row.parent = parentsOf index around ts)
    (haround : ∀ q, around = some q → q < index) (hmore : Closes index more)
    (hwait : ∀ e ∈ (fillSpans (index + (labelsOf ts).length) (nextOf offset ts) more).2,
      ∀ q, e.1 = some q → q < index) :
    fillSpans index offset (labelsOf ts ++ more) =
      ((labelsOf (fillAll offset ts)).map Prod.snd ++
          (fillSpans (index + (labelsOf ts).length) (nextOf offset ts) more).1,
        (stopsOf offset ts).map (around, ·) ++
          (fillSpans (index + (labelsOf ts).length) (nextOf offset ts) more).2) := by
  match ts with
  | [] => simp [labelsOf, fillAll, stopsOf, nextOf]
  | t :: rest =>
    rw [labelsOf, parentsOf, List.map_append] at hps
    obtain ⟨ht, hrest⟩ := List.append_inj hps (by simp [parents_length])
    have hlen : index + (labelsOf (t :: rest)).length =
        index + t.labels.length + (labelsOf rest).length := by
      rw [labelsOf, List.length_append, Nat.add_assoc]
    rw [hlen, nextOf] at hwait ⊢
    have hlater := fillSpans_appendAll rest (index + t.labels.length) (t.next offset) around more
      hrest (fun q hq => Nat.lt_add_right _ (haround q hq))
      (fun row q hr hq => Nat.lt_add_right _ (hmore row q hr hq))
      (fun e he q hq => Nat.lt_add_right _ (hwait e he q hq))
    have hfirst := fillSpans_append t index offset around (labelsOf rest ++ more) ht
      (closes_labelsOf hrest haround hmore)
      (by
        rw [hlater]
        intro e he q hq
        rcases List.mem_append.mp he with he | he
        · obtain ⟨stop, -, rfl⟩ := List.mem_map.mp he
          exact haround q hq
        · exact hwait e he q hq)
    rw [labelsOf, List.append_assoc, hfirst, hlater, map_stopsOf_cons, fillAll, labelsOf,
      List.map_append, List.append_assoc, List.append_assoc]

end

structure Outlines (rows : List Row) (w : Outline Row) : Prop where
  labels : w.labels = rows
  parents : w.parents 0 none = rows.map Row.parent

theorem Valid.exists_outlines {d : Document} (h : d.Valid) : ∃ w, Outlines d.rows w := by
  obtain ⟨w, hlabels, hparents⟩ :=
    exists_outline d.rows (by simpa using h.nonempty) (by simp) h.ordered
  exact ⟨w, hlabels, hparents⟩

namespace Outlines

variable {rows : List Row} {w : Outline Row}

theorem label_at (h : Outlines rows w) {i : Nat} {v : Outline Row} (hv : w.subs[i]? = some v) :
    rows[i]? = some v.label := by
  rw [← h.labels, ← map_label_subs, List.getElem?_map, hv]
  rfl

theorem parts_eq_nil_iff (h : Outlines rows w) {i : Nat} {v : Outline Row}
    (hv : w.subs[i]? = some v) : v.parts = [] ↔ some i ∉ rows.map Row.parent := by
  constructor
  · intro hnil hmem
    obtain ⟨j, hj⟩ := List.getElem?_of_mem hmem
    have hlt := (List.getElem?_eq_some_iff.mp hj).1
    rw [List.length_map, ← h.labels, ← length_subs] at hlt
    rw [← h.parents] at hj
    have hpart := mem_parts_of_parent hv (List.getElem?_eq_getElem hlt) hj
    simp [hnil] at hpart
  · intro hnot
    rw [List.eq_nil_iff_forall_not_mem]
    intro part hpart
    obtain ⟨j, -, hparent⟩ := exists_position w 0 none hv hpart
    rw [h.parents, Nat.zero_add] at hparent
    exact hnot (List.mem_of_getElem? hparent)

end Outlines

theorem Outlines.spans_eq {d : Document} {w : Outline Row} (h : Outlines d.rows w) :
    d.spans = (w.fill 0).labels.map Prod.snd := by
  have hfill := fillSpans_append w 0 0 none [] (by rw [h.labels, h.parents]) (by simp [Closes])
    (by simp [fillSpans])
  rw [List.append_nil, h.labels] at hfill
  simp [spans, hfill, fillSpans]

theorem Outlines.zip_spans {d : Document} {w : Outline Row} (h : Outlines d.rows w) :
    (w.fill 0).labels = d.rows.zip d.spans := by
  rw [h.spans_eq, ← h.labels, ← map_fst_labels_fill 0 w]
  exact List.zip_of_prod rfl rfl

theorem root_eq_grow {d : Document} (hd : d.Valid) {t : Tree} (h : Planted d t) {w : Outline Row}
    (hw : Outlines d.rows w) : t.root = (w.fill 0).grow 0 := by
  obtain ⟨o, hlabels, hparents, g, hplant, -⟩ := exists_plant hd .empty
  obtain rfl : o = w.fill 0 := by
    apply eq_of_parents o (w.fill 0) (hlabels.trans hw.zip_spans.symm)
    rw [hparents, parents_fill, hw.parents]
  have hwaiting := h.waiting hd
  rw [hplant] at hwaiting
  have hdraft : ((w.fill 0).grow 0).draft = t.root.draft := by
    simpa [Forest.empty, Forest.size] using hwaiting
  have hsettle := congrArg Draft.settle hdraft
  rw [Node.settle_draft, Node.settle_draft] at hsettle
  exact (Except.ok.inj hsettle).symm

theorem eq_grow {d : Document} (hd : d.Valid) {t : Tree} (h : Planted d t) {w : Outline Row}
    (hw : Outlines d.rows w) : t = ⟨(w.fill 0).grow 0, d.path, d.rows.length⟩ := by
  rw [← root_eq_grow hd h hw, ← h.path, ← h.count]

end Document

namespace Outline

theorem span_grow (base : Nat) (u : Outline (Row × Span)) : (u.grow base).span = u.label.2 := by
  obtain ⟨⟨row, span⟩, inner⟩ := u
  rfl

theorem children_grow (base : Nat) (u : Outline (Row × Span)) :
    (u.grow base).children = growAll base u.parts := by
  obtain ⟨⟨row, span⟩, inner⟩ := u
  rfl

theorem map_span_growAll (base : Nat) (us : List (Outline (Row × Span))) :
    (growAll base us).map Node.span = us.map (·.label.2) := by
  induction us with
  | nil => rfl
  | cons u rest ih => rw [growAll, List.map_cons, List.map_cons, span_grow, ih]

def Grows (u : Outline (Row × Span)) (n : Node) : Prop :=
  ∃ base, n = u.grow base

mutual

theorem grows_grow (base : Nat) (u : Outline (Row × Span)) :
    List.Forall₂ Grows u.subs (u.grow base).nodes := by
  match u with
  | mk (row, span) inner =>
    rw [subs, grow, Node.nodes_mk]
    exact .cons ⟨base, rfl⟩ (grows_growAll base inner)

theorem grows_growAll (base : Nat) (us : List (Outline (Row × Span))) :
    List.Forall₂ Grows (subsOf us) ((growAll base us).flatMap Node.nodes) := by
  match us with
  | [] => exact .nil
  | u :: rest =>
    rw [subsOf, growAll, List.flatMap_cons]
    exact List.rel_append (grows_grow _ u) (grows_growAll base rest)

end

mutual

theorem exists_fill_of_mem_subs (offset : Nat) (t : Outline Row) {u : Outline (Row × Span)}
    (hu : u ∈ (t.fill offset).subs) : ∃ v ∈ t.subs, ∃ start, u = v.fill start := by
  match t with
  | mk row inner =>
    rw [fill, subs] at hu
    rcases List.mem_cons.mp hu with rfl | hu
    · exact ⟨mk row inner, mem_subs_self _, offset, rfl⟩
    · obtain ⟨v, hv, hfill⟩ := exists_fill_of_mem_subsOf offset inner hu
      exact ⟨v, mem_subs_iff.mpr (.inr hv), hfill⟩

theorem exists_fill_of_mem_subsOf (offset : Nat) (ts : List (Outline Row))
    {u : Outline (Row × Span)} (hu : u ∈ subsOf (fillAll offset ts)) :
    ∃ v ∈ subsOf ts, ∃ start, u = v.fill start := by
  match ts with
  | [] => simp [fillAll, subsOf] at hu
  | t :: rest =>
    rw [fillAll, subsOf] at hu
    rcases List.mem_append.mp hu with hu | hu
    · obtain ⟨v, hv, hfill⟩ := exists_fill_of_mem_subs offset t hu
      exact ⟨v, List.mem_append_left _ hv, hfill⟩
    · obtain ⟨v, hv, hfill⟩ := exists_fill_of_mem_subsOf _ rest hu
      exact ⟨v, List.mem_append_right _ hv, hfill⟩

end

end Outline

namespace Document

open Outline

theorem Planted.grows {d : Document} {t : Tree} (h : Planted d t) (hd : d.Valid) {w : Outline Row}
    (hw : Outlines d.rows w) :
    List.Forall₂ (fun e u => u.label.1 = e.2 ∧ Grows u e.1.node) (t.walk.zip d.rows)
      (w.fill 0).subs := by
  have hlabels : (w.fill 0).subs.map (·.label.1) = d.rows := by
    have hcomp : (fun u : Outline (Row × Span) => u.label.1) = Prod.fst ∘ label := rfl
    rw [hcomp, ← List.map_map, map_label_subs, map_fst_labels_fill, hw.labels]
  have hnodes : List.Forall₂ Grows (w.fill 0).subs (t.walk.map Site.node) := by
    rw [Planted.map_node_walk, root_eq_grow hd h hw]
    exact grows_grow 0 _
  have hlen : t.walk.length = (w.fill 0).subs.length := by
    rw [hnodes.length_eq, List.length_map]
  rw [forall₂_iff_getElem?]
  refine ⟨by rw [List.length_zip, h.length_walk, Nat.min_self, ← hlen, h.length_walk], ?_⟩
  rintro i ⟨s, row⟩ u he hu
  obtain ⟨hs, hrow⟩ := List.getElem?_zip_eq_some.mp he
  constructor
  · have hat : ((w.fill 0).subs.map (·.label.1))[i]? = some row := by rw [hlabels, hrow]
    simpa [hu] using hat
  · exact (forall₂_iff_getElem?.mp hnodes).2 i u s.node hu (by rw [List.getElem?_map, hs]; rfl)

theorem Planted.exists_sub {d : Document} {t : Tree} (h : Planted d t) (hd : d.Valid)
    {w : Outline Row} (hw : Outlines d.rows w) {i : Nat} {s : Site} {row : Row}
    (hs : t.walk[i]? = some s) (hrow : d.rows[i]? = some row) :
    ∃ u, (w.fill 0).subs[i]? = some u ∧ u.label.1 = row ∧ Grows u s.node := by
  have hgrows := forall₂_iff_getElem?.mp (h.grows hd hw)
  have hzip : (t.walk.zip d.rows)[i]? = some (s, row) := List.getElem?_zip_eq_some.mpr ⟨hs, hrow⟩
  have hlt := (List.getElem?_eq_some_iff.mp hzip).1
  rw [hgrows.1] at hlt
  have hu := List.getElem?_eq_getElem hlt
  exact ⟨_, hu, hgrows.2 i (s, row) _ hzip hu⟩

end Document

end TreeLint
