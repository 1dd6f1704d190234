import Mathlib.Algebra.GroupWithZero.Nat
import TreeLint.Proofs.Filling

namespace TreeLint

theorem foldl_max_le_iff {own bound : Nat} {stops : List Nat} :
    stops.foldl max own ≤ bound ↔ own ≤ bound ∧ ∀ stop ∈ stops, stop ≤ bound := by
  induction stops generalizing own with
  | nil => simp
  | cons stop rest ih =>
    rw [List.foldl_cons, ih, Nat.max_le, List.forall_mem_cons, and_assoc]

namespace Outline

open Document

mutual

theorem le_next (offset : Nat) (t : Outline Row) : offset ≤ t.next offset := by
  match t with
  | mk row inner =>
    refine Nat.le_trans ?_ (le_nextOf _ inner)
    split <;> omega

theorem le_nextOf (offset : Nat) (ts : List (Outline Row)) : offset ≤ nextOf offset ts := by
  match ts with
  | [] => exact Nat.le_refl offset
  | t :: rest => exact Nat.le_trans (le_next offset t) (le_nextOf _ rest)

end

theorem le_stop (offset : Nat) (t : Outline Row) : offset ≤ t.stop offset := by
  obtain ⟨row, inner⟩ := t
  refine Nat.le_trans ?_ (foldl_max_le_iff.mp (Nat.le_refl _)).1
  split <;> omega

mutual

theorem stop_le_next (offset : Nat) (t : Outline Row) (h : t.label.span = none) :
    t.stop offset ≤ t.next offset := by
  match t with
  | mk row inner =>
    have hrow : row.span = none := h
    rw [stop, next, hrow, foldl_max_le_iff]
    cases inner with
    | nil => simp [stopsOf, nextOf]
    | cons u rest =>
      simp only [List.isEmpty_cons, Bool.false_and, Bool.false_eq_true, if_false]
      exact ⟨le_nextOf offset _, fun stop hstop => le_nextOf_of_mem_stopsOf offset _ hstop⟩

theorem le_nextOf_of_mem_stopsOf (offset : Nat) (ts : List (Outline Row)) {stop : Nat}
    (h : stop ∈ stopsOf offset ts) : stop ≤ nextOf offset ts := by
  match ts with
  | [] => simp [stopsOf] at h
  | t :: rest =>
    rw [stopsOf] at h
    rcases List.mem_append.mp h with h | h
    · cases hspan : t.label.span with
      | some span => simp [hspan] at h
      | none =>
        obtain rfl : stop = t.stop offset := by simpa [hspan] using h
        exact Nat.le_trans (stop_le_next offset t hspan) (le_nextOf _ rest)
    · exact le_nextOf_of_mem_stopsOf _ rest h

end

theorem filled_of_none {offset : Nat} {t : Outline Row} (h : t.label.span = none) :
    t.filled offset = ⟨offset, t.stop offset, 1, offset⟩ := by
  rw [filled, h, Option.getD_none]

theorem mem_fillAll {offset : Nat} {ts : List (Outline Row)} {u : Outline (Row × Span)}
    (h : u ∈ fillAll offset ts) :
    ∃ t ∈ ts, ∃ start, u = t.fill start ∧ offset ≤ start ∧
      (t.label.span = none → t.stop start ∈ stopsOf offset ts) := by
  induction ts generalizing offset with
  | nil => simp [fillAll] at h
  | cons t rest ih =>
    rcases List.mem_cons.mp h with rfl | h
    · refine ⟨t, by simp, offset, rfl, Nat.le_refl offset, ?_⟩
      intro hspan
      simp [stopsOf, hspan]
    · obtain ⟨v, hv, start, rfl, hle, hstop⟩ := ih h
      refine ⟨v, List.mem_cons_of_mem _ hv, start, rfl, Nat.le_trans (le_next offset t) hle, ?_⟩
      intro hspan
      exact List.mem_append_right _ (hstop hspan)

theorem map_row_fillAll (offset : Nat) (ts : List (Outline Row)) :
    (fillAll offset ts).map (·.label.1) = ts.map label := by
  induction ts generalizing offset with
  | nil => rfl
  | cons t rest ih => rw [fillAll, List.map_cons, List.map_cons, ih, label_fill]

theorem within_of_mem_parts {offset : Nat} {t : Outline Row} (ht : t.label.span = none)
    {u : Outline (Row × Span)} (hu : u ∈ (t.fill offset).parts) (hspan : u.label.1.span = none) :
    (t.fill offset).label.2.start ≤ u.label.2.start ∧
      u.label.2.stop ≤ (t.fill offset).label.2.stop := by
  rw [parts_fill] at hu
  obtain ⟨v, -, start, rfl, hle, hstop⟩ := mem_fillAll hu
  rw [label_fill] at hspan
  rw [label_fill, label_fill, filled_of_none ht, filled_of_none hspan]
  refine ⟨Int.ofNat_le.mpr hle, Int.ofNat_le.mpr ?_⟩
  obtain ⟨row, inner⟩ := t
  exact (foldl_max_le_iff.mp (Nat.le_refl _)).2 _ (hstop hspan)

theorem stop_getLast {offset own : Nat} {ts : List (Outline Row)} (hne : ts ≠ [])
    (hspans : ∀ t ∈ ts, t.label.span = none) (hown : own ≤ offset) :
    ∃ u, (fillAll offset ts).getLast? = some u ∧
      u.label.2.stop = ((stopsOf offset ts).foldl max own : Nat) := by
  induction ts generalizing offset own with
  | nil => exact absurd rfl hne
  | cons t rest ih =>
    have ht := hspans t (by simp)
    have hstops : stopsOf offset (t :: rest) = t.stop offset :: stopsOf (t.next offset) rest := by
      simp [stopsOf, ht]
    have hmax : max own (t.stop offset) = t.stop offset :=
      Nat.max_eq_right (Nat.le_trans hown (le_stop offset t))
    rw [hstops, List.foldl_cons, hmax]
    cases rest with
    | nil =>
      refine ⟨t.fill offset, rfl, ?_⟩
      rw [label_fill, filled_of_none ht]
      rfl
    | cons t' rest =>
      exact ih (by simp) (fun v hv => hspans v (List.mem_cons_of_mem _ hv))
        (stop_le_next offset t ht)

theorem spans_of_parts {offset : Nat} {t : Outline Row} (ht : t.label.span = none)
    (hne : t.parts ≠ []) (hspans : ∀ v ∈ t.parts, v.label.span = none) :
    ∃ first last, (t.fill offset).parts.head? = some first ∧
      (t.fill offset).parts.getLast? = some last ∧
      (t.fill offset).label.2 =
        ⟨first.label.2.start, last.label.2.stop, first.label.2.line, first.label.2.column⟩ := by
  obtain ⟨last, hlast, hstop⟩ := stop_getLast hne hspans (Nat.le_refl offset)
  obtain ⟨row, inner⟩ := t
  cases inner with
  | nil => exact absurd rfl hne
  | cons v rest =>
    have hv := hspans v (by simp [parts])
    refine ⟨v.fill offset, last, rfl, hlast, ?_⟩
    rw [label_fill, label_fill, filled_of_none ht, filled_of_none hv, hstop]
    rfl

def intervals (start : Int) : List Nat → List (Int × Int)
  | [] => []
  | n :: rest => (start, start + n) :: intervals (start + n + 1) rest

theorem intervals_append (start : Int) (ms ns : List Nat) :
    intervals start (ms ++ ns) =
      intervals start ms ++ intervals (start + (ms.sum + ms.length : Nat)) ns := by
  induction ms generalizing start with
  | nil => simp [intervals]
  | cons m rest ih =>
    have hstart : start + m + 1 + (rest.sum + rest.length : Nat) =
        start + ((m :: rest).sum + (m :: rest).length : Nat) := by
      simp only [List.sum_cons, List.length_cons]
      omega
    rw [List.cons_append, intervals, intervals, ih, hstart, List.cons_append]

def isOpen (u : Outline (Row × Span)) : Bool :=
  u.label.1.span.isNone && u.parts.isEmpty

def lengths (us : List (Outline (Row × Span))) : List Nat :=
  (us.filter isOpen).map fun u => textLength u.label.1

theorem lengths_append (us vs : List (Outline (Row × Span))) :
    lengths (us ++ vs) = lengths us ++ lengths vs := by
  simp [lengths]

structure Abuts (offset free : Nat) (us : List (Outline (Row × Span))) : Prop where
  intervals : (us.filter isOpen).map (fun u => (u.label.2.start, u.label.2.stop)) =
    Outline.intervals offset (lengths us)
  free : free = offset + ((lengths us).sum + (lengths us).length)

theorem Abuts.append {offset middle free : Nat} {us vs : List (Outline (Row × Span))}
    (hus : Abuts offset middle us) (hvs : Abuts middle free vs) : Abuts offset free (us ++ vs) where
  intervals := by
    rw [List.filter_append, List.map_append, hus.intervals, hvs.intervals, lengths_append,
      intervals_append, hus.free]
    rfl
  free := by
    rw [hvs.free, hus.free, lengths_append, List.sum_append, List.length_append]
    omega

mutual

theorem abuts_fill (offset : Nat) (t : Outline Row) :
    Abuts offset (t.next offset) (t.fill offset).subs := by
  match t with
  | mk row inner =>
    rw [fill, subs, next]
    cases hopen : inner.isEmpty && row.span.isNone with
    | true =>
      obtain ⟨hinner, hspan⟩ := Bool.and_eq_true_iff.mp hopen
      obtain rfl := List.isEmpty_iff.mp hinner
      obtain hspan := Option.isNone_iff_eq_none.mp hspan
      have hfilled : (mk row []).filled offset =
          ⟨offset, (offset + textLength row : Nat), 1, offset⟩ := filled_of_none hspan
      constructor
      · simp [fillAll, subsOf, isOpen, lengths, label, parts, hspan, hfilled, intervals]
      · simp [fillAll, subsOf, isOpen, lengths, label, parts, hspan, nextOf]
        omega
    | false =>
      have hself :
          isOpen (mk (row, (mk row inner).filled offset) (fillAll offset inner)) = false := by
        cases inner with
        | nil => simpa [isOpen, label, parts, fillAll] using hopen
        | cons v rest => simp [isOpen, parts, fillAll]
      have hinner := abuts_fillAll offset inner
      refine ⟨?_, ?_⟩
      · simpa [lengths, hself] using hinner.intervals
      · simpa [lengths, hself] using hinner.free

theorem abuts_fillAll (offset : Nat) (ts : List (Outline Row)) :
    Abuts offset (nextOf offset ts) (subsOf (fillAll offset ts)) := by
  match ts with
  | [] => exact ⟨rfl, rfl⟩
  | t :: rest =>
    rw [fillAll, subsOf, nextOf]
    exact (abuts_fill offset t).append (abuts_fillAll _ rest)

end

end Outline

namespace Document

open Outline

def openLeaves (d : Document) (t : Tree) : List Node :=
  ((t.walk.zip d.rows).filter fun e => e.2.span.isNone && e.1.node.children.isEmpty).map (·.1.node)

theorem map_filter_eq_of_forall₂ {α β γ : Type} {R : α → β → Prop} {p : α → Bool} {q : β → Bool}
    {f : α → γ} {g : β → γ} {xs : List α} {ys : List β} (h : List.Forall₂ R xs ys)
    (hpq : ∀ x y, R x y → p x = q y) (hfg : ∀ x y, R x y → q y → f x = g y) :
    (xs.filter p).map f = (ys.filter q).map g := by
  induction h with
  | nil => rfl
  | @cons x y _ _ hxy _ ih =>
    have hx := hpq x y hxy
    cases hy : q y with
    | false => simp [hx, hy, ih]
    | true => simp [hx, hy, ih, hfg x y hxy hy]

theorem isEmpty_growAll (base : Nat) (us : List (Outline (Row × Span))) :
    (growAll base us).isEmpty = us.isEmpty := by
  cases us <;> rfl

theorem text_of_open {u : Outline (Row × Span)} (h : isOpen u) (base : Nat) :
    (u.grow base).text.length = textLength u.label.1 := by
  obtain ⟨⟨row, span⟩, inner⟩ := u
  obtain rfl : inner = [] := by simpa [isOpen, parts] using (Bool.and_eq_true_iff.mp h).2
  rfl

theorem map_openLeaves {d : Document} {t : Tree} (h : Planted d t) (hd : d.Valid) {w : Outline Row}
    (hw : Outlines d.rows w) {α : Type} (f : Node → α) (g : Outline (Row × Span) → α)
    (hfg : ∀ u base, isOpen u → f (u.grow base) = g u) :
    (d.openLeaves t).map f = ((w.fill 0).subs.filter isOpen).map g := by
  rw [openLeaves, List.map_map]
  apply map_filter_eq_of_forall₂ (h.grows hd hw)
  · rintro ⟨s, row⟩ u ⟨hrow, base, hnode⟩
    simp only at hrow hnode ⊢
    rw [hnode, children_grow, isEmpty_growAll, isOpen, hrow]
  · rintro ⟨s, row⟩ u ⟨hrow, base, hnode⟩ hopen
    simp only [Function.comp_apply] at hnode ⊢
    rw [hnode, hfg u base hopen]

theorem intervals_openLeaves {d : Document} {t : Tree} (h : Planted d t) (hd : d.Valid) :
    (d.openLeaves t).map (fun n => (n.span.start, n.span.stop)) =
      intervals 0 ((d.openLeaves t).map (·.text.length)) := by
  obtain ⟨w, hw⟩ := hd.exists_outlines
  rw [map_openLeaves h hd hw (fun n => n.text.length) (fun u => textLength u.label.1)
      fun u base hopen => text_of_open hopen base,
    map_openLeaves h hd hw _ (fun u => (u.label.2.start, u.label.2.stop))
      fun u base _ => by rw [span_grow]]
  exact (abuts_fill 0 w).intervals

theorem within_parent {d : Document} {t : Tree} (h : Planted d t) (hd : d.Valid) {i p : Nat}
    {s r : Site} {row around : Row} (hs : t.walk[i]? = some s) (hrow : d.rows[i]? = some row)
    (hspan : row.span = none) (hparent : row.parent = some p) (hr : t.walk[p]? = some r)
    (haround : d.rows[p]? = some around) (hspan' : around.span = none) :
    r.node.span.start ≤ s.node.span.start ∧ s.node.span.stop ≤ r.node.span.stop := by
  obtain ⟨w, hw⟩ := hd.exists_outlines
  obtain ⟨u, hu, rfl, base, hnode⟩ := h.exists_sub hd hw hs hrow
  obtain ⟨v, hv, rfl, base', hnode'⟩ := h.exists_sub hd hw hr haround
  have hat : ((w.fill 0).parents 0 none)[i]? = some (some p) := by
    rw [parents_fill, hw.parents, List.getElem?_map, hrow, Option.map_some, hparent]
  have hmem : u ∈ v.parts := mem_parts_of_parent hv hu hat
  obtain ⟨x, -, start, rfl⟩ := exists_fill_of_mem_subs 0 w (List.mem_of_getElem? hv)
  rw [hnode, hnode', span_grow, span_grow]
  exact within_of_mem_parts (by simpa [label_fill] using hspan') hmem hspan

theorem row_of_mem_parts {d : Document} {w : Outline Row} (hw : Outlines d.rows w) {i : Nat}
    {u v : Outline (Row × Span)} (hu : (w.fill 0).subs[i]? = some u) (hv : v ∈ u.parts) :
    v.label.1 ∈ d.rows ∧ v.label.1.parent = some i := by
  obtain ⟨j, hj, hparent⟩ := exists_position (w.fill 0) 0 none hu hv
  rw [parents_fill, hw.parents, List.getElem?_map, Nat.zero_add] at hparent
  obtain ⟨part, hpart, hat⟩ := Option.map_eq_some_iff.mp hparent
  have hlabel : ((w.fill 0).subs.map label)[j]? = some v.label := by
    rw [List.getElem?_map, hj]
    rfl
  rw [map_label_subs, hw.zip_spans] at hlabel
  obtain ⟨hfst, -⟩ := List.getElem?_zip_eq_some.mp hlabel
  obtain rfl : part = v.label.1 := Option.some.inj (hpart.symm.trans hfst)
  exact ⟨List.mem_of_getElem? hpart, hat⟩

theorem around_parts {d : Document} {t : Tree} (h : Planted d t) (hd : d.Valid) {i : Nat}
    {s : Site} {row : Row} (hs : t.walk[i]? = some s) (hrow : d.rows[i]? = some row)
    (hspan : row.span = none) (hne : s.node.children ≠ [])
    (hparts : ∀ part ∈ d.rows, part.parent = some i → part.span = none) :
    ∃ first last, s.node.children.head? = some first ∧ s.node.children.getLast? = some last ∧
      s.node.span = ⟨first.span.start, last.span.stop, first.span.line, first.span.column⟩ := by
  obtain ⟨w, hw⟩ := hd.exists_outlines
  obtain ⟨u, hu, rfl, base, hnode⟩ := h.exists_sub hd hw hs hrow
  have hspans : ∀ v ∈ u.parts, v.label.1.span = none := by
    intro v hv
    obtain ⟨hmem, hparent⟩ := row_of_mem_parts hw hu hv
    exact hparts _ hmem hparent
  obtain ⟨x, -, start, rfl⟩ := exists_fill_of_mem_subs 0 w (List.mem_of_getElem? hu)
  have hne' : x.parts ≠ [] := by
    rintro hnil
    rw [hnode, children_grow, parts_fill, hnil] at hne
    exact hne rfl
  obtain ⟨first, last, hfirst, hlast, hspan'⟩ := spans_of_parts (by simpa [label_fill] using hspan)
    hne' (by
      intro v hv
      have hrow : v.label ∈ (fillAll start x.parts).map (·.label.1) := by
        rw [map_row_fillAll]
        exact List.mem_map_of_mem hv
      obtain ⟨part, hpart, he⟩ := List.mem_map.mp hrow
      rw [← he]
      exact hspans part (by rwa [parts_fill]))
  have hmap : s.node.children.map Node.span = (x.fill start).parts.map (·.label.2) := by
    rw [hnode, children_grow, map_span_growAll]
  have hhead := congrArg List.head? hmap
  have hgetLast := congrArg List.getLast? hmap
  rw [List.head?_map, List.head?_map, hfirst] at hhead
  rw [List.getLast?_map, List.getLast?_map, hlast] at hgetLast
  obtain ⟨a, ha, haspan⟩ := Option.map_eq_some_iff.mp hhead
  obtain ⟨b, hb, hbspan⟩ := Option.map_eq_some_iff.mp hgetLast
  refine ⟨a, b, ha, hb, ?_⟩
  rw [hnode, span_grow, hspan', haspan, hbspan]

theorem span_create (f : Forest) (kind : Kind) {ns : List Node} {first last : Node}
    (hfirst : ns.head? = some first) (hlast : ns.getLast? = some last)
    (text identifier role : Option String) :
    (f.create (.known kind) (ns.map Node.draft) text identifier role none).1.label?.map Label.span =
      some ⟨first.span.start, last.span.stop, first.span.line, first.span.column⟩ := by
  have hderived : ∀ own, Draft.derivedSpan (ns.map Node.draft) own =
      ⟨first.span.start, last.span.stop, first.span.line, first.span.column⟩ := by
    intro own
    simp only [Draft.derivedSpan, List.head?_map, List.getLast?_map, hfirst, hlast,
      Option.map_some, Option.bind_some, Node.label?_draft]
    rfl
  simp only [Forest.create, Forest.construct, Draft.label?, Option.map_some, Option.getD_none,
    hderived]

/--
Of the spans that are filled in, those of the leaves follow one another, each lies within that of
the node around it, and one around such spans is the one that the node would have been built with.
-/
theorem spans_nested (d : Document) (hd : d.Valid) :
    ∃ t, d.toTree = .ok t ∧ t.walk.length = d.rows.length ∧
      (d.openLeaves t).map (fun n => (n.span.start, n.span.stop)) =
        intervals 0 ((d.openLeaves t).map (·.text.length)) ∧
      (∀ (i p : Nat) s r row around, t.walk[i]? = some s → d.rows[i]? = some row →
        row.parent = some p → t.walk[p]? = some r → d.rows[p]? = some around →
        row.span = none → around.span = none →
          r.node.span.start ≤ s.node.span.start ∧ s.node.span.stop ≤ r.node.span.stop) ∧
      ∀ (i : Nat) s row, t.walk[i]? = some s → d.rows[i]? = some row → row.span = none →
        s.node.children ≠ [] → (∀ part ∈ d.rows, part.parent = some i → part.span = none) →
          (∃ first last, s.node.children.head? = some first ∧
            s.node.children.getLast? = some last ∧
            s.node.span =
              ⟨first.span.start, last.span.stop, first.span.line, first.span.column⟩) ∧
          ∀ (f : Forest) text identifier role,
            (f.create (.known s.kind) (s.node.children.map Node.draft) text identifier role
              none).1.label?.map Label.span = some s.node.span := by
  obtain ⟨t, h⟩ := hd.planted
  refine ⟨t, h.toTree, h.length_walk, intervals_openLeaves h hd, ?_, ?_⟩
  · intro i p s r row around hs hrow hparent hr haround hspan hspan'
    exact within_parent h hd hs hrow hspan hparent hr haround hspan'
  · intro i s row hs hrow hspan hne hparts
    obtain ⟨first, last, hfirst, hlast, hsame⟩ := around_parts h hd hs hrow hspan hne hparts
    refine ⟨⟨first, last, hfirst, hlast, hsame⟩, ?_⟩
    intro f text identifier role
    rw [hsame]
    exact span_create f s.kind hfirst hlast text identifier role

theorem spans_nested_given_block :
    let d : Document := ⟨"a.cs", [
      ⟨.classDeclaration, none, none, some "C", none, none⟩,
      ⟨.block, some 0, none, none, none, some ⟨40, 90, 3, 1⟩⟩,
      ⟨.identifierName, some 1, some "value", none, none, none⟩,
      ⟨.block, some 0, none, none, none, none⟩,
      ⟨.modifier, some 3, some "new", none, none, none⟩,
      ⟨.modifier, some 3, none, none, none, none⟩]⟩
    d.Valid ∧ ∃ t s r, d.toTree = .ok t ∧ t.walk[4]? = some s ∧ t.walk[3]? = some r ∧
      (d.openLeaves t).map (fun n => (n.span.start, n.span.stop)) =
        intervals 0 ((d.openLeaves t).map (·.text.length)) ∧
      r.node.span.start ≤ s.node.span.start ∧ s.node.span.stop ≤ r.node.span.stop := by
  intro d
  have hd : d.Valid := by
    refine ⟨by simp [d], rfl, ?_⟩
    simp [d, isSound_iff]
  obtain ⟨t, htree, hlen, hleaves, hwithin, -⟩ := spans_nested d hd
  have hlen : t.walk.length = 6 := hlen
  have hs : t.walk[4]? = some t.walk[4] := List.getElem?_eq_getElem (by omega)
  have hr : t.walk[3]? = some t.walk[3] := List.getElem?_eq_getElem (by omega)
  exact ⟨hd, t, _, _, htree, hs, hr, hleaves, hwithin 4 3 _ _ _ _ hs rfl rfl hr rfl rfl rfl⟩

end Document

end TreeLint
