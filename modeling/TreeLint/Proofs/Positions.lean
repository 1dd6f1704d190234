import TreeLint.Proofs.Composition
import TreeLint.Proofs.Location

/-!
Neither the path of a document nor its spans decide what is found in it. Documents that agree in all
else grow into one tree whose spans are the numbers of its nodes, recast to the spans of each.
-/

namespace TreeLint

def Row.unplaced (row : Row) : Row :=
  { row with span := none }

def Recast.onto (spans : List Span) : Recast :=
  ⟨id, fun s => spans.getD s.start.toNat s⟩

def Span.numbered (i : Nat) : Span :=
  .ofRange i i

theorem Recast.onto_numbered (spans : List Span) {i : Nat} (hi : i < spans.length) :
    (onto spans).span (.numbered i) = spans[i] := by
  simp [onto, Span.numbered, Span.ofRange, hi]

theorem Recast.map_onto_numbered (spans : List Span) :
    ((List.range spans.length).map Span.numbered).map (onto spans).span = spans := by
  apply List.ext_getElem
  · simp
  · intro i _ hi
    simp [onto_numbered spans hi]

namespace Outline

def relabel (f : Span → Span) : Row × Span → Row × Span :=
  Prod.map Row.unplaced f

mutual

theorem recast_grow (f : Span → Span) (base : Nat) (o : Outline (Row × Span)) :
    (o.grow base).recast ⟨id, f⟩ = (o.map (relabel f)).grow base := by
  match o with
  | mk (row, span) parts =>
    have hparts := recastAll_growAll f base parts
    -- A text that is not given is made of those below, which recasting leaves as they are.
    have htexts : (growAll base (mapAll (relabel f) parts)).map Node.text =
        (growAll base parts).map Node.text := by
      rw [← hparts, Node.recastAll_eq_map, List.map_map]
      exact List.map_congr_left fun n _ => n.text_recast _
    rw [map, grow, grow, Node.recast, hparts, htexts, labelsOf_mapAll, List.length_map]
    rfl

theorem recastAll_growAll (f : Span → Span) (base : Nat) (os : List (Outline (Row × Span))) :
    Node.recastAll ⟨id, f⟩ (growAll base os) = growAll base (mapAll (relabel f) os) := by
  match os with
  | [] => rfl
  | o :: rest =>
    rw [growAll, mapAll, growAll, Node.recastAll, recast_grow f _ o, recastAll_growAll f base rest,
      labelsOf_mapAll, List.length_map]

end

def tree (o : Outline (Row × Span)) : Tree :=
  ⟨o.grow 0, "", o.labels.length⟩

end Outline

namespace Node

mutual

theorem recast_id (n : Node) : n.recast ⟨id, id⟩ = n := by
  match n with
  | mk serial kind label children =>
    rw [recast, recastAll_id children]
    rfl

theorem recastAll_id (ns : List Node) : recastAll ⟨id, id⟩ ns = ns := by
  match ns with
  | [] => rfl
  | n :: rest => rw [recastAll, recast_id n, recastAll_id rest]

end

end Node

namespace Document

open Outline

structure Numbers (d : Document) (o : Outline (Row × Span)) : Prop where
  labels : o.labels = (d.rows.map Row.unplaced).zip ((List.range d.rows.length).map Span.numbered)
  parents : o.parents 0 none = d.rows.map Row.parent

theorem Valid.exists_numbers {d : Document} (hd : d.Valid) : ∃ o, Numbers d o := by
  obtain ⟨o, hlabels, hparents⟩ := exists_outline
    ((d.rows.map Row.unplaced).zip ((List.range d.rows.length).map Span.numbered))
    (by simpa using hd.nonempty) (by simp) hd.ordered
  exact ⟨o, hlabels, hparents⟩

theorem Numbers.of_unplaced {d d' : Document} {o : Outline (Row × Span)} (h : Numbers d o)
    (hrows : d.rows.map Row.unplaced = d'.rows.map Row.unplaced) : Numbers d' o where
  labels := by
    have hlen := congrArg List.length hrows
    rw [List.length_map, List.length_map] at hlen
    rw [h.labels, hrows, hlen]
  parents := by
    have hparents := congrArg (List.map Row.parent) hrows
    rw [List.map_map, List.map_map] at hparents
    exact h.parents.trans hparents

theorem length_spans (d : Document) : d.spans.length = d.rows.length :=
  (fills_spans d).length_eq.symm

theorem Numbers.root_eq {d : Document} {o : Outline (Row × Span)} (h : Numbers d o) {t : Tree}
    (ht : Planted d t) (hd : d.Valid) : t.root = (o.grow 0).recast (.onto d.spans) := by
  obtain ⟨w, hw⟩ := hd.exists_outlines
  have hplaced := Recast.map_onto_numbered d.spans
  rw [length_spans] at hplaced
  have hsame : (w.fill 0).map (relabel id) = o.map (relabel (Recast.onto d.spans).span) := by
    apply eq_of_parents
    · have hunplaced : Row.unplaced ∘ Row.unplaced = Row.unplaced := rfl
      rw [labels_map, labels_map, hw.zip_spans, h.labels, relabel, relabel, ← List.zip_map,
        ← List.zip_map, hplaced, List.map_map, hunplaced, List.map_id]
    · rw [parents_map, parents_map, parents_fill]
      exact hw.parents.trans h.parents.symm
  rw [root_eq_grow hd ht hw, ← Node.recast_id ((w.fill 0).grow 0), recast_grow, hsame]
  exact (recast_grow _ _ _).symm

theorem map_span_of_shows {es : List (Row × Span)} {ns : List Node}
    (h : List.Forall₂ Shows es ns) : ns.map Node.span = es.map Prod.snd := by
  induction h with
  | nil => rfl
  | cons hshow _ ih => rw [List.map_cons, List.map_cons, hshow.span, ih]

theorem Planted.map_span_walk {d : Document} {t : Tree} (h : Planted d t) :
    t.walk.map (·.node.span) = d.spans := by
  have hcomp : (fun s : Site => s.node.span) = Node.span ∘ Site.node := rfl
  rw [hcomp, ← List.map_map, Planted.map_node_walk, map_span_of_shows h.shows, List.map_snd_zip]
  exact Nat.le_of_eq (length_spans d)

theorem Numbers.map_span_nodes {d : Document} {o : Outline (Row × Span)} (h : Numbers d o) :
    (o.grow 0).nodes.map Node.span = (List.range d.rows.length).map Span.numbered := by
  rw [map_span_of_shows (shows_grow 0 o), h.labels, List.map_snd_zip]
  simp

end Document

theorem Registry.FromCatalogue.diagnostics_at {r : Registry} (h : r.FromCatalogue) (t t' : Tree)
    (sites : List Site) : (r.outcome t' sites).diagnostics =
      (r.outcome t sites).diagnostics.map fun x => { x with path := t'.path } := by
  rw [outcome, outcome, List.map_filterMap]
  apply List.filterMap_congr
  intro d hd
  have hverdict : d.verdict t' = d.verdict t :=
    Rule.evaluate_of_mem_catalogue d.rule (h.mem_catalogue hd) t' t d.site
  rw [Duty.diagnostic?, Duty.diagnostic?, hverdict]
  cases d.verdict t <;> rfl

namespace Document

open Outline

structure Corresponds (d d' : Document) (x y : Diagnostic) : Prop where
  ruleId : x.ruleId = y.ruleId
  severity : x.severity = y.severity
  category : x.category = y.category
  message : x.message = y.message
  path : x.path = d.path ∧ y.path = d'.path
  place : ∃ i : Nat, d.spans[i]? = some x.location ∧ d'.spans[i]? = some y.location

theorem Numbers.exists_place {d : Document} {o : Outline (Row × Span)} (h : Numbers d o)
    {registry : Registry} (hregistry : registry.FromCatalogue) {t : Tree} {x : Diagnostic}
    (hx : x ∈ (registry.outcome t (Site.preorderOf [] (o.grow 0))).diagnostics) :
    ∃ i < d.rows.length, x.location = .numbered i := by
  obtain ⟨s, hs, hlocation⟩ := hregistry.location_of_mem_outcome hx
  have hs : s.node ∈ (o.grow 0).nodes := by
    rw [← Site.map_node_eq_nodes []]
    exact List.mem_map_of_mem hs
  have htarget : s.target ∈ (o.grow 0).nodes := by
    rcases s.target_eq_or_mem_children with he | hmem
    · rw [he]
      exact hs
    · exact Node.children_mem_nodes _ hs hmem
  have hspan := List.mem_map_of_mem (f := Node.span) htarget
  rw [h.map_span_nodes] at hspan
  obtain ⟨i, hi, hnumber⟩ := List.mem_map.mp hspan
  exact ⟨i, List.mem_range.mp hi, hlocation.trans hnumber.symm⟩

theorem Numbers.diagnostics_eq {d : Document} {o : Outline (Row × Span)} (h : Numbers d o)
    {t : Tree} (ht : Planted d t) (hd : d.Valid) {registry : Registry}
    (hregistry : registry.FromCatalogue) :
    (registry.outcome t (t.site []).preorder).diagnostics =
      (registry.outcome o.tree (Site.preorderOf [] (o.grow 0))).diagnostics.map fun x =>
        { x with location := (Recast.onto d.spans).span x.location, path := d.path } := by
  have hsites : (t.site []).preorder =
      (Site.preorderOf [] (o.grow 0)).map (Site.recast (.onto d.spans)) := by
    rw [Site.map_recast_preorderOf, ← h.root_eq ht hd]
    rfl
  rw [hsites, hregistry.outcome_map_recast _ rfl, Sink.recast, hregistry.diagnostics_at o.tree t,
    List.map_map, ht.path]
  rfl

/-- Built-in rules find the same in documents that differ in their paths and spans alone. -/
theorem findings_correspond (d d' : Document) (hd : d.Valid) (hd' : d'.Valid)
    (hrows : d.rows.map Row.unplaced = d'.rows.map Row.unplaced)
    (calls : List Registry.Call) (hcalls : ∀ c ∈ calls, c.rule ∈ Rule.catalogue) :
    let registry := (Registry.empty.replay [] calls).1
    ∃ t t' sink sink', d.Yields registry t sink ∧ d'.Yields registry t' sink' ∧
      t.walk.map (·.node.span) = d.spans ∧ t'.walk.map (·.node.span) = d'.spans ∧
      List.Forall₂ (Corresponds d d') sink.diagnostics sink'.diagnostics := by
  intro registry
  have hregistry := Registry.fromCatalogue_replay hcalls
  obtain ⟨t, ht⟩ := hd.planted
  obtain ⟨t', ht'⟩ := hd'.planted
  -- one outline whose spans are numbers stands for both documents
  obtain ⟨o, hnumbers⟩ := hd.exists_numbers
  have hnumbers' := hnumbers.of_unplaced hrows
  refine ⟨t, t', _, _, ht.yields hregistry, ht'.yields hregistry, ht.map_span_walk,
    ht'.map_span_walk, ?_⟩
  rw [hnumbers.diagnostics_eq ht hd hregistry, hnumbers'.diagnostics_eq ht' hd' hregistry,
    List.forall₂_map_left_iff, List.forall₂_map_right_iff, List.forall₂_same]
  intro x hx
  obtain ⟨i, hi, hplace⟩ := hnumbers.exists_place hregistry hx
  have hlen := congrArg List.length hrows
  rw [List.length_map, List.length_map, ← length_spans, ← length_spans] at hlen
  rw [← length_spans] at hi
  refine ⟨rfl, rfl, rfl, rfl, ⟨rfl, rfl⟩, i, ?_, ?_⟩
  · rw [hplace, Recast.onto_numbered d.spans hi, List.getElem?_eq_getElem hi]
  · rw [hplace, Recast.onto_numbered d'.spans (hlen ▸ hi), List.getElem?_eq_getElem]

theorem findings_correspond_loop :
    let d : Document := ⟨"a.cs", [
      ⟨.foreachStatement, none, none, none, none, none⟩,
      ⟨.genericName, some 0, some "List<int>", some "List", some "type", none⟩,
      ⟨.invocationExpression, some 0, some "xs.ToList()", none, some "expression", none⟩]⟩
    let d' : Document := ⟨"b.cs", [
      ⟨.foreachStatement, none, none, none, none, some ⟨70, 90, 4, 8⟩⟩,
      ⟨.genericName, some 0, some "List<int>", some "List", some "type", some ⟨3, 3, 9, 0⟩⟩,
      ⟨.invocationExpression, some 0, some "xs.ToList()", none, some "expression", none⟩]⟩
    let registry := (Registry.empty.replay [] (Rule.catalogue.map .registerRule)).1
    d.Valid ∧ d'.Valid ∧ d.rows.map Row.unplaced = d'.rows.map Row.unplaced ∧
      ∃ t t' sink sink', d.Yields registry t sink ∧ d'.Yields registry t' sink' ∧
        sink.diagnostics.length = sink'.diagnostics.length ∧
        List.Forall₂ (Corresponds d d') sink.diagnostics sink'.diagnostics := by
  intro d d' registry
  have hd : d.Valid := by
    refine ⟨by simp [d], rfl, ?_⟩
    simp [d]
  have hd' : d'.Valid := by
    refine ⟨by simp [d'], rfl, ?_⟩
    simp [d', isSound_iff]
  have hcalls : ∀ c ∈ Rule.catalogue.map Registry.Call.registerRule, c.rule ∈ Rule.catalogue := by
    intro c hc
    obtain ⟨rule, hrule, rfl⟩ := List.mem_map.mp hc
    exact hrule
  obtain ⟨t, t', sink, sink', hyields, hyields', -, -, hfound⟩ :=
    findings_correspond d d' hd hd' rfl _ hcalls
  exact ⟨hd, hd', rfl, t, t', sink, sink', hyields, hyields', hfound.length_eq, hfound⟩

end Document

end TreeLint
