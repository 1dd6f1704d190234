import Mathlib.Tactic.IntervalCases
import TreeLint.Proofs.Nesting

namespace TreeLint

namespace Text

def slice (s : String) (start stop : Int) : String :=
  String.ofList ((s.toList.take stop.toNat).drop start.toNat)

theorem slice_append (front middle back : String) :
    slice (front ++ middle ++ back) front.length (front.length + middle.length : Nat) = middle := by
  have htake : (front ++ middle ++ back).toList.take (front.length + middle.length) =
      front.toList ++ middle.toList := by
    rw [String.toList_append, String.toList_append]
    apply List.take_left'
    rw [List.length_append, String.length_toList, String.length_toList]
  rw [slice, Int.toNat_natCast, Int.toNat_natCast, htake, ← String.length_toList, List.drop_left,
    String.ofList_toList]

theorem phrase_eq_spaced {texts : List String} (h : ∀ text ∈ texts, text ≠ "") :
    phrase texts = spaced texts := by
  rw [phrase, List.filter_eq_self.mpr (by simpa using h)]

theorem spaced_ne_empty {text : String} (h : text ≠ "") (rest : List String) :
    spaced (text :: rest) ≠ "" := by
  cases rest with
  | nil => exact h
  | cons next rest =>
    intro he
    have hlen := congrArg String.length he
    simp [spaced] at hlen

end Text

namespace Outline

open Document

mutual

def text : Outline Row → String
  | mk row parts => row.text.getD (Text.phrase (textsOf parts))

def textsOf : List (Outline Row) → List String
  | [] => []
  | t :: rest => t.text :: textsOf rest

end

mutual

theorem text_grow_fill (base offset : Nat) (t : Outline Row) :
    ((t.fill offset).grow base).text = t.text := by
  match t with
  | mk row inner =>
    rw [fill, grow, text, ← map_text_growAll base offset inner]
    rfl

theorem map_text_growAll (base offset : Nat) (ts : List (Outline Row)) :
    (growAll base (fillAll offset ts)).map Node.text = textsOf ts := by
  match ts with
  | [] => rfl
  | t :: rest =>
    rw [fillAll, growAll, List.map_cons, textsOf, text_grow_fill _ offset t,
      map_text_growAll base _ rest]

end

structure Bare (t : Outline Row) : Prop where
  span : t.label.span = none
  leaf : t.parts = [] → ∃ own, t.label.text = some own ∧ own ≠ ""
  inner : t.parts ≠ [] → t.label.text = none

theorem text_of_leaf {row : Row} (h : (mk row []).Bare) :
    ∃ own, row.text = some own ∧ own ≠ "" ∧ (mk row []).text = own := by
  obtain ⟨own, hown, hne⟩ := h.leaf rfl
  have hrow : row.text = some own := hown
  exact ⟨own, hrow, hne, by rw [text, hrow, Option.getD_some]⟩

theorem text_of_inner {row : Row} {inner : List (Outline Row)} (h : (mk row inner).Bare)
    (hne : inner ≠ []) : (mk row inner).text = Text.phrase (textsOf inner) := by
  have hrow : row.text = none := h.inner hne
  rw [text, hrow, Option.getD_none]

mutual

theorem text_ne_empty (t : Outline Row) (h : ∀ v ∈ t.subs, v.Bare) : t.text ≠ "" := by
  match t with
  | mk row [] =>
    obtain ⟨own, -, hne, htext⟩ := text_of_leaf (h _ (mem_subs_self _))
    rw [htext]
    exact hne
  | mk row (v :: rest) =>
    have htexts := text_ne_empty_of_mem (v :: rest) fun u hu => h u (mem_subs_iff.mpr (.inr hu))
    rw [text_of_inner (h _ (mem_subs_self _)) (by simp), Text.phrase_eq_spaced htexts]
    exact Text.spaced_ne_empty (htexts v.text (by simp [textsOf])) _

theorem text_ne_empty_of_mem (ts : List (Outline Row)) (h : ∀ v ∈ subsOf ts, v.Bare) :
    ∀ own ∈ textsOf ts, own ≠ "" := by
  match ts with
  | [] => simp [textsOf]
  | t :: rest =>
    rw [textsOf, List.forall_mem_cons]
    exact ⟨text_ne_empty t fun v hv => h v (List.mem_append_left _ hv),
      text_ne_empty_of_mem rest fun v hv => h v (List.mem_append_right _ hv)⟩

end

theorem text_of_bare {row : Row} {inner : List (Outline Row)}
    (h : ∀ v ∈ (mk row inner).subs, v.Bare) (hne : inner ≠ []) :
    (mk row inner).text = Text.spaced (textsOf inner) := by
  rw [text_of_inner (h _ (mem_subs_self _)) hne, Text.phrase_eq_spaced]
  exact text_ne_empty_of_mem inner fun v hv => h v (mem_subs_iff.mpr (.inr hv))

theorem spaced_textsOf_cons (t u : Outline Row) (rest : List (Outline Row)) :
    Text.spaced (textsOf (t :: u :: rest)) = t.text ++ " " ++ Text.spaced (textsOf (u :: rest)) :=
  rfl

mutual

theorem stop_eq (offset : Nat) (t : Outline Row) (h : ∀ v ∈ t.subs, v.Bare) :
    t.stop offset = offset + t.text.length ∧ t.next offset = t.stop offset + 1 := by
  match t with
  | mk row [] =>
    have hbare := h _ (mem_subs_self _)
    obtain ⟨own, hrow, -, htext⟩ := text_of_leaf hbare
    have hspan : row.span = none := hbare.span
    simp [stop, next, stopsOf, nextOf, hspan, htext, textLength, hrow]
  | mk row (v :: rest) =>
    have hinner := stopsOf_eq offset offset (v :: rest) (by simp)
      (fun u hu => h u (mem_subs_iff.mpr (.inr hu))) (Nat.le_refl offset)
    rw [text_of_bare h (by simp)]
    simpa [stop, next] using hinner

theorem stopsOf_eq (offset own : Nat) (ts : List (Outline Row)) (hne : ts ≠ [])
    (h : ∀ v ∈ subsOf ts, v.Bare) (hown : own ≤ offset) :
    (stopsOf offset ts).foldl max own = offset + (Text.spaced (textsOf ts)).length ∧
      nextOf offset ts = (stopsOf offset ts).foldl max own + 1 := by
  match ts with
  | t :: rest =>
    have ht : ∀ v ∈ t.subs, v.Bare := fun v hv => h v (List.mem_append_left _ hv)
    have hrest : ∀ v ∈ subsOf rest, v.Bare := fun v hv => h v (List.mem_append_right _ hv)
    obtain ⟨hstop, hnext⟩ := stop_eq offset t ht
    have hspan : t.label.span = none := (ht t (mem_subs_self t)).span
    have hstops : stopsOf offset (t :: rest) = t.stop offset :: stopsOf (t.next offset) rest := by
      simp [stopsOf, hspan]
    rw [hstops, List.foldl_cons, nextOf, Nat.max_eq_right (by omega)]
    match rest with
    | [] => exact ⟨hstop, hnext⟩
    | u :: rest =>
      obtain ⟨hlast, hfree⟩ := stopsOf_eq (t.next offset) (t.stop offset) (u :: rest) (by simp)
        hrest (by omega)
      have hblank : (" " : String).length = 1 := rfl
      refine ⟨?_, hfree⟩
      rw [hlast, spaced_textsOf_cons, String.length_append, String.length_append, hblank]
      omega

end

structure Located (whole : String) (n : Node) : Prop where
  start : 0 ≤ n.span.start
  stop : n.span.start ≤ n.span.stop
  text : Text.slice whole n.span.start n.span.stop = n.text
  line : n.span.line = 1
  column : n.span.column = n.span.start

theorem located_grow {offset : Nat} {t : Outline Row} (h : ∀ v ∈ t.subs, v.Bare) (base : Nat)
    {front : String} (back : String) (hfront : front.length = offset) :
    Located (front ++ t.text ++ back) ((t.fill offset).grow base) := by
  obtain ⟨hstop, -⟩ := stop_eq offset t h
  have hspan : ((t.fill offset).grow base).span = ⟨offset, t.stop offset, 1, offset⟩ := by
    rw [span_grow, label_fill, filled_of_none (h t (mem_subs_self t)).span]
  constructor
  · rw [hspan]
    exact Int.natCast_nonneg offset
  · rw [hspan]
    exact Int.ofNat_le.mpr (le_stop offset t)
  · rw [hspan, text_grow_fill, hstop, ← hfront]
    exact Text.slice_append front t.text back
  · rw [hspan]
  · rw [hspan]

mutual

theorem located_of_mem_nodes (t : Outline Row) (offset base : Nat) (front back : String)
    (h : ∀ v ∈ t.subs, v.Bare) (hfront : front.length = offset) :
    ∀ n ∈ ((t.fill offset).grow base).nodes, Located (front ++ t.text ++ back) n := by
  match t with
  | mk row inner =>
    have hself := located_grow h base back hfront
    rw [fill, grow] at hself ⊢
    rw [Node.nodes_mk, List.forall_mem_cons]
    refine ⟨hself, ?_⟩
    by_cases hne : inner = []
    · subst hne
      simp [fillAll, growAll]
    · rw [text_of_bare h hne]
      exact located_of_mem_flatMap_nodes inner offset base front back
        (fun v hv => h v (mem_subs_iff.mpr (.inr hv))) hfront

theorem located_of_mem_flatMap_nodes (ts : List (Outline Row)) (offset base : Nat)
    (front back : String) (h : ∀ v ∈ subsOf ts, v.Bare) (hfront : front.length = offset) :
    ∀ n ∈ (growAll base (fillAll offset ts)).flatMap Node.nodes,
      Located (front ++ Text.spaced (textsOf ts) ++ back) n := by
  match ts with
  | [] => simp [fillAll, growAll]
  | [t] =>
    rw [fillAll, growAll, List.flatMap_cons, fillAll, growAll, List.flatMap_nil, List.append_nil]
    exact located_of_mem_nodes t offset _ front back (fun v hv => h v (List.mem_append_left _ hv))
      hfront
  | t :: u :: rest =>
    have ht : ∀ v ∈ t.subs, v.Bare := fun v hv => h v (List.mem_append_left _ hv)
    obtain ⟨hstop, hnext⟩ := stop_eq offset t ht
    have hfirst := located_of_mem_nodes t offset
      (base + (labelsOf (fillAll (t.next offset) (u :: rest))).length) front
      (" " ++ Text.spaced (textsOf (u :: rest)) ++ back) ht hfront
    have hlater := located_of_mem_flatMap_nodes (u :: rest) (t.next offset) base
      (front ++ t.text ++ " ") back (fun v hv => h v (List.mem_append_right _ hv)) (by
        have hblank : (" " : String).length = 1 := rfl
        rw [String.length_append, String.length_append, hfront, hblank]
        omega)
    rw [fillAll, growAll, List.flatMap_cons, List.forall_mem_append, spaced_textsOf_cons]
    simp only [String.append_assoc] at hfirst hlater ⊢
    exact ⟨hfirst, hlater⟩

end

end Outline

namespace Document

open Outline

/-- In a document without spans and with a text in each leaf the spans are places in the whole. -/
theorem text_at_span (d : Document) (hd : d.Valid) (hspans : ∀ row ∈ d.rows, row.span = none)
    (hleaves : ∀ (i : Nat) row, d.rows[i]? = some row → some i ∉ d.rows.map Row.parent →
      ∃ own, row.text = some own ∧ own ≠ "")
    (hinner : ∀ (i : Nat) row, d.rows[i]? = some row → some i ∈ d.rows.map Row.parent →
      row.text = none) :
    ∃ t, d.toTree = .ok t ∧ t.walk.length = d.rows.length ∧
      ∀ s ∈ t.walk, 0 ≤ s.node.span.start ∧ s.node.span.start ≤ s.node.span.stop ∧
        Text.slice t.root.text s.node.span.start s.node.span.stop = s.node.text ∧
        s.node.span.line = 1 ∧ s.node.span.column = s.node.span.start := by
  obtain ⟨t, h⟩ := hd.planted
  obtain ⟨w, hw⟩ := hd.exists_outlines
  have hbare : ∀ v ∈ w.subs, v.Bare := by
    intro v hv
    obtain ⟨i, hi⟩ := List.getElem?_of_mem hv
    have hrow := hw.label_at hi
    refine ⟨hspans _ (List.mem_of_getElem? hrow), ?_, ?_⟩
    · intro hnil
      exact hleaves i _ hrow ((hw.parts_eq_nil_iff hi).mp hnil)
    · intro hne
      refine hinner i _ hrow ?_
      by_contra hnot
      exact hne ((hw.parts_eq_nil_iff hi).mpr hnot)
  have hroot := root_eq_grow hd h hw
  have hlocated := located_of_mem_nodes w 0 0 "" "" hbare rfl
  rw [String.empty_append, String.append_empty, ← hroot, ← text_grow_fill 0 0 w, ← hroot]
    at hlocated
  refine ⟨t, h.toTree, h.length_walk, ?_⟩
  intro s hs
  obtain ⟨hstart, hstop, htext, hline, hcolumn⟩ :=
    hlocated s.node (Planted.mem_nodes_of_mem_walk hs)
  exact ⟨hstart, hstop, htext, hline, hcolumn⟩

theorem text_at_span_two_levels :
    let d : Document := ⟨"a.cs", [
      ⟨.classDeclaration, none, none, some "C", none, none⟩,
      ⟨.block, some 0, none, none, none, none⟩,
      ⟨.identifierName, some 1, some "value", none, none, none⟩,
      ⟨.modifier, some 1, some "new", none, none, none⟩,
      ⟨.modifier, some 0, some "static", none, none, none⟩]⟩
    d.Valid ∧ ∃ t s, d.toTree = .ok t ∧ t.walk[3]? = some s ∧
      Text.slice t.root.text s.node.span.start s.node.span.stop = s.node.text := by
  intro d
  have hd : d.Valid := by
    refine ⟨by simp [d], rfl, ?_⟩
    simp [d]
  have hleaves : ∀ (i : Nat) row, d.rows[i]? = some row → some i ∉ d.rows.map Row.parent →
      ∃ own, row.text = some own ∧ own ≠ "" := by
    intro i row hrow hleaf
    have hi : i < 5 := (List.getElem?_eq_some_iff.mp hrow).1
    interval_cases i <;> obtain rfl := Option.some.inj hrow <;> simp [d] at hleaf ⊢
  have hinner : ∀ (i : Nat) row, d.rows[i]? = some row → some i ∈ d.rows.map Row.parent →
      row.text = none := by
    intro i row hrow hparent
    have hi : i < 5 := (List.getElem?_eq_some_iff.mp hrow).1
    interval_cases i <;> obtain rfl := Option.some.inj hrow <;> simp [d] at hparent ⊢
  obtain ⟨t, htree, hlen, htexts⟩ := text_at_span d hd (by simp [d]) hleaves hinner
  have hlen : t.walk.length = 5 := hlen
  have hs : t.walk[3]? = some t.walk[3] := List.getElem?_eq_getElem (by omega)
  obtain ⟨-, -, htext, -⟩ := htexts t.walk[3] (List.getElem_mem _)
  exact ⟨hd, t, _, htree, hs, htext⟩

end Document

end TreeLint
