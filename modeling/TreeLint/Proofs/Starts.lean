import Mathlib.Algebra.GroupWithZero.Nat
import TreeLint.Proofs.Blocks
import TreeLint.Proofs.Positions

namespace TreeLint.Document

def advance (ps : List (Option Nat)) (e : Row × Nat) : Nat :=
  if e.1.span.isNone && !ps.contains (some e.2) then textLength e.1 + 1 else 0

def offsetAt (rows : List Row) (index : Nat) : Nat :=
  ((rows.zipIdx.take index).map (advance (rows.map Row.parent))).sum

def startAt (rows : List Row) (e : Row × Nat) : Int :=
  (e.1.span.map Span.start).getD (offsetAt rows e.2)

/-- No given start is behind that of a later row without a span, or before that of an earlier one. -/
def InStep (rows : List Row) : Prop :=
  ∀ (i j : Nat) row given, rows[i]? = some row → row.span = none →
    (rows[j]?.bind Row.span) = some given →
      (i < j → offsetAt rows i ≤ given.start) ∧ (j < i → given.start ≤ offsetAt rows i)

theorem offsetAt_succ {rows : List Row} {i : Nat} {row : Row} (hrow : rows[i]? = some row) :
    offsetAt rows (i + 1) = offsetAt rows i + advance (rows.map Row.parent) (row, i) := by
  have hat : rows.zipIdx[i]? = some (row, i) := by simp [hrow]
  rw [offsetAt, offsetAt, List.take_add_one, hat, List.map_append, List.sum_append]
  simp

theorem offsetAt_le (rows : List Row) {i j : Nat} (h : i ≤ j) : offsetAt rows i ≤ offsetAt rows j := by
  obtain ⟨k, rfl⟩ := Nat.exists_eq_add_of_le h
  rw [offsetAt, offsetAt, List.take_add, List.map_append, List.sum_append]
  exact Nat.le_add_right _ _

theorem isLeaf_drop_eq {rows : List Row} (h : FollowsPath (rows.map Row.parent)) (i : Nat) :
    isLeaf i (rows.drop (i + 1)) = !(rows.map Row.parent).contains (some i) := by
  have hnext : isLeaf i (rows.drop (i + 1)) = ((rows.map Row.parent)[i + 1]?).all (· != some i) := by
    rw [isLeaf, List.head?_drop, List.getElem?_map, Option.all_map]
  rw [hnext, Bool.eq_iff_iff, Bool.not_eq_true', ← Bool.not_eq_true, List.contains_iff_mem]
  constructor
  · intro hall hmem
    obtain ⟨k, hk⟩ := List.getElem?_of_mem hmem
    obtain ⟨p, hp, hle⟩ := h.encloses_of_transGen (.single hk) (i + 1) (Nat.lt_succ_self i)
      (h.lt_of_standsIn hk)
    have hlt := h.lt_of_standsIn hp
    obtain rfl : p = i := by omega
    simp [hp] at hall
  · intro hmem
    cases hq : (rows.map Row.parent)[i + 1]? with
    | none => rfl
    | some q =>
      have hne : q ≠ some i := fun he => hmem (he ▸ List.mem_of_getElem? hq)
      simpa using hne

theorem exists_fillSpans_cons (index offset : Nat) (row : Row) (rest : List Row) :
    ∃ span, (fillSpans index offset (row :: rest)).1 =
        span :: (fillSpans (index + 1)
          (offset + if row.span.isNone && isLeaf index rest then textLength row + 1 else 0) rest).1 ∧
      span.start = (row.span.map Span.start).getD offset := by
  cases hgiven : row.span with
  | some given =>
    rw [fillSpans, hgiven]
    exact ⟨given, rfl, rfl⟩
  | none =>
    rw [fillSpans, hgiven]
    cases isLeaf index rest with
    | true => exact ⟨_, rfl, rfl⟩
    | false => exact ⟨_, rfl, rfl⟩

theorem map_start_fillSpans {rows : List Row} (h : FollowsPath (rows.map Row.parent))
    {index : Nat} {rest : List Row} (hrest : rows.drop index = rest) :
    (fillSpans index (offsetAt rows index) rest).1.map Span.start =
      (rest.zipIdx index).map (startAt rows) := by
  induction rest generalizing index with
  | nil => rfl
  | cons row rest ih =>
    obtain ⟨hrow, hrest'⟩ := getElem?_of_drop hrest
    have hoffset : offsetAt rows (index + 1) = offsetAt rows index +
        if row.span.isNone && isLeaf index rest then textLength row + 1 else 0 := by
      rw [offsetAt_succ hrow, ← hrest', isLeaf_drop_eq h]
      rfl
    obtain ⟨span, hspans, hstart⟩ := exists_fillSpans_cons index (offsetAt rows index) row rest
    rw [hspans, ← hoffset, List.map_cons, ih hrest', hstart]
    rfl

variable {d : Document} {t : Tree}

theorem Planted.map_start_walk (h : Planted d t) (hd : d.Valid) :
    t.walk.map (·.node.span.start) = d.rows.zipIdx.map (startAt d.rows) := by
  have hspans : d.spans.map Span.start = d.rows.zipIdx.map (startAt d.rows) :=
    map_start_fillSpans hd.followsPath (rfl : d.rows.drop 0 = d.rows)
  rw [← hspans, ← h.map_span_walk, List.map_map]
  rfl

theorem startAt_of_given (rows : List Row) {row : Row} {given : Span} (i : Nat)
    (hspan : row.span = some given) : startAt rows (row, i) = given.start := by
  simp [startAt, hspan]

theorem startAt_of_omitted (rows : List Row) {row : Row} (i : Nat) (hspan : row.span = none) :
    startAt rows (row, i) = offsetAt rows i := by
  simp [startAt, hspan]

theorem pairwise_iff_getElem? {α : Type} {R : α → α → Prop} {l : List α} :
    l.Pairwise R ↔ ∀ (i j : Nat) a b, i < j → l[i]? = some a → l[j]? = some b → R a b := by
  rw [List.pairwise_iff_getElem]
  constructor
  · intro h i j a b hij ha hb
    obtain ⟨hi, rfl⟩ := List.getElem?_eq_some_iff.mp ha
    obtain ⟨hj, rfl⟩ := List.getElem?_eq_some_iff.mp hb
    exact h i j hi hj hij
  · intro h i j hi hj hij
    exact h i j _ _ hij (List.getElem?_eq_getElem hi) (List.getElem?_eq_getElem hj)

theorem pairwise_startAt_iff (rows : List Row) :
    (rows.zipIdx.map (startAt rows)).Pairwise (· ≤ ·) ↔
      ∀ (i j : Nat) row row', i < j → rows[i]? = some row → rows[j]? = some row' →
        startAt rows (row, i) ≤ startAt rows (row', j) := by
  rw [List.pairwise_map, pairwise_iff_getElem?]
  constructor
  · intro h i j row row' hij hi hj
    exact h i j (row, i) (row', j) hij (by simp [hi]) (by simp [hj])
  · intro h i j e e' hij hi hj
    rw [List.getElem?_zipIdx, Nat.zero_add] at hi hj
    obtain ⟨row, hrow, rfl⟩ := Option.map_eq_some_iff.mp hi
    obtain ⟨row', hrow', rfl⟩ := Option.map_eq_some_iff.mp hj
    exact h i j row row' hij hrow hrow'

theorem starts_rise_iff_inStep (rows : List Row) :
    (rows.zipIdx.map (startAt rows)).Pairwise (· ≤ ·) ↔
      (rows.filterMap Row.span).Pairwise (·.start ≤ ·.start) ∧ InStep rows := by
  rw [pairwise_startAt_iff, List.pairwise_filterMap, pairwise_iff_getElem?]
  constructor
  · intro h
    constructor
    · intro i j row row' hij hi hj given hgiven given' hgiven'
      have hle := h i j row row' hij hi hj
      rwa [startAt_of_given rows i hgiven, startAt_of_given rows j hgiven'] at hle
    · intro i j row given hi hnone hj
      obtain ⟨row', hj, hgiven⟩ := Option.bind_eq_some_iff.mp hj
      constructor
      · intro hij
        have hle := h i j row row' hij hi hj
        rwa [startAt_of_omitted rows i hnone, startAt_of_given rows j hgiven] at hle
      · intro hji
        have hle := h j i row' row hji hj hi
        rwa [startAt_of_omitted rows i hnone, startAt_of_given rows j hgiven] at hle
  · rintro ⟨hgivens, hstep⟩ i j row row' hij hi hj
    cases hspan : row.span with
    | some given =>
      rw [startAt_of_given rows i hspan]
      cases hspan' : row'.span with
      | some given' =>
        rw [startAt_of_given rows j hspan']
        exact hgivens i j row row' hij hi hj given hspan given' hspan'
      | none =>
        rw [startAt_of_omitted rows j hspan']
        exact (hstep j i row' given hj hspan' (by rw [hi, Option.bind_some, hspan])).2 hij
    | none =>
      rw [startAt_of_omitted rows i hspan]
      cases hspan' : row'.span with
      | some given' =>
        rw [startAt_of_given rows j hspan']
        exact (hstep i j row given' hi hspan (by rw [hj, Option.bind_some, hspan'])).1 hij
      | none =>
        rw [startAt_of_omitted rows j hspan']
        exact Int.ofNat_le.mpr (offsetAt_le rows (Nat.le_of_lt hij))

/--
A row without a span starts at the offset that the leaves without one leave, whatever spans are given
before it. So the starts rise along the rows if and only if the given ones do, and do so in step with
those offsets.
-/
theorem starts_rise_iff (d : Document) (hd : d.Valid) :
    ∃ t, d.toTree = .ok t ∧
      t.walk.map (·.node.span.start) = d.rows.zipIdx.map (startAt d.rows) ∧
      ((t.walk.map (·.node.span.start)).Pairwise (· ≤ ·) ↔
        (d.rows.filterMap Row.span).Pairwise (·.start ≤ ·.start) ∧ InStep d.rows) ∧
      ∀ i j, i ≤ j → offsetAt d.rows i ≤ offsetAt d.rows j := by
  obtain ⟨t, h⟩ := hd.planted
  have hstarts := h.map_start_walk hd
  refine ⟨t, h.toTree, hstarts, ?_, fun i j hij => offsetAt_le d.rows hij⟩
  rw [hstarts]
  exact starts_rise_iff_inStep d.rows

theorem starts_fall_back :
    let d : Document := ⟨"a.cs", [
      ⟨.compilationUnit, none, none, none, none, some (.ofRange 5 9)⟩,
      ⟨.identifierName, some 0, none, none, none, none⟩,
      ⟨.identifierName, some 0, some "b", none, none, some (.ofRange 5 6)⟩]⟩
    d.Valid ∧ (d.rows.filterMap Row.span).Pairwise (·.start ≤ ·.start) ∧
      ∃ t, d.toTree = .ok t ∧ t.walk.map (·.node.span.start) = [5, 0, 5] ∧
        ¬ (t.walk.map (·.node.span.start)).Pairwise (· ≤ ·) := by
  intro d
  have hd : d.Valid := by
    refine ⟨by simp [d], rfl, ?_⟩
    simp [d, isSound_iff, Span.ofRange]
  obtain ⟨t, h⟩ := hd.planted
  have hstarts : t.walk.map (·.node.span.start) = [5, 0, 5] := h.map_start_walk hd
  refine ⟨hd, by decide, t, h.toTree, hstarts, ?_⟩
  rw [hstarts]
  decide

theorem starts_rise_iff_mixed :
    let d : Document := ⟨"a.cs", [
      ⟨.compilationUnit, none, none, none, none, none⟩,
      ⟨.identifierName, some 0, some "ab", none, none, none⟩,
      ⟨.identifierName, some 0, some "b", none, none, some (.ofRange 3 4)⟩,
      ⟨.identifierName, some 0, some "c", none, none, none⟩]⟩
    d.Valid ∧ ∃ t, d.toTree = .ok t ∧ t.walk.map (·.node.span.start) = [0, 0, 3, 3] ∧
      InStep d.rows := by
  intro d
  have hd : d.Valid := by
    refine ⟨by simp [d], rfl, ?_⟩
    simp [d, isSound_iff, Span.ofRange]
  obtain ⟨t, ht, hstarts, hrise, -⟩ := starts_rise_iff d hd
  have hstarts : t.walk.map (·.node.span.start) = [0, 0, 3, 3] := hstarts
  rw [hstarts] at hrise
  exact ⟨hd, t, ht, hstarts, (hrise.mp (by decide)).2⟩

end TreeLint.Document
