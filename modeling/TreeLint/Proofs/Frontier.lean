import TreeLint.Proofs.Navigation
import TreeLint.Proofs.Slicing

namespace TreeLint

namespace Text

theorem spaced_eq_intercalate (texts : List String) : spaced texts = " ".intercalate texts := by
  induction texts with
  | nil => simp [spaced]
  | cons t rest ih =>
    by_cases hrest : rest = []
    · simp [hrest, spaced]
    · rw [spaced_cons hrest, ih, String.intercalate_cons_of_ne_nil hrest]

theorem phrase_eq_intercalate (texts : List String) :
    phrase texts = " ".intercalate (texts.filter (· ≠ "")) :=
  spaced_eq_intercalate _

theorem phrase_singleton (text : String) : phrase [text] = text := by
  by_cases h : text = "" <;> simp [phrase, spaced, h]

theorem phrase_eq_empty_iff (texts : List String) :
    phrase texts = "" ↔ texts.filter (· ≠ "") = [] := by
  constructor
  · intro h
    cases hfilter : texts.filter (· ≠ "") with
    | nil => rfl
    | cons text rest =>
      have hne : text ≠ "" := by
        have hmem : text ∈ texts.filter (· ≠ "") := hfilter ▸ List.mem_cons_self
        exact of_decide_eq_true (List.mem_filter.mp hmem).2
      rw [phrase, hfilter] at h
      exact absurd h (spaced_ne_empty hne rest)
  · intro h
    rw [phrase, h, spaced]

theorem phrase_append_empty (texts : List String) : phrase (texts ++ [""]) = phrase texts := by
  simp [phrase]

theorem phrase_append (xs ys : List String) :
    phrase (xs ++ ys) = phrase [phrase xs, phrase ys] := by
  by_cases hx : phrase xs = ""
  · have hnone := (phrase_eq_empty_iff xs).mp hx
    rw [hx, phrase_cons_empty, phrase_singleton, phrase, List.filter_append, hnone]
    rfl
  · by_cases hy : phrase ys = ""
    · have hnone := (phrase_eq_empty_iff ys).mp hy
      have hpair : phrase [phrase xs, ""] = phrase [phrase xs] := phrase_append_empty [phrase xs]
      rw [hy, hpair, phrase_singleton, phrase, List.filter_append, hnone, List.append_nil]
      rfl
    · have hpair : phrase [phrase xs, phrase ys] = phrase xs ++ " " ++ phrase ys :=
        phrase_eq_spaced (by simp [hx, hy])
      rw [hpair, phrase_eq_intercalate, List.filter_append,
        String.intercalate_append_of_ne_nil (mt (phrase_eq_empty_iff xs).mpr hx)
          (mt (phrase_eq_empty_iff ys).mpr hy),
        ← phrase_eq_intercalate, ← phrase_eq_intercalate]

theorem phrase_map_phrase (lists : List (List String)) :
    phrase (lists.map phrase) = phrase lists.flatten := by
  induction lists with
  | nil => rfl
  | cons texts rest ih =>
    rw [List.map_cons, List.flatten_cons, phrase_append texts, ← List.singleton_append,
      phrase_append, phrase_singleton, ih]

structure Joins (parts : List String) (text : String) : Prop where
  first : text.toList.head? = parts.head?.bind (·.toList.head?)
  last : text.toList.getLast? = parts.getLast?.bind (·.toList.getLast?)
  blanks : text.toList.count ' ' =
    (parts.map (·.toList.count ' ')).sum + (parts.length - 1)

theorem joins_intercalate {parts : List String} (h : ∀ part ∈ parts, part ≠ "") :
    Joins parts (" ".intercalate parts) := by
  induction parts with
  | nil => constructor <;> simp
  | cons part rest ih =>
    have hpart : part.toList ≠ [] := by simpa using h part List.mem_cons_self
    have hrest := ih fun p hp => h p (List.mem_cons_of_mem _ hp)
    cases rest with
    | nil => constructor <;> simp
    | cons next rest =>
      have hnext : (" ".intercalate (next :: rest)).toList ≠ [] := by
        rw [← spaced_eq_intercalate]
        simpa using spaced_ne_empty (h next (by simp)) rest
      rw [String.intercalate_cons_cons]
      constructor
      · rw [String.append_assoc, String.toList_append, List.head?_append_of_ne_nil _ hpart]
        rfl
      · rw [String.toList_append, List.getLast?_append_of_ne_nil _ hnext, hrest.last,
          List.getLast?_cons_cons]
      · simp only [String.toList_append, List.count_append, hrest.blanks, List.map_cons,
          List.sum_cons, List.length_cons]
        have hblank : (" " : String).toList.count ' ' = 1 := rfl
        omega

end Text

theorem map_getElem?_findIdxs {α : Type} (p : α → Bool) (l : List α) :
    (l.findIdxs p).map (l[·]?) = (l.filter p).map some := by
  induction l with
  | nil => rfl
  | cons a l ih =>
    have hrest : (l.findIdxs p (0 + 1)).map ((a :: l)[·]?) = (l.filter p).map some := by
      rw [List.findIdxs_start, List.map_map, ← ih]
      rfl
    rw [List.findIdxs_cons, List.filter_cons]
    split
    · rw [List.map_cons, hrest]
      rfl
    · exact hrest

namespace Site

theorem map_some_standingIn {sites : List Site} {ps : List (Option Nat)}
    (hlen : sites.length = ps.length) (i : Nat) :
    (standingIn sites ps i).map some = (ps.findIdxs (· == some i)).map (sites[·]?) := by
  have hat := map_getElem?_findIdxs (fun e : Site × Option Nat => e.2 == some i) (sites.zip ps)
  have hcomp : (fun e : Site × Option Nat => e.2 == some i) = (· == some i) ∘ Prod.snd := rfl
  have hfst : ∀ j : Nat, (sites.zip ps)[j]?.map Prod.fst = sites[j]? := by
    intro j
    rw [← List.getElem?_map, List.map_fst_zip (Nat.le_of_eq hlen)]
  rw [hcomp, ← List.findIdxs_map, List.map_snd_zip (Nat.le_of_eq hlen.symm)] at hat
  have hmap := congrArg (List.map (Option.map Prod.fst)) hat
  simp only [List.map_map, Function.comp_def, hfst, Option.map_some] at hmap
  rw [hmap, standingIn, List.map_map]
  rfl

end Site

namespace Document

def childrenAt (rows : List Row) (i : Nat) : List Nat :=
  (rows.findIdxs (·.parent == some i)).filter (i < ·)

theorem mem_childrenAt_iff {rows : List Row} {i j : Nat} :
    j ∈ childrenAt rows i ↔ i < j ∧ StandsIn (rows.map Row.parent) j i := by
  rw [childrenAt, List.mem_filter, List.mem_findIdxs_iff_exists_getElem_pos]
  simp [StandsIn, List.getElem?_eq_some_iff, and_comm]

def frontier (rows : List Row) (i : Nat) : List Nat :=
  if (rows[i]?.bind Row.text).isSome then [i]
  else (childrenAt rows i).attach.flatMap fun ⟨j, _⟩ => frontier rows j
termination_by rows.length - i
decreasing_by
  obtain ⟨hlt, hparent⟩ := mem_childrenAt_iff.mp ‹_›
  have := (List.getElem?_eq_some_iff.mp hparent).1
  rw [List.length_map] at this
  omega

theorem frontier_of_text {rows : List Row} {i : Nat} {row : Row} (hrow : rows[i]? = some row)
    {text : String} (htext : row.text = some text) : frontier rows i = [i] := by
  rw [frontier, if_pos (by simp [hrow, htext])]

theorem frontier_of_omitted {rows : List Row} {i : Nat} {row : Row} (hrow : rows[i]? = some row)
    (htext : row.text = none) : frontier rows i = (childrenAt rows i).flatMap (frontier rows) := by
  rw [frontier, if_neg (by simp [hrow, htext])]
  rw [List.flatMap_subtype (g := frontier rows) fun _ _ => rfl, List.unattach_attach]

def frontierTexts (rows : List Row) (i : Nat) : List String :=
  (frontier rows i).filterMap fun j => rows[j]?.bind Row.text

theorem frontierTexts_of_text {rows : List Row} {i : Nat} {row : Row} (hrow : rows[i]? = some row)
    {text : String} (htext : row.text = some text) : frontierTexts rows i = [text] := by
  simp [frontierTexts, frontier_of_text hrow htext, hrow, htext]

theorem frontierTexts_of_omitted {rows : List Row} {i : Nat} {row : Row}
    (hrow : rows[i]? = some row) (htext : row.text = none) :
    frontierTexts rows i = (childrenAt rows i).flatMap (frontierTexts rows) := by
  rw [frontierTexts, frontier_of_omitted hrow htext, List.filterMap_flatMap]
  rfl

namespace Planted

variable {d : Document} {t : Tree}

theorem children_eq (h : Planted d t) (hd : d.Valid) {i : Nat} {s : Site}
    (hs : t.walk[i]? = some s) :
    s.children.map some = (childrenAt d.rows i).map (t.walk[·]?) := by
  have hlen : t.walk.length = (d.rows.map Row.parent).length := by
    rw [h.length_walk, List.length_map]
  have hbehind : childrenAt d.rows i = (d.rows.map Row.parent).findIdxs (· == some i) := by
    rw [childrenAt, List.findIdxs_map, List.filter_eq_self.mpr]
    · rfl
    · intro j hj
      obtain ⟨hlt, hp⟩ := List.mem_findIdxs_iff_exists_getElem_pos.mp hj
      have hstands : StandsIn (d.rows.map Row.parent) j i := by
        simpa [StandsIn, hlt] using hp
      exact decide_eq_true (hd.followsPath.lt_of_standsIn hstands)
  rw [h.children_at hs, Site.map_some_standingIn hlen, hbehind]

theorem text_at (h : Planted d t) (hd : d.Valid) {i : Nat} {s : Site} {row : Row}
    (hs : t.walk[i]? = some s) (hrow : d.rows[i]? = some row) :
    s.node.text = row.text.getD (Text.phrase (s.node.children.map Node.text)) := by
  obtain ⟨w, hw⟩ := hd.exists_outlines
  obtain ⟨⟨⟨_, span⟩, inner⟩, -, rfl, base, hnode⟩ := h.exists_sub hd hw hs hrow
  rw [hnode]
  rfl

theorem text_eq (h : Planted d t) (hd : d.Valid) {i : Nat} {s : Site} (hs : t.walk[i]? = some s) :
    s.node.text = Text.phrase (frontierTexts d.rows i) := by
  -- from the last row back: whatever stands in a row comes behind it
  induction hn : d.rows.length - i using Nat.strongRecOn generalizing i s with
  | _ n ih =>
    obtain ⟨row, hrow⟩ := h.exists_row hs
    rw [h.text_at hd hs hrow]
    cases htext : row.text with
    | some text =>
      rw [frontierTexts_of_text hrow htext, Text.phrase_singleton, Option.getD_some]
    | none =>
      have hchildren : s.node.children.map Node.text =
          (childrenAt d.rows i).map fun j => Text.phrase (frontierTexts d.rows j) := by
        apply List.map_injective_iff.mpr (Option.some_injective String)
        have hnodes : (s.node.children.map Node.text).map some =
            (s.children.map some).map (Option.map (·.node.text)) := by
          simp [Site.children, Function.comp_def]
        rw [hnodes, h.children_eq hd hs, List.map_map, List.map_map]
        apply List.map_congr_left
        intro j hj
        obtain ⟨hij, hstands⟩ := mem_childrenAt_iff.mp hj
        have hlt := (List.getElem?_eq_some_iff.mp hstands).1
        rw [List.length_map, ← h.length_walk] at hlt
        have hc := List.getElem?_eq_getElem hlt
        rw [h.length_walk] at hlt
        rw [Function.comp_apply, hc, Option.map_some, ih _ (by omega) hc rfl]
        rfl
      rw [frontierTexts_of_omitted hrow htext, hchildren, Option.getD_none, List.flatMap_def,
        ← Text.phrase_map_phrase, List.map_map]
      rfl

end Planted

/--
The text of a node is made of the non-empty texts of its frontier, with one blank between neighbours:
what is empty or not given inside the node leaves no blank behind.
-/
theorem text_joins_frontier (d : Document) (hd : d.Valid) :
    ∃ t, d.toTree = .ok t ∧ t.walk.length = d.rows.length ∧
      ∀ (i : Nat) s, t.walk[i]? = some s →
        s.children.map some = (childrenAt d.rows i).map (t.walk[·]?) ∧
        let parts := (frontierTexts d.rows i).filter (· ≠ "")
        s.node.text = " ".intercalate parts ∧
          (s.node.text = "" ↔ ∀ text ∈ frontierTexts d.rows i, text = "") ∧
          Text.Joins parts s.node.text := by
  obtain ⟨t, h⟩ := hd.planted
  refine ⟨t, h.toTree, h.length_walk, ?_⟩
  intro i s hs
  have htext := h.text_eq hd hs
  have hempty := Text.phrase_eq_empty_iff (frontierTexts d.rows i)
  rw [← htext] at hempty
  rw [Text.phrase_eq_intercalate] at htext
  refine ⟨h.children_eq hd hs, htext, ?_, ?_⟩
  · rw [hempty]
    simp
  · rw [htext]
    apply Text.joins_intercalate
    intro part hpart
    exact of_decide_eq_true (List.mem_filter.mp hpart).2

theorem text_joins_frontier_mixed :
    let d : Document := ⟨"a.cs", [
      ⟨.invocationExpression, none, none, none, none, none⟩,
      ⟨.memberAccessExpression, some 0, none, none, none, none⟩,
      ⟨.identifierName, some 1, some "", none, none, none⟩,
      ⟨.identifierName, some 1, some "xs", none, none, none⟩,
      ⟨.argumentList, some 1, none, none, none, none⟩,
      ⟨.argument, some 0, none, none, none, none⟩,
      ⟨.literalExpression, some 5, some "", none, none, none⟩,
      ⟨.argument, some 0, some "a, b", none, none, none⟩,
      ⟨.identifierName, some 7, some "unseen", none, none, none⟩]⟩
    d.Valid ∧ frontierTexts d.rows 0 = ["", "xs", "", "a, b"] ∧ ∃ t whole argument,
      d.toTree = .ok t ∧ t.walk[0]? = some whole ∧ t.walk[5]? = some argument ∧
      whole.node.text = "xs a, b" ∧ argument.node.text = "" := by
  intro d
  have hd : d.Valid := by
    refine ⟨by simp [d], rfl, ?_⟩
    simp [d]
  have htexts : frontierTexts d.rows 0 = ["", "xs", "", "a, b"] := by decide +kernel
  have hnone : frontierTexts d.rows 5 = [""] := by decide +kernel
  obtain ⟨t, ht, hlen, hall⟩ := text_joins_frontier d hd
  have hlen : t.walk.length = 9 := hlen
  have hat := fun i (hi : i < 9) => List.getElem?_eq_getElem (l := t.walk) (hlen ▸ hi)
  obtain ⟨-, hwhole, -⟩ := hall 0 _ (hat 0 (by decide))
  obtain ⟨-, -, hargument, -⟩ := hall 5 _ (hat 5 (by decide))
  rw [htexts] at hwhole
  rw [hnone] at hargument
  refine ⟨hd, htexts, t, _, _, ht, hat 0 (by decide), hat 5 (by decide), hwhole, ?_⟩
  exact hargument.mpr (by simp)

end Document

end TreeLint
