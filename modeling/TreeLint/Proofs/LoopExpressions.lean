import TreeLint.Proofs.RowReports
import TreeLint.Proofs.TypeNames

namespace TreeLint

theorem find?_of_map_some {α β : Type} {as : List α} {bs : List β} {f : β → Option α}
    (h : as.map some = bs.map f) {p : α → Bool} {q : β → Bool}
    (hpq : ∀ b ∈ bs, ∀ a, f b = some a → p a = q b) : as.find? p = (bs.find? q).bind f := by
  induction as generalizing bs with
  | nil =>
    obtain rfl : bs = [] := by simpa using h.symm
    rfl
  | cons a as ih =>
    cases bs with
    | nil => simp at h
    | cons b bs =>
      obtain ⟨hb, hrest⟩ := List.cons.inj h
      have hp := hpq b List.mem_cons_self a hb.symm
      rw [List.find?_cons, List.find?_cons, hp]
      cases q b with
      | true => exact hb
      | false => exact ih hrest fun b hmem => hpq b (List.mem_cons_of_mem _ hmem)

namespace Text

variable {needle : List Char} {c : Char}

theorem infix_append_cons_iff (hne : needle ≠ []) (hc : c ∉ needle) (xs ys : List Char) :
    needle <:+: xs ++ c :: ys ↔ needle <:+: xs ∨ needle <:+: ys := by
  induction xs with
  | nil =>
    have hfirst : needle <+: [] ++ c :: ys ↔ needle <+: [] := prefix_append_cons_iff ys hc
    rw [List.nil_append, List.prefix_nil] at hfirst
    simp [List.infix_cons_iff, hfirst, hne]
  | cons x xs ih =>
    have hfirst : needle <+: x :: xs ++ c :: ys ↔ needle <+: x :: xs := prefix_append_cons_iff ys hc
    rw [List.cons_append] at hfirst ⊢
    rw [List.infix_cons_iff, List.infix_cons_iff, hfirst, ih, or_assoc]

theorem infix_intercalate_iff (hne : needle ≠ []) (hblank : ' ' ∉ needle) (parts : List String) :
    needle <:+: (" ".intercalate parts).toList ↔ ∃ part ∈ parts, needle <:+: part.toList := by
  induction parts with
  | nil => simp [hne]
  | cons part rest ih =>
    cases rest with
    | nil => simp
    | cons next rest =>
      have hjoin : (" ".intercalate (part :: next :: rest)).toList =
          part.toList ++ ' ' :: (" ".intercalate (next :: rest)).toList := by
        rw [String.intercalate_cons_cons, String.toList_append, String.toList_append,
          List.append_assoc]
        rfl
      rw [hjoin, infix_append_cons_iff hne hblank, ih]
      simp

theorem infix_phrase_iff (hne : needle ≠ []) (hblank : ' ' ∉ needle) (texts : List String) :
    needle <:+: (phrase texts).toList ↔ ∃ text ∈ texts, needle <:+: text.toList := by
  rw [phrase_eq_intercalate, infix_intercalate_iff hne hblank]
  constructor
  · rintro ⟨text, hmem, htext⟩
    exact ⟨text, List.mem_of_mem_filter hmem, htext⟩
  · rintro ⟨text, hmem, htext⟩
    refine ⟨text, List.mem_filter.mpr ⟨hmem, decide_eq_true ?_⟩, htext⟩
    rintro rfl
    exact hne (List.infix_nil.mp htext)

end Text

namespace Document

def childAt (rows : List Row) (role : String) (i : Nat) : Option Nat :=
  (childrenAt rows i).find? fun j => rows[j]?.bind Row.role == some role

def Materializes (rows : List Row) (i : Nat) : Prop :=
  ∃ j ∈ frontier rows i, ∃ text, rows[j]?.bind Row.text = some text ∧
    ∃ call ∈ Statements.materializingCalls, call.toList <:+: text.toList

namespace Planted

variable {d : Document} {t : Tree}

theorem role_at (h : Planted d t) {i : Nat} {s : Site} (hs : t.walk[i]? = some s) :
    s.node.role = d.rows[i]?.bind Row.role := by
  obtain ⟨row, hrow⟩ := h.exists_row hs
  obtain ⟨span, -, hshows⟩ := h.shows_at hs hrow
  rw [hshows.role, hrow]
  rfl

theorem child?_at (h : Planted d t) (hd : d.Valid) {i : Nat} {s : Site}
    (hs : t.walk[i]? = some s) (role : String) :
    s.node.child? role = ((childAt d.rows role i).bind (t.walk[·]?)).map Site.node := by
  have hfind : s.children.find? (·.node.role == some role) =
      (childAt d.rows role i).bind (t.walk[·]?) := by
    apply find?_of_map_some (h.children_eq hd hs)
    intro j _ c hc
    rw [h.role_at hc]
  have hnodes : s.node.children = s.children.map Site.node := by
    simp [Site.children, Function.comp_def]
  rw [Node.child?, hnodes, List.find?_map]
  exact congrArg (Option.map Site.node) hfind

theorem exists_child (h : Planted d t) {role : String} {i j : Nat}
    (hj : childAt d.rows role i = some j) : ∃ e, t.walk[j]? = some e := by
  obtain ⟨-, hstands⟩ := mem_childrenAt_iff.mp (List.mem_of_find?_eq_some hj)
  have hlt := (List.getElem?_eq_some_iff.mp hstands).1
  rw [List.length_map, ← h.length_walk] at hlt
  exact ⟨_, List.getElem?_eq_getElem hlt⟩

theorem infix_text_iff (h : Planted d t) (hd : d.Valid) {i : Nat} {s : Site}
    (hs : t.walk[i]? = some s) {call : String} (hcall : call ∈ Statements.materializingCalls) :
    call.toList <:+: s.node.text.toList ↔
      ∃ text ∈ frontierTexts d.rows i, call.toList <:+: text.toList := by
  have hplain : ∀ call ∈ Statements.materializingCalls, call.toList ≠ [] ∧ ' ' ∉ call.toList := by
    decide
  obtain ⟨hne, hblank⟩ := hplain call hcall
  rw [h.text_eq hd hs, Text.infix_phrase_iff hne hblank]

theorem materializes_iff (h : Planted d t) (hd : d.Valid) {i : Nat} {s : Site}
    (hs : t.walk[i]? = some s) :
    Statements.materializingCalls.any (Text.occursIn · s.node.text) ↔ Materializes d.rows i := by
  rw [List.any_eq_true]
  constructor
  · rintro ⟨call, hcall, hoccurs⟩
    have hinfix := Text.occursList_iff.mp hoccurs
    obtain ⟨text, htext, hinfix⟩ := (h.infix_text_iff hd hs hcall).mp hinfix
    obtain ⟨j, hj, htext⟩ := List.mem_filterMap.mp htext
    exact ⟨j, hj, text, htext, call, hcall, hinfix⟩
  · rintro ⟨j, hj, text, htext, call, hcall, hinfix⟩
    refine ⟨call, hcall, Text.occursList_iff.mpr ((h.infix_text_iff hd hs hcall).mpr ?_)⟩
    exact ⟨text, List.mem_filterMap.mpr ⟨j, hj, htext⟩, hinfix⟩

theorem toArrayInForeach_at (h : Planted d t) (hd : d.Valid) {i : Nat} {s : Site}
    (hs : t.walk[i]? = some s) :
    t.Decides Statements.materializeInForeachMessage (Statements.toArrayInForeach s)
      (childAt d.rows "expression" i)
      (∃ e, childAt d.rows "expression" i = some e ∧ Materializes d.rows e) := by
  have hchild := h.child?_at hd hs "expression"
  cases hj : childAt d.rows "expression" i with
  | none =>
    rw [hj] at hchild
    apply Tree.Decides.abstain
    · rw [Statements.toArrayInForeach, hchild]
      rfl
    · simp
  | some j =>
    obtain ⟨e, he⟩ := h.exists_child hj
    rw [hj, Option.bind_some, he] at hchild
    apply Tree.Decides.reportIf rfl he
    · rw [Statements.toArrayInForeach, hchild]
      rfl
    · rw [h.materializes_iff hd he]
      simp

end Planted

/--
A loop is reported at its expression if one of the texts that the expression is made of has a call
in it. A loop without an expression is not reported, and no call is found where two texts meet.
-/
theorem materializing_loops_reported (d : Document) (hd : d.Valid) :
    ∃ t sink positions, d.Yields Registry.builtin t sink ∧
      t.Reports sink.diagnostics "SEV006" Statements.materializeInForeachMessage
        (childAt d.rows "expression") positions ∧
      (∀ i, i ∈ positions ↔ kindAt d.rows i = some .foreachStatement ∧
        ∃ e, childAt d.rows "expression" i = some e ∧ Materializes d.rows e) ∧
      ∀ (i : Nat) s, t.walk[i]? = some s → ∀ call ∈ Statements.materializingCalls,
        (call.toList <:+: s.node.text.toList ↔
          ∃ text ∈ frontierTexts d.rows i, call.toList <:+: text.toList) := by
  obtain ⟨t, h⟩ := hd.planted
  have hrule : Rule.catalogue[5] ∈ Rule.catalogue := List.getElem_mem _
  obtain ⟨sink, positions, hyields, hreports, hmem⟩ :=
    h.exists_reports hrule rfl (fun _ _ => rfl) fun _ _ => h.toArrayInForeach_at hd
  refine ⟨t, sink, positions, hyields, hreports, hmem, ?_⟩
  intro i s hs call hcall
  exact h.infix_text_iff hd hs hcall

theorem materializing_loops_reported_split_call :
    let d : Document := ⟨"a.cs", [
      ⟨.foreachStatement, none, none, none, none, none⟩,
      ⟨.invocationExpression, some 0, none, none, some "expression", none⟩,
      ⟨.memberAccessExpression, some 1, none, none, none, none⟩,
      ⟨.identifierName, some 2, some "", none, none, none⟩,
      ⟨.identifierName, some 2, some "xs.ToList()", none, none, none⟩,
      ⟨.block, some 0, none, none, none, none⟩,
      ⟨.foreachStatement, some 5, none, none, none, none⟩,
      ⟨.invocationExpression, some 6, none, none, some "expression", none⟩,
      ⟨.identifierName, some 7, some "xs.To", none, none, none⟩,
      ⟨.argumentList, some 7, some "List()", none, none, none⟩,
      ⟨.foreachStatement, some 5, none, none, none, none⟩,
      ⟨.invocationExpression, some 10, some "xs.ToArray()", none, none, none⟩]⟩
    d.Valid ∧ ∃ t sink positions, d.Yields Registry.builtin t sink ∧
      t.Reports sink.diagnostics "SEV006" Statements.materializeInForeachMessage
        (childAt d.rows "expression") positions ∧
      0 ∈ positions ∧ 6 ∉ positions ∧ 10 ∉ positions := by
  intro d
  have hd : d.Valid := by
    refine ⟨by simp [d], rfl, ?_⟩
    simp [d]
  obtain ⟨t, sink, positions, hyields, hreports, hmem, -⟩ := materializing_loops_reported d hd
  refine ⟨hd, t, sink, positions, hyields, hreports, ?_, ?_, ?_⟩
  · refine (hmem 0).mpr ⟨rfl, 1, rfl, 4, by decide +kernel, "xs.ToList()", rfl, ".ToList()", ?_⟩
    exact ⟨by decide, by decide⟩
  · rw [hmem]
    rintro ⟨-, e, he, j, hj, text, htext, hcall⟩
    have hfrontier : frontier d.rows 7 = [8, 9] := by decide +kernel
    cases he
    rw [hfrontier, List.mem_pair] at hj
    rcases hj with rfl | rfl
    all_goals
      cases htext
      revert hcall
      decide
  · rw [hmem]
    rintro ⟨-, e, he, -⟩
    cases he

end Document

end TreeLint
