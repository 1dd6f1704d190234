import Mathlib.Data.List.TakeWhile
import TreeLint.Proofs.Location
import TreeLint.Proofs.Nesting
import TreeLint.Proofs.Revalidation

namespace TreeLint

namespace Node

mutual

def Rises : Int → Int → Node → Prop
  | lo, hi, mk _ _ label children => label.span.start = lo ∧ lo < hi ∧ RisesAll lo hi children

def RisesAll : Int → Int → List Node → Prop
  | lo, hi, [] => lo ≤ hi
  | lo, hi, n :: rest => ∃ middle, n.Rises lo middle ∧ RisesAll middle hi rest

end

variable {lo hi : Int} {n : Node} {ns : List Node}

theorem Rises.start_eq (h : n.Rises lo hi) : n.span.start = lo := by
  cases n
  exact h.1

theorem Rises.lt (h : n.Rises lo hi) : lo < hi := by
  cases n
  exact h.2.1

theorem Rises.children (h : n.Rises lo hi) : RisesAll lo hi n.children := by
  cases n
  exact h.2.2

theorem RisesAll.le (h : RisesAll lo hi ns) : lo ≤ hi := by
  induction ns generalizing lo with
  | nil => exact h
  | cons n rest ih =>
    obtain ⟨middle, hn, hrest⟩ := h
    have := hn.lt
    have := ih hrest
    omega

theorem RisesAll.start_of_mem (h : RisesAll lo hi ns) (hn : n ∈ ns) :
    lo ≤ n.span.start ∧ n.span.start < hi := by
  induction ns generalizing lo with
  | nil => simp at hn
  | cons first rest ih =>
    obtain ⟨middle, hfirst, hrest⟩ := h
    have hlt := hfirst.lt
    have hle := hrest.le
    rcases List.mem_cons.mp hn with rfl | hn
    · rw [hfirst.start_eq]
      omega
    · have := ih hrest hn
      omega

theorem RisesAll.split {before after : List Node} (h : RisesAll lo hi (before ++ after)) :
    ∃ middle, RisesAll lo middle before ∧ RisesAll middle hi after := by
  induction before generalizing lo with
  | nil => exact ⟨lo, Int.le_refl lo, h⟩
  | cons n rest ih =>
    obtain ⟨next, hn, hrest⟩ := h
    obtain ⟨middle, hbefore, hafter⟩ := ih hrest
    exact ⟨middle, ⟨next, hn, hbefore⟩, hafter⟩

end Node

namespace Outline

open Document Node

mutual

theorem lt_next (offset : Nat) (t : Outline Row) (h : ∀ row ∈ t.labels, row.span = none) :
    offset < t.next offset := by
  match t with
  | mk row [] =>
    have hspan : row.span = none := h row (by simp [labels])
    simp only [next, nextOf, hspan, List.isEmpty_nil, Option.isNone_none, Bool.and_self, if_true]
    omega
  | mk row (u :: rest) =>
    simp only [next, nextOf, List.isEmpty_cons, Bool.false_and, Bool.false_eq_true, if_false]
    have hu := lt_next offset u fun r hr => h r (by simp [labels, labelsOf, hr])
    exact Nat.lt_of_lt_of_le hu (le_nextOf _ rest)

end

mutual

theorem rises_grow (offset base : Nat) (t : Outline Row)
    (h : ∀ row ∈ t.labels, row.span = none) :
    ((t.fill offset).grow base).Rises offset (t.next offset) := by
  match t with
  | mk row inner =>
    have hspan : (mk row inner).label.span = none := h row (by simp [labels])
    have hlt := lt_next offset _ h
    have hinner := risesAll_growAll offset base inner
      fun r hr => h r (List.mem_cons_of_mem _ hr)
    rw [fill, grow, Rises, filled_of_none hspan]
    refine ⟨rfl, Int.ofNat_lt.mpr hlt, ?_⟩
    cases inner with
    | nil => exact Int.ofNat_le.mpr (Nat.le_of_lt hlt)
    | cons u rest => exact hinner

theorem risesAll_growAll (offset base : Nat) (ts : List (Outline Row))
    (h : ∀ row ∈ labelsOf ts, row.span = none) :
    RisesAll offset (nextOf offset ts) (growAll base (fillAll offset ts)) := by
  match ts with
  | [] => exact Int.le_refl offset
  | t :: rest =>
    rw [fillAll, growAll, nextOf, RisesAll]
    exact ⟨_, rises_grow offset _ t fun r hr => h r (List.mem_append_left _ hr),
      risesAll_growAll _ base rest fun r hr => h r (List.mem_append_right _ hr)⟩

end

end Outline

namespace Site

def around (s : Site) : List Enclosing :=
  ⟨s.node.serial, .known s.node.kind⟩ :: s.above

def ahead (role : String) (s : Site) : List Site :=
  (s.children.takeWhile (·.node.role != some role)).flatMap preorder

theorem ahead_eq (role : String) (s : Site) :
    s.ahead role = preordersOf s.around (s.node.children.takeWhile (·.role != some role)) := by
  rw [ahead, Site.children, List.takeWhile_map, List.flatMap_map, preordersOf_eq]
  rfl

theorem split_at_child {s : Site} {role : String} {n : Node} (h : s.node.child? role = some n) :
    ∃ before after, s.node.children = before ++ n :: after ∧
      s.ahead role = preordersOf s.around before := by
  obtain ⟨hrole, before, after, hsplit, hbefore⟩ := List.find?_eq_some_iff_append.mp h
  refine ⟨before, after, hsplit, ?_⟩
  rw [ahead_eq, hsplit, List.takeWhile_append_of_pos]
  · rw [List.takeWhile_cons_of_neg (by simpa using hrole), List.append_nil]
  · intro c hc
    simpa [bne] using hbefore c hc

theorem preordersOf_append (above : List Enclosing) (xs ys : List Node) :
    preordersOf above (xs ++ ys) = preordersOf above xs ++ preordersOf above ys := by
  simp only [preordersOf_eq, List.flatMap_append]

end Site

def InOrder (ds : List Diagnostic) : Prop :=
  ds.Pairwise fun x y => x.location.start ≤ y.location.start

theorem mergeSort_eq_self_iff (ds : List Diagnostic) :
    ds.mergeSort (fun x y => x.location.start ≤ y.location.start) = ds ↔ InOrder ds := by
  constructor
  · intro h
    let le (x y : Diagnostic) : Bool := x.location.start ≤ y.location.start
    have htrans : ∀ x y z, le x y → le y z → le x z := by
      intro x y z hxy hyz
      simp only [le, decide_eq_true_eq] at hxy hyz ⊢
      omega
    have htotal : ∀ x y, le x y || le y x := by
      intro x y
      simp only [le, Bool.or_eq_true, decide_eq_true_eq]
      omega
    have hsorted := List.pairwise_mergeSort htrans htotal ds
    rw [h] at hsorted
    exact hsorted.imp of_decide_eq_true
  · intro h
    exact List.mergeSort_of_pairwise (h.imp decide_eq_true)

structure Reporter where
  report : List Site → List Diagnostic
  append : ∀ xs ys, report (xs ++ ys) = report xs ++ report ys
  target : ∀ s, ∀ x ∈ report [s], x.location = s.target.span

namespace Reporter

open Node (RisesAll)
open Site (preorderOf preordersOf)

variable (r : Reporter)

theorem report_nil : r.report [] = [] := by
  have h := r.append [] []
  simpa using h

theorem report_cons (s : Site) (sites : List Site) :
    r.report (s :: sites) = r.report [s] ++ r.report sites :=
  r.append [s] sites

mutual

theorem start_of_mem_preorderOf {n : Node} {lo hi : Int} (h : n.Rises lo hi)
    (above : List Enclosing) {x : Diagnostic} (hx : x ∈ r.report (preorderOf above n)) :
    lo ≤ x.location.start ∧ x.location.start < hi := by
  match n with
  | .mk serial kind label children =>
    rw [preorderOf, report_cons] at hx
    obtain ⟨hstart, hlt, hchildren⟩ := h
    rcases List.mem_append.mp hx with hx | hx
    · rw [r.target _ x hx]
      rcases Site.target_eq_or_mem_children ⟨.mk serial kind label children, above⟩ with he | hmem
      · have hself : (Node.mk serial kind label children).span.start = lo := hstart
        rw [he, hself]
        exact ⟨Int.le_refl lo, hlt⟩
      · exact hchildren.start_of_mem hmem
    · exact start_of_mem_preordersOf hchildren _ hx

theorem start_of_mem_preordersOf {ns : List Node} {lo hi : Int} (h : RisesAll lo hi ns)
    (above : List Enclosing) {x : Diagnostic} (hx : x ∈ r.report (preordersOf above ns)) :
    lo ≤ x.location.start ∧ x.location.start < hi := by
  match ns with
  | [] => simp [preordersOf, report_nil] at hx
  | n :: rest =>
    obtain ⟨middle, hn, hrest⟩ := h
    have hlt := hn.lt
    have hle := hrest.le
    rw [preordersOf, r.append] at hx
    rcases List.mem_append.mp hx with hx | hx
    · have := start_of_mem_preorderOf hn above hx
      omega
    · have := start_of_mem_preordersOf hrest above hx
      omega

end

/-- If the site is a loop and is reported, nothing is reported ahead of its expression. -/
def Keeps (s : Site) : Prop :=
  s.kind = .foreachStatement → (s.node.child? "expression").isSome → r.report [s] ≠ [] →
    r.report (s.ahead "expression") = []

theorem le_below_of_target_eq {s : Site} {lo hi : Int} (h : s.node.Rises lo hi)
    (htarget : s.target = s.node) : ∀ x ∈ r.report [s],
      ∀ y ∈ r.report (preordersOf s.around s.node.children),
        x.location.start ≤ y.location.start := by
  intro x hx y hy
  rw [r.target s x hx, htarget, h.start_eq]
  exact (r.start_of_mem_preordersOf h.children _ hy).1

theorem le_below_iff_of_child {s : Site} {role : String} {e : Node} {lo hi : Int}
    (h : s.node.Rises lo hi) (he : s.node.child? role = some e) (htarget : s.target = e) :
    (∀ x ∈ r.report [s], ∀ y ∈ r.report (preordersOf s.around s.node.children),
      x.location.start ≤ y.location.start) ↔ (r.report [s] ≠ [] → r.report (s.ahead role) = []) := by
  obtain ⟨before, after, hsplit, hahead⟩ := Site.split_at_child he
  have hchildren := h.children
  rw [hsplit] at hchildren ⊢
  obtain ⟨middle, hbefore, hafter⟩ := hchildren.split
  have hstart : ∀ x ∈ r.report [s], x.location.start = middle := by
    intro x hx
    obtain ⟨_, hself, -⟩ := hafter
    rw [r.target s x hx, htarget, hself.start_eq]
  rw [Site.preordersOf_append, r.append, hahead]
  constructor
  · intro hle hne
    obtain ⟨x, hx⟩ := List.exists_mem_of_ne_nil _ hne
    rw [List.eq_nil_iff_forall_not_mem]
    intro y hy
    -- a report ahead of the child would start before `middle`, where `x` starts
    have hbound := r.start_of_mem_preordersOf hbefore _ hy
    have hxy := hle x hx y (List.mem_append_left _ hy)
    rw [hstart x hx] at hxy
    omega
  · intro hkeeps x hx y hy
    rw [hkeeps (List.ne_nil_of_mem hx), List.nil_append] at hy
    rw [hstart x hx]
    exact (r.start_of_mem_preordersOf hafter _ hy).1

theorem le_below_iff {s : Site} {lo hi : Int} (h : s.node.Rises lo hi) :
    (∀ x ∈ r.report [s], ∀ y ∈ r.report (preordersOf s.around s.node.children),
      x.location.start ≤ y.location.start) ↔ r.Keeps s := by
  unfold Keeps
  by_cases hkind : s.kind = .foreachStatement
  · cases he : s.node.child? "expression" with
    | some e =>
      have htarget : s.target = e := by rw [Site.target, if_pos hkind, he, Option.getD_some]
      rw [r.le_below_iff_of_child h he htarget]
      simp [hkind]
    | none =>
      have htarget : s.target = s.node := by
        rw [Site.target, if_pos hkind, he, Option.getD_none]
      simpa using r.le_below_of_target_eq h htarget
  · have htarget : s.target = s.node := by rw [Site.target, if_neg hkind]
    simpa [hkind] using r.le_below_of_target_eq h htarget

theorem inOrder_singleton (s : Site) : InOrder (r.report [s]) := by
  apply List.pairwise_of_forall_mem_list
  intro x hx y hy
  rw [r.target s x hx, r.target s y hy]

mutual

theorem inOrder_preorderOf_iff {n : Node} {lo hi : Int} (h : n.Rises lo hi)
    (above : List Enclosing) :
    InOrder (r.report (preorderOf above n)) ↔ ∀ s ∈ preorderOf above n, r.Keeps s := by
  match n with
  | .mk serial kind label children =>
    have hchildren : RisesAll lo hi children := h.children
    have hbelow := inOrder_preordersOf_iff hchildren (⟨serial, .known kind⟩ :: above)
    have hself := r.le_below_iff (s := ⟨.mk serial kind label children, above⟩) h
    rw [preorderOf, report_cons, List.forall_mem_cons, ← hself, ← hbelow, InOrder,
      List.pairwise_append]
    constructor
    · rintro ⟨-, hinside, hle⟩
      exact ⟨hle, hinside⟩
    · rintro ⟨hle, hinside⟩
      exact ⟨r.inOrder_singleton _, hinside, hle⟩

theorem inOrder_preordersOf_iff {ns : List Node} {lo hi : Int} (h : RisesAll lo hi ns)
    (above : List Enclosing) :
    InOrder (r.report (preordersOf above ns)) ↔ ∀ s ∈ preordersOf above ns, r.Keeps s := by
  match ns with
  | [] => simp [preordersOf, report_nil, InOrder]
  | n :: rest =>
    obtain ⟨middle, hn, hrest⟩ := h
    rw [preordersOf, r.append, List.forall_mem_append, ← inOrder_preorderOf_iff hn above,
      ← inOrder_preordersOf_iff hrest above, InOrder, List.pairwise_append]
    constructor
    · rintro ⟨hfirst, hlater, -⟩
      exact ⟨hfirst, hlater⟩
    · rintro ⟨hfirst, hlater⟩
      refine ⟨hfirst, hlater, ?_⟩
      intro x hx y hy
      have := r.start_of_mem_preorderOf hn above hx
      have := r.start_of_mem_preordersOf hrest above hy
      omega

end

end Reporter

namespace Registry

variable {registry : Registry}

def FromCatalogue.reporter (h : registry.FromCatalogue) (t : Tree)
    (passes : Diagnostic → Bool) : Reporter where
  report sites := (registry.outcome t sites).diagnostics.filter passes
  append xs ys := by rw [registry.outcome_append, List.filter_append]
  target s x hx := by
    obtain ⟨s', hs', hlocation⟩ := h.location_of_mem_outcome (List.mem_of_mem_filter hx)
    obtain rfl : s' = s := List.mem_singleton.mp hs'
    exact hlocation

end Registry

namespace Statements

def materializes (s : Site) : Bool :=
  (s.node.child? "expression").any fun e =>
    materializingCalls.any (Text.occursIn · e.text)

end Statements

namespace Registry

theorem diagnostics_foreach (t : Tree) {s : Site} (hs : s.kind = .foreachStatement) :
    (builtin.outcome t [s]).diagnostics =
      if Statements.materializes s then
        [⟨"SEV006", Rule.defaultCategory, .warning, s.target.span,
          Statements.materializeInForeachMessage, t.path⟩]
      else [] := by
  have hrules : builtin.rulesFor s.kind = Rule.catalogue.filter (·.id == "SEV006") := by
    rw [holds_builtin.rulesFor_eq, hs]
    rfl
  have hcatalogue : Rule.catalogue.filter (·.id == "SEV006") = [Rule.catalogue[5]] := by
    rfl
  have hverdict : (Duty.mk s Rule.catalogue[5]).verdict t =
      (Statements.toArrayInForeach s).verdict := rfl
  rw [outcome, duties, List.flatMap_singleton, hrules, hcatalogue, List.map_singleton]
  simp only [List.filterMap_cons, List.filterMap_nil, Duty.diagnostic?, hverdict]
  rw [Statements.materializes, Statements.toArrayInForeach, Site.target, if_pos hs]
  cases s.node.child? "expression" with
  | none => rfl
  | some e =>
    simp only [Option.any_some, Option.getD_some, Judgement.reportIf]
    cases Statements.materializingCalls.any (Text.occursIn · e.text) <;> rfl

end Registry

namespace Document

open Outline

theorem Planted.rises {d : Document} {t : Tree} (h : Planted d t) (hd : d.Valid)
    (hspans : ∀ row ∈ d.rows, row.span = none) : ∃ hi, t.root.Rises 0 hi := by
  obtain ⟨w, hw⟩ := hd.exists_outlines
  rw [root_eq_grow hd h hw]
  exact ⟨w.next 0, rises_grow 0 0 w fun row hrow => hspans row (hw.labels ▸ hrow)⟩

theorem keeps_iff (t : Tree) (s : Site) :
    (Registry.fromCatalogue_builtin.reporter t fun _ => true).Keeps s ↔
      (s.kind = .foreachStatement → Statements.materializes s →
        (Registry.builtin.outcome t (s.ahead "expression")).diagnostics = []) := by
  apply forall_congr'
  intro hkind
  have hsome : Statements.materializes s → (s.node.child? "expression").isSome := by
    unfold Statements.materializes
    cases s.node.child? "expression" <;> simp
  simp only [Registry.FromCatalogue.reporter, List.filter_true,
    Registry.diagnostics_foreach t hkind]
  cases hloop : Statements.materializes s with
  | false => simp
  | true => simp [hsome hloop]

theorem filter_ne_foreach (t : Tree) {s : Site} (hs : s.kind = .foreachStatement) :
    (Registry.builtin.outcome t [s]).diagnostics.filter (·.ruleId != "SEV006") = [] := by
  rw [Registry.diagnostics_foreach t hs]
  cases Statements.materializes s <;> rfl

/--
Without spans the built-in rules report in the order of the starts if and only if nothing is
reported ahead of the expression of a loop that is reported; apart from loops they always do.
-/
theorem starts_in_order_iff (d : Document) (hd : d.Valid)
    (hspans : ∀ row ∈ d.rows, row.span = none) :
    ∃ t sink, d.Yields Registry.builtin t sink ∧
      (InOrder sink.diagnostics ↔
        sink.diagnostics.mergeSort (fun x y => x.location.start ≤ y.location.start) =
          sink.diagnostics) ∧
      (InOrder sink.diagnostics ↔
        ∀ s ∈ t.walk, s.kind = .foreachStatement → Statements.materializes s →
          (Registry.builtin.outcome t (s.ahead "expression")).diagnostics = []) ∧
      InOrder (sink.diagnostics.filter (·.ruleId != "SEV006")) := by
  have hregistry := Registry.fromCatalogue_builtin
  obtain ⟨t, ht⟩ := hd.planted
  obtain ⟨hi, hrises⟩ := ht.rises hd hspans
  refine ⟨t, _, ht.yields hregistry, (mergeSort_eq_self_iff _).symm, ?_, ?_⟩
  · have hall := (hregistry.reporter t fun _ => true).inOrder_preorderOf_iff hrises []
    simp only [keeps_iff] at hall
    simp only [Registry.FromCatalogue.reporter, List.filter_true] at hall
    rw [Tree.walk, Site.walk_eq_preorder]
    exact hall
  · have hothers := (hregistry.reporter t (·.ruleId != "SEV006")).inOrder_preorderOf_iff
      hrises []
    refine hothers.mpr ?_
    intro s _ hkind _ hne
    exact absurd (filter_ne_foreach t hkind) hne

theorem starts_out_of_order :
    let loop : Row := ⟨.foreachStatement, none, none, none, none, none⟩
    let type : Row := ⟨.genericName, some 0, some "List<int>", some "List", some "type", none⟩
    let expression : Row :=
      ⟨.invocationExpression, some 0, some "xs.ToList()", none, some "expression", none⟩
    let d : Document := ⟨"a.cs", [loop, type, expression]⟩
    d.Valid ∧ (∀ row ∈ d.rows, row.span = none) ∧ ∃ t sink, d.Yields Registry.builtin t sink ∧
      sink.diagnostics.map (fun x => (x.ruleId, x.location.start)) =
        [("SEV006", 10), ("SEV005", 0)] ∧
      ¬ InOrder sink.diagnostics := by
  intro loop type expression d
  have hd : d.Valid := by
    refine ⟨by simp [d], rfl, ?_⟩
    simp [d, loop, type, expression]
  obtain ⟨t, ht⟩ := hd.planted
  have hgrow := eq_grow hd ht (w := .mk loop [.mk type [], .mk expression []]) ⟨rfl, rfl⟩
  have hstarts : (Registry.builtin.outcome t (t.site []).preorder).diagnostics.map
      (fun x => (x.ruleId, x.location.start)) = [("SEV006", 10), ("SEV005", 0)] := by
    rw [hgrow]
    decide +kernel
  refine ⟨hd, by simp [d, loop, type, expression], t, _,
    ht.yields Registry.fromCatalogue_builtin, hstarts, ?_⟩
  intro horder
  have hpairs : ((Registry.builtin.outcome t (t.site []).preorder).diagnostics.map
      fun x => (x.ruleId, x.location.start)).Pairwise fun x y => x.2 ≤ y.2 :=
    List.pairwise_map.mpr horder
  rw [hstarts] at hpairs
  simp at hpairs

theorem starts_in_order_iff_loop_first :
    let loop : Row := ⟨.foreachStatement, none, none, none, none, none⟩
    let expression : Row :=
      ⟨.invocationExpression, some 0, some "xs.ToList()", none, some "expression", none⟩
    let body : Row := ⟨.block, some 0, some "\x7b\x7d", none, some "body", none⟩
    let d : Document := ⟨"a.cs", [loop, expression, body]⟩
    d.Valid ∧ (∀ row ∈ d.rows, row.span = none) ∧ ∃ t sink, d.Yields Registry.builtin t sink ∧
      sink.diagnostics.mergeSort (fun x y => x.location.start ≤ y.location.start) =
        sink.diagnostics := by
  intro loop expression body d
  have hd : d.Valid := by
    refine ⟨by simp [d], rfl, ?_⟩
    simp [d, loop, expression, body]
  have hspans : ∀ row ∈ d.rows, row.span = none := by simp [d, loop, expression, body]
  obtain ⟨t, sink, hyields, hsort, horder, -⟩ := starts_in_order_iff d hd hspans
  obtain ⟨planted, ht⟩ := hd.planted
  obtain rfl : planted = t := Except.ok.inj (ht.toTree.symm.trans hyields.toTree)
  have hgrow := eq_grow hd ht (w := .mk loop [.mk expression [], .mk body []]) ⟨rfl, rfl⟩
  refine ⟨hd, hspans, planted, sink, hyields, hsort.mp (horder.mpr ?_)⟩
  rw [Tree.walk, Site.walk_eq_preorder, hgrow]
  decide +kernel

end Document

end TreeLint
