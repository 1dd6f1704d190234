import TreeLint.Pass.Basic
import TreeLint.Proofs.Acceptance

namespace TreeLint

namespace Walk

theorem eq_of_next?_none {w : Walk} (h : w.next? = none) : w = ⟨[]⟩ := by
  obtain ⟨pending⟩ := w
  cases pending with
  | nil => rfl
  | cons s rest => simp [next?] at h

theorem toList_nil : toList ⟨[]⟩ = [] := by
  rw [toList_eq]
  rfl

theorem toList_of_next? {w rest : Walk} {s : Site} (h : w.next? = some (s, rest)) :
    w.toList = s :: rest.toList := by
  rw [toList]
  split
  · next hs => simp [h] at hs
  · next t others hs =>
    obtain ⟨rfl, rfl⟩ : t = s ∧ others = rest := by simpa [h, eq_comm] using hs
    rfl

theorem length_toList (w : Walk) : w.toList.length = w.remaining := by
  fun_induction toList w with
  | case1 w h =>
    rw [eq_of_next?_none h]
    rfl
  | case2 w s rest h ih => rw [List.length_cons, ih, remaining_of_next? h]

theorem take_of_remaining_le {w : Walk} {n : Nat} (h : w.remaining ≤ n) :
    w.take n = (w.toList, ⟨[]⟩) := by
  induction n generalizing w with
  | zero =>
    cases hnext : w.next? with
    | none =>
      rw [eq_of_next?_none hnext, toList_nil]
      rfl
    | some next =>
      have := remaining_of_next? hnext
      omega
  | succ n ih =>
    cases hnext : w.next? with
    | none =>
      rw [eq_of_next?_none hnext, toList_nil]
      rfl
    | some next =>
      obtain ⟨s, rest⟩ := next
      have := remaining_of_next? hnext
      rw [take, hnext, toList_of_next? hnext]
      simp only [ih (w := rest) (by omega)]

theorem remaining_start (s : Site) : (start s).remaining = s.node.size := by
  simp [start, remaining, Node.totalSize]

end Walk

structure Duty where
  site : Site
  rule : Rule

namespace Duty

variable (t : Tree)

def verdict (d : Duty) : Verdict :=
  d.rule.evaluate t d.site

def diagnostic? (d : Duty) : Option Diagnostic :=
  match d.verdict t with
  | .report f => some ⟨d.rule.id, d.rule.category, d.rule.severity, f.location, f.message, t.path⟩
  | _ => none

def failure (d : Duty) (errorType error : String) : Failure :=
  ⟨d.rule.id, d.site.kind, d.site.node.span, errorType, error⟩

def failure? (d : Duty) : Option Failure :=
  match d.verdict t with
  | .misreturn typeName =>
    some (d.failure "TypeError" ("rule returned " ++ typeName ++ ", expected Finding or None"))
  | .raise errorType (.ok text) => some (d.failure errorType text)
  | _ => none

def abstains (d : Duty) : Bool :=
  match d.verdict t with
  | .abstain => true
  | _ => false

def interruption? (d : Duty) : Option Interruption :=
  (d.verdict t).interruption?

/-- None of the duties ends the pass: by a stop from outside, or by an error that has no text. -/
def Contained (ds : List Duty) : Prop :=
  ∀ d ∈ ds, d.interruption? t = none

variable {t}

theorem Contained.left {ds es : List Duty} (h : Contained t (ds ++ es)) : Contained t ds :=
  fun d hd => h d (List.mem_append_left _ hd)

theorem Contained.right {ds es : List Duty} (h : Contained t (ds ++ es)) : Contained t es :=
  fun d hd => h d (List.mem_append_right _ hd)

theorem length_eq {ds : List Duty} (h : Contained t ds) :
    ds.length = (ds.filterMap (diagnostic? t)).length + (ds.filterMap (failure? t)).length +
      (ds.filter (abstains t)).length := by
  induction ds with
  | nil => rfl
  | cons d rest ih =>
    have hrest := ih fun e he => h e (List.mem_cons_of_mem _ he)
    have hd : (d.verdict t).interruption? = none := h d (by simp)
    cases hv : d.verdict t with
    | interrupt => simp [hv, Verdict.interruption?] at hd
    | abstain =>
      simp [hrest, diagnostic?, failure?, abstains, hv]
      omega
    | report f =>
      simp [hrest, diagnostic?, failure?, abstains, hv]
      omega
    | misreturn typeName =>
      simp [hrest, diagnostic?, failure?, abstains, hv]
      omega
    | raise errorType text =>
      cases text with
      | error stop => simp [hv, Verdict.interruption?] at hd
      | ok text =>
        simp [hrest, diagnostic?, failure?, abstains, hv]
        omega

end Duty

def Registry.duties (r : Registry) (sites : List Site) : List Duty :=
  sites.flatMap fun s => (r.rulesFor s.kind).map (⟨s, ·⟩)

theorem Registry.duties_append (r : Registry) (xs ys : List Site) :
    r.duties (xs ++ ys) = r.duties xs ++ r.duties ys := by
  simp [duties]

theorem Registry.duties_cons (r : Registry) (s : Site) (sites : List Site) :
    r.duties (s :: sites) = r.duties [s] ++ r.duties sites :=
  r.duties_append [s] sites

theorem Registry.duties_subset (r : Registry) {xs ys : List Site} (h : xs ⊆ ys) :
    r.duties xs ⊆ r.duties ys := by
  intro d hd
  obtain ⟨s, hs, hd⟩ := List.mem_flatMap.mp hd
  exact List.mem_flatMap.mpr ⟨s, h hs, hd⟩

namespace Signal

def passes (n : Nat) : Signal → Nat
  | none => n
  | some c => min n (c.allowed - c.asked)

def askedFor (n : Nat) (signal : Signal) : Signal :=
  signal.map fun c => { c with asked := c.asked + n }

theorem ask_eq (signal : Signal) (n : Nat) :
    signal.ask = (decide (signal.passes (n + 1) = 0), signal.askedFor 1) := by
  cases signal with
  | none => simp [ask, passes, askedFor]
  | some c =>
    have : c.allowed ≤ c.asked ↔ min (n + 1) (c.allowed - c.asked) = 0 := by omega
    simp [ask, passes, askedFor, this]

theorem passes_succ {signal : Signal} {n : Nat} (h : signal.passes (n + 1) ≠ 0) :
    signal.passes (n + 1) = (signal.askedFor 1).passes n + 1 := by
  cases signal with
  | none => rfl
  | some c =>
    simp only [passes, askedFor, Option.map_some] at h ⊢
    omega

theorem askedFor_askedFor (signal : Signal) (m n : Nat) :
    (signal.askedFor m).askedFor n = signal.askedFor (n + m) := by
  cases signal with
  | none => rfl
  | some c =>
    have : c.asked + m + n = c.asked + (n + m) := by omega
    simp [askedFor, this]

theorem askedFor_zero (signal : Signal) : signal.askedFor 0 = signal := by
  cases signal <;> rfl

theorem passes_le (n : Nat) (signal : Signal) : signal.passes n ≤ n := by
  cases signal with
  | none => exact Nat.le_refl n
  | some c => exact Nat.min_le_left _ _

end Signal

namespace Pass

def after (p : Pass) (ds : List Duty) : Pass :=
  let diagnostics := ds.filterMap (Duty.diagnostic? p.tree)
  let failures := ds.filterMap (Duty.failure? p.tree)
  { p with
    sink := ⟨p.sink.diagnostics ++ diagnostics, p.sink.failures ++ failures⟩
    tally :=
      { p.tally with
        invocations := p.tally.invocations + ds.length
        reports := p.tally.reports + diagnostics.length
        failures := p.tally.failures + failures.length } }

theorem after_nil (p : Pass) : p.after [] = p := by
  simp [after]

theorem after_append (p : Pass) (xs ys : List Duty) :
    p.after (xs ++ ys) = (p.after xs).after ys := by
  simp [after, List.filterMap_append, Nat.add_assoc]

theorem invoke_eq {p : Pass} {d : Duty} (h : d.interruption? p.tree = none) :
    p.invoke d.rule d.site = .ok (p.after [d]) := by
  have hv : d.rule.evaluate p.tree d.site = d.verdict p.tree := rfl
  rw [Duty.interruption?] at h
  rw [invoke, hv]
  cases hd : d.verdict p.tree with
  | interrupt => simp [hd, Verdict.interruption?] at h
  | abstain => simp [record, countInvocation, after, Duty.diagnostic?, Duty.failure?, hd]
  | report f =>
    simp [record, countInvocation, addReport, Sink.report, Rule.sign, path, after,
      Duty.diagnostic?, Duty.failure?, hd]
  | misreturn typeName =>
    simp [record, countInvocation, addFailure, Sink.recordFailure, Duty.failure, after,
      Duty.diagnostic?, Duty.failure?, hd]
  | raise errorType text =>
    cases text with
    | error stop => simp [hd, Verdict.interruption?] at h
    | ok text =>
      simp [record, countInvocation, addFailure, Sink.recordFailure, Duty.failure, after,
        Duty.diagnostic?, Duty.failure?, hd]

theorem invoke_of_interruption {p : Pass} {d : Duty} {i : Interruption}
    (h : d.interruption? p.tree = some i) : p.invoke d.rule d.site = .error i := by
  have hv : d.rule.evaluate p.tree d.site = d.verdict p.tree := rfl
  rw [Duty.interruption?] at h
  rw [invoke, hv]
  cases hd : d.verdict p.tree with
  | interrupt => simpa [hd, Verdict.interruption?, record, eq_comm] using h
  | raise errorType text =>
    cases text with
    | error stop => simpa [hd, Verdict.interruption?, record, eq_comm] using h
    | ok text => simp [hd, Verdict.interruption?] at h
  | _ => simp [hd, Verdict.interruption?] at h

theorem invokeAll_eq {p : Pass} (s : Site) {rules : List Rule}
    (h : Duty.Contained p.tree (rules.map (⟨s, ·⟩))) :
    p.invokeAll s rules = .ok (p.after (rules.map (⟨s, ·⟩))) := by
  induction rules generalizing p with
  | nil => rw [invokeAll, List.map_nil, after_nil]
  | cons rule rest ih =>
    have hinvoke : p.invoke rule s = .ok (p.after [⟨s, rule⟩]) :=
      invoke_eq (d := ⟨s, rule⟩) (h _ (by simp))
    rw [invokeAll, hinvoke]
    change (p.after [⟨s, rule⟩]).invokeAll s rest = _
    rw [ih (p := p.after [⟨s, rule⟩]) fun d hd => h d (List.mem_cons_of_mem _ hd), ← after_append]
    rfl

theorem invokeAll_of_interruption {p : Pass} (s : Site) {rules : List Rule} {i : Interruption}
    (h : (rules.map (Duty.mk s)).findSome? (Duty.interruption? p.tree) = some i) :
    p.invokeAll s rules = .error i := by
  induction rules generalizing p with
  | nil => simp at h
  | cons rule rest ih =>
    rw [List.map_cons, List.findSome?_cons] at h
    cases hd : Duty.interruption? p.tree ⟨s, rule⟩ with
    | some j =>
      have hinvoke : p.invoke rule s = .error j := invoke_of_interruption (d := ⟨s, rule⟩) hd
      rw [hd] at h
      rw [invokeAll, hinvoke, Option.some.inj h]
    | none =>
      have hinvoke : p.invoke rule s = .ok (p.after [⟨s, rule⟩]) := invoke_eq (d := ⟨s, rule⟩) hd
      rw [hd] at h
      rw [invokeAll, hinvoke]
      exact ih (p := p.after [⟨s, rule⟩]) h

def beyond (p : Pass) (registry : Registry) (sites : List Site) (left : Walk) : Pass :=
  { p with
    walk := left
    tally := { p.tally with visited := p.tally.visited + sites.length } }.after
      (registry.duties sites)

theorem beyond_nil (p : Pass) (registry : Registry) : p.beyond registry [] p.walk = p := by
  rw [beyond, Registry.duties, List.flatMap_nil, after_nil]
  rfl

theorem beyond_append (p : Pass) (registry : Registry) (xs ys : List Site) (rest left : Walk) :
    (p.beyond registry xs rest).beyond registry ys left = p.beyond registry (xs ++ ys) left := by
  rw [beyond, beyond, beyond, registry.duties_append, after_append]
  simp [after, Nat.add_assoc]

/-- Before each site the signal is asked; a site is done by all its rules or not begun. -/
theorem step_eq {p : Pass} {registry : Registry} {s : Site} {rest : Walk} (signal : Signal)
    (hp : p.tally.cancelled = false) (hnext : p.walk.next? = some (s, rest))
    (h : Duty.Contained p.tree (registry.duties [s])) :
    p.step registry signal =
      .ok (if signal.passes p.walk.remaining = 0 then p.cancel
        else p.beyond registry [s] rest, signal.askedFor 1) := by
  have hremaining := Walk.remaining_of_next? hnext
  have hvisit : { p with walk := rest }.visit registry s = .ok (p.beyond registry [s] rest) := by
    rw [visit, invokeAll_eq]
    · simp [beyond, Registry.duties]
    · simpa [Registry.duties] using h
  rw [step, hp, hnext, ← hremaining, Signal.ask_eq signal rest.remaining]
  by_cases hstands : signal.passes (rest.remaining + 1) = 0
  · simp [hstands]
  · simp [hstands, hvisit]

theorem runWithin_of_isDone {p : Pass} (registry : Registry) (bound : Nat) (signal : Signal)
    (h : p.isDone) : runWithin registry bound p signal = .ok (p, signal) := by
  cases bound with
  | zero => rfl
  | succ bound => rw [runWithin, if_pos h]

def stopped (p : Pass) (registry : Registry) (signal : Signal) : Pass × Signal :=
  let passed := signal.passes p.walk.remaining
  let q := p.beyond registry (p.walk.take passed).1 (p.walk.take passed).2
  if passed < p.walk.remaining then (q.cancel, signal.askedFor (passed + 1))
  else (q, signal.askedFor passed)

theorem stopped_of_remaining_eq_zero {p : Pass} (registry : Registry) (signal : Signal)
    (h : p.walk.remaining = 0) : p.stopped registry signal = (p, signal) := by
  have hpasses : signal.passes 0 = 0 := Nat.le_zero.mp (signal.passes_le 0)
  simp only [stopped, h, hpasses, Walk.take, Signal.askedFor_zero, beyond_nil, Nat.lt_irrefl,
    if_false]

theorem stopped_of_next? {p : Pass} {registry : Registry} {signal : Signal} {s : Site} {rest : Walk}
    (hnext : p.walk.next? = some (s, rest)) (h : signal.passes p.walk.remaining ≠ 0) :
    p.stopped registry signal =
      (p.beyond registry [s] rest).stopped registry (signal.askedFor 1) := by
  have hremaining := Walk.remaining_of_next? hnext
  rw [← hremaining] at h
  have hpasses := Signal.passes_succ h
  have hwalk : (p.beyond registry [s] rest).walk = rest := rfl
  simp only [stopped, hwalk, ← hremaining, hpasses, Walk.take, hnext, beyond_append,
    List.singleton_append, Signal.askedFor_askedFor, Nat.add_lt_add_iff_right]

theorem runWithin_eq {registry : Registry} {bound : Nat} {p : Pass} (signal : Signal)
    (hp : p.tally.cancelled = false) (hbound : p.walk.remaining ≤ bound)
    (h : Duty.Contained p.tree (registry.duties p.walk.toList)) :
    runWithin registry bound p signal = .ok (p.stopped registry signal) := by
  -- The bound covers the sites to come, so the run ends by itself and never for want of steps.
  induction bound generalizing p signal with
  | zero => rw [runWithin, stopped_of_remaining_eq_zero registry signal (by omega)]
  | succ bound ih =>
    cases hnext : p.walk.next? with
    | none =>
      have hwalk := Walk.eq_of_next?_none hnext
      rw [runWithin_of_isDone registry _ signal (by simp [isDone, hwalk]),
        stopped_of_remaining_eq_zero registry signal (by rw [hwalk]; rfl)]
    | some next =>
      obtain ⟨s, rest⟩ := next
      have hremaining := Walk.remaining_of_next? hnext
      rw [Walk.toList_of_next? hnext, registry.duties_cons] at h
      have hdone : ¬ p.isDone := by
        intro hdone
        have hpending : p.walk.pending = [] := by simpa [isDone, hp] using hdone
        simp [Walk.next?, hpending] at hnext
      have hstep := step_eq signal hp hnext h.left
      rw [runWithin, if_neg hdone, hstep]
      by_cases hstands : signal.passes p.walk.remaining = 0
      · -- The one question that does not pass leaves a cancelled pass, which is not asked again.
        rw [if_pos hstands]
        change runWithin registry bound p.cancel (signal.askedFor 1) = _
        rw [runWithin_of_isDone registry _ _ (by simp [isDone, cancel])]
        have hleft : 0 < p.walk.remaining := by omega
        simp only [stopped, hstands, Walk.take, beyond_nil, if_pos hleft]
      · rw [if_neg hstands]
        change runWithin registry bound (p.beyond registry [s] rest) (signal.askedFor 1) = _
        rw [stopped_of_next? hnext hstands]
        apply ih (p := p.beyond registry [s] rest) (signal.askedFor 1) hp
        · change rest.remaining ≤ bound
          omega
        · exact h.right

theorem over_eq {registry : Registry} {t : Tree} (outside : List Enclosing) (sink : Sink)
    (signal : Signal)
    (h : Duty.Contained t (registry.duties (t.site outside).preorder)) :
    Pass.over registry t outside sink signal =
      .ok ((start t outside sink).stopped registry signal) := by
  apply runWithin_eq signal rfl (Nat.le_refl _)
  rw [← Site.walk_eq_preorder] at h
  exact h

theorem remaining_start {t : Tree} (ht : t.Accepted) (outside : List Enclosing) (sink : Sink) :
    (start t outside sink).walk.remaining = t.nodeCount := by
  rw [ht.nodeCount_eq]
  exact Walk.remaining_start (t.site outside)

theorem toList_start (t : Tree) (outside : List Enclosing) (sink : Sink) :
    (start t outside sink).walk.toList = (t.site outside).preorder :=
  Site.walk_eq_preorder (t.site outside)

theorem length_preorder {t : Tree} (ht : t.Accepted) (outside : List Enclosing) :
    (t.site outside).preorder.length = t.nodeCount := by
  rw [← toList_start t outside .empty, Walk.length_toList, remaining_start ht]

theorem over_of_passes {registry : Registry} {t : Tree} (ht : t.Accepted) (outside : List Enclosing)
    (sink : Sink) {signal : Signal} (hsignal : signal.passes t.nodeCount = t.nodeCount)
    (hrules : Duty.Contained t (registry.duties (t.site outside).preorder)) :
    Pass.over registry t outside sink signal =
      .ok ({ start t outside sink with
          walk := ⟨[]⟩
          tally := { Tally.zero with visited := t.nodeCount } }.after
            (registry.duties (t.site outside).preorder),
        signal.askedFor t.nodeCount) := by
  have hremaining := remaining_start ht outside sink
  have htake : (start t outside sink).walk.take t.nodeCount = ((t.site outside).preorder, ⟨[]⟩) := by
    rw [Walk.take_of_remaining_le (Nat.le_of_eq hremaining), toList_start]
  rw [over_eq outside sink signal hrules]
  simp only [stopped, hremaining, hsignal, htake, Nat.lt_irrefl, if_false, beyond,
    length_preorder ht outside]
  simp only [start, Tally.zero, Nat.zero_add]

/--
A pass that no signal stops does all duties of the tree and adds what comes of them, as long as no
rule is stopped from outside or raises an error that has no text.
-/
theorem over_exact (registry : Registry) (t : Tree) (ht : t.Accepted) (outside : List Enclosing)
    (sink : Sink) (signal : Signal) (hsignal : signal.passes t.nodeCount = t.nodeCount)
    (hrules : Duty.Contained t (registry.duties (t.site outside).preorder)) :
    let duties := registry.duties (t.site outside).preorder
    let diagnostics := duties.filterMap (Duty.diagnostic? t)
    let failures := duties.filterMap (Duty.failure? t)
    Pass.over registry t outside sink signal =
        .ok (⟨t, ⟨[]⟩, ⟨sink.diagnostics ++ diagnostics, sink.failures ++ failures⟩,
          ⟨t.nodeCount, duties.length, diagnostics.length, failures.length, false⟩⟩,
          signal.askedFor t.nodeCount) ∧
      duties.length = diagnostics.length + failures.length +
        (duties.filter (Duty.abstains t)).length := by
  intro duties diagnostics failures
  refine ⟨?_, Duty.length_eq hrules⟩
  rw [over_of_passes ht outside sink hsignal hrules]
  simp only [after, start, Tally.zero, Nat.zero_add]
  rfl

theorem over_exact_two_rules :
    let span : Span := ⟨0, 1, 1, 0⟩
    let label : Label := ⟨span, "x", none, none⟩
    let t : Tree := ⟨.mk 1 .block label [.mk 0 .modifier label []], "a.cs", 2⟩
    let notes : Rule := ⟨0, "A1", "notes", .ofList [.block, .modifier], [], "", .info, "c",
      fun _ s => if s.kind = .block then .report (.at s.node "seen") else .abstain⟩
    let fails : Rule := ⟨1, "B2", "fails", .ofList [.block], [], "", .error, "c",
      fun _ _ => .raise "ValueError" (.ok "no")⟩
    let registry := (Registry.empty.addAll [notes, fails]).1
    t.Accepted ∧ (registry.duties (t.site []).preorder).length = 3 ∧
      Pass.over registry t [] .empty (some ⟨2, 0⟩) =
        .ok (⟨t, ⟨[]⟩,
          ⟨[⟨"A1", "c", .info, span, "seen", "a.cs"⟩], [⟨"B2", .block, span, "ValueError", "no"⟩]⟩,
          ⟨2, 3, 1, 1, false⟩⟩, some ⟨2, 2⟩) := by
  intro span label t notes fails registry
  have ht : t.Accepted := by
    let leaf : Draft := .node 0 (.known .modifier) label []
    let root : Draft := .node 1 (.known .block) label [leaf]
    refine ⟨⟨#[some root, none]⟩, root, ?_⟩
    have hseen : Forest.inspect ⟨#[some root, none]⟩ [] [root] = .ok [0, 1] := by
      simp [Forest.inspect, root, leaf, label, span, Forest.checkChildren, Forest.parent?,
        Forest.parentOf?, Draft.serial?, Draft.isSame]
    simp only [Forest.accept, hseen]
    rfl
  have hduties : registry.duties (t.site []).preorder =
      [⟨t.site [], notes⟩, ⟨t.site [], fails⟩,
        ⟨⟨.mk 0 .modifier label [], (t.site []).inside⟩, notes⟩] := rfl
  have hrules : Duty.Contained t (registry.duties (t.site []).preorder) := by
    rw [hduties]
    simp [Duty.Contained, Duty.interruption?, Verdict.interruption?, Duty.verdict, notes, fails,
      Tree.site, Site.kind, t, Node.kind]
  have hover := over_exact registry t ht [] .empty (some ⟨2, 0⟩) rfl hrules
  simp only [hduties] at hover ⊢
  exact ⟨ht, rfl, hover.1⟩

end Pass

end TreeLint
