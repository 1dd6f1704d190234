import Mathlib.Data.List.Infix
import TreeLint.Proofs.Dispatch

/-!
A pass under a signal. The signal cuts it between two sites: what stands in the sink then is what
the sites before the cut have given, and none of them is done by half.
-/

namespace TreeLint

namespace Walk

theorem take_nil (n : Nat) : take n ⟨[]⟩ = ([], ⟨[]⟩) := by
  cases n <;> rfl

theorem take_of_next? {w rest : Walk} {s : Site} (h : w.next? = some (s, rest)) (n : Nat) :
    w.take (n + 1) = (s :: (rest.take n).1, (rest.take n).2) := by
  rw [take, h]

theorem fst_take (w : Walk) (n : Nat) : (w.take n).1 = w.toList.take n := by
  induction n generalizing w with
  | zero => rfl
  | succ n ih =>
    cases hnext : w.next? with
    | none => rw [eq_of_next?_none hnext, take_nil, toList_nil, List.take_nil]
    | some next =>
      obtain ⟨s, rest⟩ := next
      rw [take_of_next? hnext, toList_of_next? hnext, List.take_succ_cons, ih rest]

theorem toList_snd_take (w : Walk) (n : Nat) : (w.take n).2.toList = w.toList.drop n := by
  induction n generalizing w with
  | zero => rfl
  | succ n ih =>
    cases hnext : w.next? with
    | none => rw [eq_of_next?_none hnext, take_nil, toList_nil, List.drop_nil]
    | some next =>
      obtain ⟨s, rest⟩ := next
      rw [take_of_next? hnext, toList_of_next? hnext, List.drop_succ_cons, ih rest]

theorem take_add (w : Walk) (m n : Nat) :
    w.take (m + n) = ((w.take m).1 ++ ((w.take m).2.take n).1, ((w.take m).2.take n).2) := by
  induction m generalizing w with
  | zero => simp [take]
  | succ m ih =>
    rw [Nat.succ_add]
    cases hnext : w.next? with
    | none => rw [eq_of_next?_none hnext, take_nil, take_nil, take_nil, List.append_nil]
    | some next =>
      obtain ⟨s, rest⟩ := next
      rw [take_of_next? hnext, take_of_next? hnext, ih rest, List.cons_append]

theorem remaining_snd_take (w : Walk) (n : Nat) : (w.take n).2.remaining = w.remaining - n := by
  rw [← length_toList, toList_snd_take, List.length_drop, length_toList]

end Walk

def Tally.asked (t : Tally) : Nat :=
  t.visited + if t.cancelled then 1 else 0

namespace Pass

def advance (p : Pass) (registry : Registry) (n : Nat) : Pass :=
  p.beyond registry (p.walk.take n).1 (p.walk.take n).2

def cut (p : Pass) (registry : Registry) (n : Nat) : Pass :=
  if n < p.walk.remaining then (p.advance registry n).cancel else p.advance registry n

theorem advance_advance (p : Pass) (registry : Registry) (m n : Nat) :
    (p.advance registry m).advance registry n = p.advance registry (m + n) := by
  have hwalk : (p.advance registry m).walk = (p.walk.take m).2 := rfl
  rw [advance, hwalk, advance, advance, beyond_append, Walk.take_add]

theorem remaining_advance (p : Pass) (registry : Registry) (n : Nat) :
    (p.advance registry n).walk.remaining = p.walk.remaining - n :=
  Walk.remaining_snd_take p.walk n

theorem cut_advance (p : Pass) (registry : Registry) {m : Nat} (h : m ≤ p.walk.remaining) (n : Nat) :
    (p.advance registry m).cut registry n = p.cut registry (m + n) := by
  have hlt : n < p.walk.remaining - m ↔ m + n < p.walk.remaining := by omega
  simp only [cut, remaining_advance, advance_advance, hlt]

theorem visited_advance (p : Pass) (registry : Registry) {n : Nat} (h : n ≤ p.walk.remaining) :
    (p.advance registry n).tally.visited = p.tally.visited + n := by
  have hlength : (p.walk.take n).1.length = n := by
    rw [Walk.fst_take, List.length_take, Walk.length_toList, Nat.min_eq_left h]
  simp only [advance, beyond, after, hlength]

theorem stopped_eq (p : Pass) (registry : Registry) (signal : Signal) :
    p.stopped registry signal = (p.cut registry (signal.passes p.walk.remaining),
      signal.askedFor (signal.passes p.walk.remaining +
        if signal.passes p.walk.remaining < p.walk.remaining then 1 else 0)) := by
  by_cases h : signal.passes p.walk.remaining < p.walk.remaining
  · simp [stopped, cut, advance, h]
  · simp [stopped, cut, advance, h]

structure CutAt (registry : Registry) (t : Tree) (outside : List Enclosing) (sink : Sink) (n : Nat)
    (p : Pass) : Prop where
  path : p.path = t.path
  left : p.walk.toList = (t.site outside).preorder.drop n
  diagnostics : p.sink.diagnostics = sink.diagnostics ++
    (registry.duties ((t.site outside).preorder.take n)).filterMap (Duty.diagnostic? t)
  failures : p.sink.failures = sink.failures ++
    (registry.duties ((t.site outside).preorder.take n)).filterMap (Duty.failure? t)
  visited : p.tally.visited = n
  invocations : p.tally.invocations =
    (registry.duties ((t.site outside).preorder.take n)).length
  reports : sink.diagnostics.length + p.tally.reports = p.sink.diagnostics.length
  failed : sink.failures.length + p.tally.failures = p.sink.failures.length
  cancelled : p.tally.cancelled = true ↔ n < t.nodeCount

theorem CutAt.asked {registry : Registry} {t : Tree} {outside : List Enclosing} {sink : Sink}
    {n : Nat} {p : Pass} (h : CutAt registry t outside sink n p) :
    p.tally.asked = n + if n < t.nodeCount then 1 else 0 := by
  simp only [Tally.asked, h.visited, h.cancelled]

theorem cutAt_cut (registry : Registry) {t : Tree} (ht : t.Accepted) (outside : List Enclosing)
    (sink : Sink) {n : Nat} (hn : n ≤ t.nodeCount) :
    CutAt registry t outside sink n ((start t outside sink).cut registry n) := by
  have hremaining := remaining_start ht outside sink
  have hsites := toList_start t outside sink
  have hfirst := Walk.fst_take (start t outside sink).walk n
  rw [hsites] at hfirst
  have hcut : (start t outside sink).cut registry n =
      let p := (start t outside sink).advance registry n
      { p with tally := { p.tally with cancelled := decide (n < t.nodeCount) } } := by
    rw [cut, hremaining]
    by_cases h : n < t.nodeCount
    · simp [h, cancel]
    · simp [h, advance, beyond, after, start, Tally.zero]
  rw [hcut, advance, beyond, hfirst]
  constructor
  · rfl
  · rw [← hsites]
    exact Walk.toList_snd_take _ n
  · rfl
  · rfl
  · simp [after, start, Tally.zero, length_preorder ht, Nat.min_eq_left hn]
  · simp [after, start, Tally.zero]
  · simp [after, start, Tally.zero]
  · simp [after, start, Tally.zero]
  · simp

structure Begins (p q : Pass) : Prop where
  diagnostics : p.sink.diagnostics <+: q.sink.diagnostics
  failures : p.sink.failures <+: q.sink.failures
  left : q.walk.toList <:+ p.walk.toList

theorem CutAt.begins {registry : Registry} {t : Tree} {outside : List Enclosing} {sink : Sink}
    {m n : Nat} {p q : Pass} (hp : CutAt registry t outside sink m p)
    (hq : CutAt registry t outside sink n q) (h : m ≤ n) : p.Begins q := by
  have hduties : registry.duties ((t.site outside).preorder.take m) <+:
      registry.duties ((t.site outside).preorder.take n) :=
    (List.take_prefix_take_left h).flatMap _
  constructor
  · rw [hp.diagnostics, hq.diagnostics, List.prefix_append_right_inj]
    exact hduties.filterMap _
  · rw [hp.failures, hq.failures, List.prefix_append_right_inj]
    exact hduties.filterMap _
  · rw [hp.left, hq.left]
    exact List.drop_suffix_drop_left _ h

theorem over_eq_cut {registry : Registry} {t : Tree} (ht : t.Accepted) (outside : List Enclosing)
    (sink : Sink) (signal : Signal)
    (hrules : Duty.Contained t (registry.duties (t.site outside).preorder)) :
    Pass.over registry t outside sink signal =
      .ok ((start t outside sink).cut registry (signal.passes t.nodeCount),
        signal.askedFor (signal.passes t.nodeCount +
          if signal.passes t.nodeCount < t.nodeCount then 1 else 0)) := by
  rw [over_eq outside sink signal hrules, stopped_eq, remaining_start ht]

theorem visit_of_interruption {p : Pass} {registry : Registry} {s : Site} {i : Interruption}
    (h : (registry.duties [s]).findSome? (Duty.interruption? p.tree) = some i) :
    p.visit registry s = .error i := by
  rw [Registry.duties, List.flatMap_singleton] at h
  exact invokeAll_of_interruption s h

theorem step_of_interruption {p : Pass} {registry : Registry} {signal : Signal} {s : Site}
    {rest : Walk} {i : Interruption} (hp : p.tally.cancelled = false)
    (hnext : p.walk.next? = some (s, rest)) (hsignal : signal.passes p.walk.remaining ≠ 0)
    (h : (registry.duties [s]).findSome? (Duty.interruption? p.tree) = some i) :
    p.step registry signal = .error i := by
  have hvisit : { p with walk := rest }.visit registry s = .error i := visit_of_interruption h
  rw [← Walk.remaining_of_next? hnext] at hsignal
  simp [step, hp, hnext, Signal.ask_eq signal rest.remaining, hsignal, hvisit]

theorem runWithin_of_interruption {registry : Registry} {bound : Nat} {p : Pass} {signal : Signal}
    {i : Interruption} (hp : p.tally.cancelled = false) (hbound : p.walk.remaining ≤ bound)
    (h : (registry.duties (p.walk.toList.take (signal.passes p.walk.remaining))).findSome?
      (Duty.interruption? p.tree) = some i) :
    runWithin registry bound p signal = .error i := by
  induction bound generalizing p signal with
  | zero =>
    have hpasses : signal.passes p.walk.remaining = 0 := by
      have := signal.passes_le p.walk.remaining
      omega
    simp [hpasses, Registry.duties] at h
  | succ bound ih =>
    cases hnext : p.walk.next? with
    | none =>
      rw [Walk.eq_of_next?_none hnext, Walk.toList_nil] at h
      simp [Registry.duties] at h
    | some next =>
      obtain ⟨s, rest⟩ := next
      have hremaining := Walk.remaining_of_next? hnext
      have hdone : ¬ p.isDone := by
        intro hdone
        have hpending : p.walk.pending = [] := by simpa [isDone, hp] using hdone
        simp [Walk.next?, hpending] at hnext
      by_cases hstands : signal.passes p.walk.remaining = 0
      · simp [hstands, Registry.duties] at h
      · rw [Walk.toList_of_next? hnext, ← hremaining,
          Signal.passes_succ (by rwa [hremaining]), List.take_succ_cons, registry.duties_cons,
          List.findSome?_append] at h
        rw [runWithin, if_neg hdone]
        cases hfirst : (registry.duties [s]).findSome? (Duty.interruption? p.tree) with
        | some j =>
          rw [hfirst, Option.some_or] at h
          rw [step_of_interruption hp hnext hstands hfirst, Option.some.inj h]
        | none =>
          rw [hfirst, Option.none_or] at h
          have hcontained : Duty.Contained p.tree (registry.duties [s]) :=
            List.findSome?_eq_none_iff.mp hfirst
          rw [step_eq signal hp hnext hcontained, if_neg hstands]
          apply ih (p := p.beyond registry [s] rest) hp
          · change rest.remaining ≤ bound
            omega
          · exact h

theorem over_of_interruption {registry : Registry} {t : Tree} (ht : t.Accepted)
    (outside : List Enclosing) (sink : Sink) {signal : Signal} {i : Interruption}
    (h : (registry.duties ((t.site outside).preorder.take (signal.passes t.nodeCount))).findSome?
      (Duty.interruption? t) = some i) :
    Pass.over registry t outside sink signal = .error i := by
  apply runWithin_of_interruption rfl (Nat.le_refl _)
  rw [toList_start, remaining_start ht]
  exact h

/--
A pass under a signal that lets `n` questions pass does the first `n` sites, each by all its rules,
and asks no more than that takes. With a later stop it would only have gone on from there. No rule
is stopped from outside or raises an error that has no text.
-/
theorem over_cut (registry : Registry) (t : Tree) (ht : t.Accepted) (outside : List Enclosing)
    (sink : Sink)
    (hrules : Duty.Contained t (registry.duties (t.site outside).preorder)) :
    ∃ (whole : Pass) (cut : Nat → Pass),
      Pass.over registry t outside sink none = .ok (whole, none) ∧
      CutAt registry t outside sink t.nodeCount whole ∧
      (∀ n, Pass.over registry t outside sink (some ⟨n, 0⟩) =
          .ok (cut n, some ⟨n, (cut n).tally.asked⟩) ∧
        CutAt registry t outside sink (min n t.nodeCount) (cut n) ∧
        ((cut n).tally.cancelled = true ↔ n < t.nodeCount) ∧ (cut n).Begins whole) ∧
      ∀ m n, m ≤ n → (cut m).Begins (cut n) := by
  let cut (n : Nat) : Pass := (start t outside sink).cut registry (min n t.nodeCount)
  have hcut : ∀ n, CutAt registry t outside sink (min n t.nodeCount) (cut n) := fun n =>
    cutAt_cut registry ht outside sink (Nat.min_le_right n t.nodeCount)
  have hwhole : CutAt registry t outside sink t.nodeCount
      ((start t outside sink).cut registry t.nodeCount) :=
    cutAt_cut registry ht outside sink (Nat.le_refl t.nodeCount)
  have hcancelled : ∀ n, (cut n).tally.cancelled = true ↔ n < t.nodeCount := by
    intro n
    rw [(hcut n).cancelled]
    omega
  refine ⟨_, cut, over_eq_cut ht outside sink none hrules, hwhole, ?_, ?_⟩
  · intro n
    refine ⟨?_, hcut n, hcancelled n, (hcut n).begins hwhole (Nat.min_le_right n t.nodeCount)⟩
    have hpasses : Signal.passes t.nodeCount (some ⟨n, 0⟩) = min n t.nodeCount :=
      Nat.min_comm t.nodeCount n
    rw [over_eq_cut ht outside sink _ hrules, hpasses, ← (hcut n).asked]
    simp only [Signal.askedFor, Option.map_some, Nat.zero_add]
    rfl
  · intro m n h
    exact (hcut m).begins (hcut n) (by omega)

theorem over_cut_before_last :
    let span : Span := ⟨0, 1, 1, 0⟩
    let label : Label := ⟨span, "x", none, none⟩
    let t : Tree := ⟨.mk 1 .block label [.mk 0 .modifier label []], "a.cs", 2⟩
    let notes : Rule := ⟨0, "A1", "notes", .ofList [.block, .modifier], [], "", .info, "c",
      fun _ s => .report (.at s.node "seen")⟩
    let fails : Rule := ⟨1, "B2", "fails", .ofList [.block], [], "", .error, "c",
      fun _ _ => .raise "ValueError" (.ok "no")⟩
    let registry := (Registry.empty.addAll [notes, fails]).1
    t.Accepted ∧ ∃ p q,
      Pass.over registry t [] .empty (some ⟨1, 0⟩) = .ok (p, some ⟨1, 2⟩) ∧
      Pass.over registry t [] .empty (some ⟨2, 0⟩) = .ok (q, some ⟨2, 2⟩) ∧
      p.sink = ⟨[⟨"A1", "c", .info, span, "seen", "a.cs"⟩],
        [⟨"B2", .block, span, "ValueError", "no"⟩]⟩ ∧
      p.tally.visited = 1 ∧ q.tally.visited = 2 ∧ q.tally.cancelled = false ∧ p.Begins q := by
  intro span label t notes fails registry
  have ht : t.Accepted := by
    have hgrown := ((Forest.Grown.refl .empty).construct .modifier label).construct .block label
    exact ⟨_, _, hgrown.accept (by decide) "a.cs"⟩
  have hduties : registry.duties (t.site []).preorder =
      [⟨t.site [], notes⟩, ⟨t.site [], fails⟩,
        ⟨⟨.mk 0 .modifier label [], (t.site []).inside⟩, notes⟩] := rfl
  have hrules : Duty.Contained t (registry.duties (t.site []).preorder) := by
    rw [hduties]
    simp [Duty.Contained, Duty.interruption?, Verdict.interruption?, Duty.verdict, notes, fails]
  obtain ⟨whole, cut, -, -, hcut, hbegins⟩ := over_cut registry t ht [] .empty hrules
  obtain ⟨hp, hpcut, hpcancelled, -⟩ := hcut 1
  obtain ⟨hq, hqcut, hqcancelled, -⟩ := hcut 2
  have hpstop : (cut 1).tally.cancelled = true := hpcancelled.mpr (by decide)
  have hqstop : (cut 2).tally.cancelled = false := by
    rw [← Bool.not_eq_true, hqcancelled]
    decide
  have hpvisited : (cut 1).tally.visited = 1 := hpcut.visited
  have hqvisited : (cut 2).tally.visited = 2 := hqcut.visited
  have hpsink : (cut 1).sink = ⟨[⟨"A1", "c", .info, span, "seen", "a.cs"⟩],
      [⟨"B2", .block, span, "ValueError", "no"⟩]⟩ := by
    rw [Sink.mk.injEq]
    exact ⟨hpcut.diagnostics, hpcut.failures⟩
  rw [Tally.asked, hpstop, hpvisited] at hp
  rw [Tally.asked, hqstop, hqvisited] at hq
  exact ⟨ht, cut 1, cut 2, hp, hq, hpsink, hpvisited, hqvisited, hqstop, hbegins 1 2 (by decide)⟩

end Pass

end TreeLint
