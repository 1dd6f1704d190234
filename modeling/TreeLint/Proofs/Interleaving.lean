import Mathlib.Algebra.GroupWithZero.Nat
import TreeLint.Analysis.Batch
import TreeLint.Proofs.Cancellation
import TreeLint.Proofs.Isolation
import TreeLint.Proofs.Loading

/-!
Units that share a signal, their steps taken in any order. Each question is asked by one unit and
answered once, so the sites that are visited are as many as the signal has let pass, whichever units
they belong to.
-/

namespace TreeLint

namespace Signal

theorem passes_next (signal : Signal) (a : Nat) :
    signal.passes (a + 1) = signal.passes a ∨ signal.passes (a + 1) = signal.passes a + 1 := by
  cases signal with
  | none => exact .inr rfl
  | some c =>
    simp only [passes]
    omega

theorem askedFor_passes_eq_zero_iff (signal : Signal) (a : Nat) {n : Nat} (hn : 0 < n) :
    (signal.askedFor a).passes n = 0 ↔ signal.passes (a + 1) = signal.passes a := by
  cases signal with
  | none =>
    simp only [askedFor, Option.map_none, passes]
    omega
  | some c =>
    simp only [askedFor, Option.map_some, passes]
    omega

theorem passes_askedFor (signal : Signal) (a n : Nat) :
    signal.passes (a + n) = signal.passes a + (signal.askedFor a).passes n := by
  cases signal with
  | none => rfl
  | some c =>
    simp only [askedFor, Option.map_some, passes]
    omega

theorem passes_passes (signal : Signal) (n : Nat) :
    signal.passes (signal.passes n + if signal.passes n < n then 1 else 0) = signal.passes n := by
  cases signal with
  | none => simp [passes]
  | some c =>
    by_cases h : c.allowed - c.asked < n
    · have hmin : min n (c.allowed - c.asked) = c.allowed - c.asked := by omega
      simp [passes, hmin, h]
    · have hmin : min n (c.allowed - c.asked) = n := by omega
      simp [passes, hmin]

end Signal

theorem Tally.asked_of_open {t : Tally} (h : t.cancelled = false) : t.asked = t.visited := by
  simp [asked, h]

theorem Tally.asked_of_cancelled {t : Tally} (h : t.cancelled = true) :
    t.asked = t.visited + 1 := by
  simp [asked, h]

namespace Prepared

def pass (unit : Prepared) : Pass :=
  .start unit.tree unit.outside .empty

def sites (unit : Prepared) : List Site :=
  (unit.tree.site unit.outside).preorder

end Prepared

namespace Input

variable {read : Source → Checked Document} {registry : Registry} {input : Input}

def nodeCount (read : Source → Checked Document) (input : Input) : Nat :=
  match input.prepareBy read with
  | .error _ => 0
  | .ok unit => unit.tree.nodeCount

structure Proper (read : Source → Checked Document) (registry : Registry) (input : Input) :
    Prop where
  not_ended : ∀ i, input.prepareBy read ≠ .error (.ended i)
  unit : ∀ {unit}, input.prepareBy read = .ok unit →
    unit.tree.Accepted ∧ Duty.Contained unit.tree (registry.duties unit.sites)

end Input

namespace Pass

variable {registry : Registry} {p : Pass}

theorem step_advance {s : Site} {rest : Walk} (signal : Signal) (a : Nat)
    (hp : p.tally.cancelled = false) (hnext : p.walk.next? = some (s, rest))
    (h : Duty.Contained p.tree (registry.duties p.walk.toList)) :
    p.step registry (signal.askedFor a) =
      .ok (if signal.passes (a + 1) = signal.passes a then p.cancel else p.advance registry 1,
        signal.askedFor (a + 1)) := by
  have hremaining : 0 < p.walk.remaining := by
    rw [← Walk.remaining_of_next? hnext]
    exact Nat.succ_pos _
  have hadvance : p.advance registry 1 = p.beyond registry [s] rest := by
    rw [advance, Walk.take_of_next? hnext 0]
    rfl
  rw [Walk.toList_of_next? hnext, registry.duties_cons] at h
  rw [step_eq _ hp hnext h.left, hadvance,
    Signal.askedFor_askedFor, Nat.add_comm 1 a]
  simp only [signal.askedFor_passes_eq_zero_iff a hremaining]

end Pass

namespace Seat

def tally : Seat → Tally
  | running p => p.tally
  | _ => .zero

variable {read : Source → Checked Document} {registry : Registry} {input : Input}

inductive Keeps (read : Source → Checked Document) (registry : Registry) (input : Input) :
    Seat → Prop
  | rejected {r : Rejection} (h : input.prepareBy read = .error (.rejected r)) :
      Keeps read registry input (.rejected r)
  | underway {unit : Prepared} {v : Nat} (h : input.prepareBy read = .ok unit)
      (hv : v ≤ unit.tree.nodeCount) :
      Keeps read registry input (.running (unit.pass.advance registry v))
  | cancelled {unit : Prepared} {v : Nat} (h : input.prepareBy read = .ok unit)
      (hv : v < unit.tree.nodeCount) :
      Keeps read registry input (.running (unit.pass.advance registry v).cancel)

end Seat

/--
The questions between `a` and `a'` of all that the signal is asked are those that the tallies have
gained, and so are the sites that these questions let pass.
-/
structure Signal.Moves (signal : Signal) (a : Nat) (ts : List Tally) (a' : Nat)
    (ts' : List Tally) : Prop where
  asked : a' + (ts.map Tally.asked).sum = a + (ts'.map Tally.asked).sum
  visited : (ts'.map Tally.visited).sum + signal.passes a =
    (ts.map Tally.visited).sum + signal.passes a'

namespace Signal.Moves

variable {signal : Signal} {a b c : Nat} {xs xs' ys ys' : List Tally}

theorem refl (signal : Signal) (a : Nat) (ts : List Tally) : signal.Moves a ts a ts :=
  ⟨rfl, rfl⟩

theorem single {t t' : Tally} (hasked : b + t.asked = a + t'.asked)
    (hvisited : t'.visited + signal.passes a = t.visited + signal.passes b) :
    signal.Moves a [t] b [t'] := by
  constructor
  · simpa using hasked
  · simpa using hvisited

theorem append (hx : signal.Moves a xs b xs') (hy : signal.Moves b ys c ys') :
    signal.Moves a (xs ++ ys) c (xs' ++ ys') := by
  have hasked := hx.asked
  have hasked' := hy.asked
  have hvisited := hx.visited
  have hvisited' := hy.visited
  constructor
  · simp only [List.map_append, List.sum_append]
    omega
  · simp only [List.map_append, List.sum_append]
    omega

theorem trans (hx : signal.Moves a xs b xs') (hy : signal.Moves b xs' c ys) :
    signal.Moves a xs c ys := by
  have hasked := hx.asked
  have hasked' := hy.asked
  have hvisited := hx.visited
  have hvisited' := hy.visited
  constructor <;> omega

end Signal.Moves

namespace Prepared

variable {unit : Prepared} {v : Nat}

theorem remaining_pass (ht : unit.tree.Accepted) :
    unit.pass.walk.remaining = unit.tree.nodeCount :=
  Pass.remaining_start ht unit.outside .empty

theorem visited_advance (registry : Registry) (ht : unit.tree.Accepted)
    (hv : v ≤ unit.tree.nodeCount) : (unit.pass.advance registry v).tally.visited = v := by
  rw [← remaining_pass ht] at hv
  rw [Pass.visited_advance unit.pass registry hv]
  exact Nat.zero_add v

theorem asked_advance (registry : Registry) (ht : unit.tree.Accepted)
    (hv : v ≤ unit.tree.nodeCount) : (unit.pass.advance registry v).tally.asked = v := by
  rw [Tally.asked_of_open rfl]
  exact visited_advance registry ht hv

theorem asked_cancel_advance (registry : Registry) (ht : unit.tree.Accepted)
    (hv : v ≤ unit.tree.nodeCount) :
    (unit.pass.advance registry v).cancel.tally.asked = v + 1 := by
  rw [Tally.asked_of_cancelled rfl]
  exact congrArg (· + 1) (visited_advance registry ht hv)

theorem contained_advance {registry : Registry}
    (hrules : Duty.Contained unit.tree (registry.duties unit.sites)) (v : Nat) :
    Duty.Contained unit.tree (registry.duties (unit.pass.advance registry v).walk.toList) := by
  have hsites : (unit.pass.advance registry v).walk.toList = unit.sites.drop v := by
    rw [sites, ← Pass.toList_start unit.tree unit.outside .empty]
    exact Walk.toList_snd_take unit.pass.walk v
  rw [hsites]
  intro d hd
  exact hrules d (registry.duties_subset (List.drop_subset v unit.sites) hd)

theorem run_advance {registry : Registry} (ht : unit.tree.Accepted)
    (hrules : Duty.Contained unit.tree (registry.duties unit.sites))
    (hv : v ≤ unit.tree.nodeCount) (signal : Signal) (a : Nat) :
    let left := unit.tree.nodeCount - v
    let k := (signal.askedFor a).passes left
    (unit.pass.advance registry v).run registry (signal.askedFor a) =
      .ok (unit.pass.cut registry (v + k),
        signal.askedFor (a + (k + if k < left then 1 else 0))) := by
  have hleft : (unit.pass.advance registry v).walk.remaining = unit.tree.nodeCount - v := by
    rw [Pass.remaining_advance, remaining_pass ht]
  rw [← remaining_pass ht] at hv
  rw [Pass.run, Pass.runWithin_eq (signal.askedFor a) rfl (Nat.le_refl _)
    (contained_advance hrules v)]
  rw [Pass.stopped_eq, hleft, Pass.cut_advance _ _ hv, Signal.askedFor_askedFor, Nat.add_comm _ a]

end Prepared

namespace Seat

variable {read : Source → Checked Document} {registry : Registry} {input : Input} {seat : Seat}

theorem Keeps.step (h : seat.Keeps read registry input) (hproper : input.Proper read registry)
    (signal : Signal) (a : Nat) :
    ∃ seat' a', seat.step registry (signal.askedFor a) = (seat', signal.askedFor a') ∧
      seat'.Keeps read registry input ∧ signal.Moves a [seat.tally] a' [seat'.tally] := by
  cases h with
  | rejected h => exact ⟨_, a, rfl, .rejected h, .refl _ _ _⟩
  | @cancelled unit v h hv => exact ⟨_, a, rfl, .cancelled h hv, .refl _ _ _⟩
  | @underway unit v h hv =>
    obtain ⟨ht, hrules⟩ := hproper.unit h
    cases hnext : (unit.pass.advance registry v).walk.next? with
    | none =>
      refine ⟨_, a, ?_, .underway h hv, .refl _ _ _⟩
      have hopen : (unit.pass.advance registry v).tally.cancelled = false := rfl
      simp [Seat.step, Pass.step, hopen, hnext]
    | some next =>
      obtain ⟨s, rest⟩ := next
      have hv' : v + 1 ≤ unit.tree.nodeCount := by
        have hleft := Walk.remaining_of_next? hnext
        rw [Pass.remaining_advance, Prepared.remaining_pass ht] at hleft
        omega
      have hstep := Pass.step_advance signal a rfl hnext (Prepared.contained_advance hrules v)
      rw [Pass.advance_advance] at hstep
      have hvisited := Prepared.visited_advance registry ht hv
      have hasked := Prepared.asked_advance registry ht hv
      -- Either way one question is asked; it lets one site pass, or none and the pass is cancelled.
      rcases signal.passes_next a with hstands | hpasses
      · rw [if_pos hstands] at hstep
        have hasked' := Prepared.asked_cancel_advance registry ht hv
        refine ⟨_, a + 1, by rw [Seat.step, hstep], .cancelled h hv', .single ?_ ?_⟩
        · simp only [tally, hasked, hasked']
          omega
        · rw [hstands]
          rfl
      · rw [if_neg (by omega)] at hstep
        have hvisited' := Prepared.visited_advance registry ht hv'
        have hasked' := Prepared.asked_advance registry ht hv'
        refine ⟨_, a + 1, by rw [Seat.step, hstep], .underway h hv', .single ?_ ?_⟩
        · simp only [tally, hasked, hasked']
          omega
        · simp only [tally, hvisited, hvisited', hpasses]
          omega

end Seat

def UnitResult.tally : UnitResult → Tally
  | rejected _ => .zero
  | completed _ _ tally => tally

inductive UnitResult.Ends (read : Source → Checked Document) (registry : Registry)
    (input : Input) : UnitResult → Prop
  | rejected {r : Rejection} (h : input.prepareBy read = .error (.rejected r)) :
      Ends read registry input (.rejected r)
  | completed {unit : Prepared} {v : Nat} (h : input.prepareBy read = .ok unit)
      (hv : v ≤ unit.tree.nodeCount) : Ends read registry input (unit.pass.cut registry v).result

namespace Seat

variable {read : Source → Checked Document} {registry : Registry} {input : Input} {seat : Seat}

theorem Keeps.finish (h : seat.Keeps read registry input) (hproper : input.Proper read registry)
    (signal : Signal) (a : Nat) :
    ∃ u a', seat.finish registry (signal.askedFor a) = .ok (u, signal.askedFor a') ∧
      u.Ends read registry input ∧ signal.Moves a [seat.tally] a' [u.tally] := by
  cases h with
  | rejected h => exact ⟨_, a, rfl, .rejected h, .refl _ _ _⟩
  | @cancelled unit v h hv =>
    have hcut : unit.pass.cut registry v = (unit.pass.advance registry v).cancel := by
      rw [Pass.cut, if_pos (by rwa [Prepared.remaining_pass (hproper.unit h).1])]
    have hends : (unit.pass.advance registry v).cancel.result.Ends read registry input := by
      rw [← hcut]
      exact .completed h (Nat.le_of_lt hv)
    refine ⟨_, a, ?_, hends, .refl _ _ _⟩
    rw [Seat.finish, Pass.run, Pass.runWithin_of_isDone registry _ _ rfl]
    rfl
  | @underway unit v h hv =>
    obtain ⟨ht, hrules⟩ := hproper.unit h
    let left := unit.tree.nodeCount - v
    let k := (signal.askedFor a).passes left
    have hk : k ≤ left := Signal.passes_le left _
    have hw : v + k ≤ unit.tree.nodeCount := by omega
    have hlt : v + k < unit.tree.nodeCount ↔ k < left := by omega
    have hcut : Pass.CutAt registry unit.tree unit.outside .empty (v + k)
        (unit.pass.cut registry (v + k)) := Pass.cutAt_cut registry ht unit.outside .empty hw
    have hasked := hcut.asked
    simp only [hlt] at hasked
    -- What passes from here on, and the question that does not, are counted on from `a`.
    have hpasses : signal.passes (a + (k + if k < left then 1 else 0)) = signal.passes a + k := by
      rw [Signal.passes_askedFor, Signal.passes_passes]
    have hrun : (unit.pass.advance registry v).run registry (signal.askedFor a) =
        .ok (unit.pass.cut registry (v + k),
          signal.askedFor (a + (k + if k < left then 1 else 0))) :=
      Prepared.run_advance ht hrules hv signal a
    refine ⟨_, _, by rw [Seat.finish, hrun]; rfl, .completed h hw, .single ?_ ?_⟩
    · simp only [tally, UnitResult.tally, Pass.result, Prepared.asked_advance registry ht hv, hasked]
      omega
    · simp only [tally, UnitResult.tally, Pass.result, Prepared.visited_advance registry ht hv,
        hcut.visited]
      omega

end Seat

namespace Batch

structure Sound (read : Source → Checked Document) (registry : Registry) (inputs : List Input)
    (signal : Signal) (b : Batch) : Prop where
  seats : List.Forall₂ (fun input seat => Seat.Keeps read registry input seat) inputs b.seats
  signal : ∃ a, b.signal = signal.askedFor a ∧
    signal.Moves 0 [] a (b.seats.map Seat.tally)

variable {read : Source → Checked Document} {registry : Registry} {inputs : List Input}
  {signal : Signal} {b : Batch}

theorem exists_split {seats : List Seat} {i : Nat} {seat : Seat} (h : seats[i]? = some seat) :
    ∃ before after, seats = before ++ seat :: after ∧ before.length = i := by
  obtain ⟨hi, rfl⟩ := List.getElem?_eq_some_iff.mp h
  refine ⟨seats.take i, seats.drop (i + 1), ?_, ?_⟩
  · rw [List.getElem_cons_drop, List.take_append_drop]
  · rw [List.length_take, Nat.min_eq_left (Nat.le_of_lt hi)]

theorem Sound.step (h : b.Sound read registry inputs signal)
    (hproper : ∀ input ∈ inputs, input.Proper read registry) (i : Nat) :
    (b.step registry i).Sound read registry inputs signal := by
  obtain ⟨a, hsignal, hmoves⟩ := h.signal
  cases hseat : b.seats[i]? with
  | none =>
    rw [Batch.step, hseat]
    exact h
  | some seat =>
    -- The seats before and after are not looked at, and only this one asks the signal.
    obtain ⟨before, after, hseats, rfl⟩ := exists_split hseat
    have hbefore := List.forall₂_take_append inputs before (seat :: after) (hseats ▸ h.seats)
    have hafter := List.forall₂_drop_append inputs before (seat :: after) (hseats ▸ h.seats)
    obtain ⟨input, rest, hkeeps, hrest, hdrop⟩ := List.forall₂_cons_right_iff.mp hafter
    have hinput : input ∈ inputs := List.mem_of_mem_drop (hdrop ▸ List.mem_cons_self)
    obtain ⟨seat', a', hstep, hkeeps', hmove⟩ := hkeeps.step (hproper input hinput) signal a
    have hset : b.seats.set before.length seat' = before ++ seat' :: after := by
      simp [hseats]
    have hbatch : b.step registry before.length =
        ⟨before ++ seat' :: after, signal.askedFor a'⟩ := by
      rw [Batch.step, hseat, hsignal]
      simp only [hstep, hset]
    rw [hbatch]
    refine ⟨?_, a', rfl, ?_⟩
    · rw [← List.take_append_drop before.length inputs, hdrop]
      exact List.rel_append hbefore (.cons hkeeps' hrest)
    · refine hmoves.trans ?_
      rw [hseats]
      simp only [List.map_append, List.map_cons]
      exact (Signal.Moves.refl signal a _).append (hmove.append (.refl signal a' _))

theorem Sound.follow (h : b.Sound read registry inputs signal)
    (hproper : ∀ input ∈ inputs, input.Proper read registry) (schedule : List Nat) :
    (b.follow registry schedule).Sound read registry inputs signal := by
  induction schedule generalizing b with
  | nil => exact h
  | cons i rest ih => exact ih (h.step hproper i)

end Batch

theorem Input.Proper.cutAt {read : Source → Checked Document} {registry : Registry} {input : Input}
    (hproper : input.Proper read registry) {unit : Prepared}
    (h : input.prepareBy read = .ok unit) {v : Nat} (hv : v ≤ unit.tree.nodeCount) :
    Pass.CutAt registry unit.tree unit.outside .empty v (unit.pass.cut registry v) :=
  Pass.cutAt_cut registry (hproper.unit h).1 unit.outside .empty hv

namespace UnitResult

variable {read : Source → Checked Document} {registry : Registry} {input : Input} {u : UnitResult}

end UnitResult

structure Outcome (read : Source → Checked Document) (registry : Registry) (input : Input)
    (v : Nat) (u : UnitResult) : Prop where
  rejected : ∀ r, input.prepareBy read = .error (.rejected r) →
    v = 0 ∧ u.error? = some r ∧ u.diagnostics = [] ∧ u.failures = [] ∧ u.isCancelled = false
  completed : ∀ unit, input.prepareBy read = .ok unit →
    v ≤ unit.tree.nodeCount ∧ u.error? = none ∧ u.path = unit.tree.path ∧
      u.diagnostics = (registry.duties (unit.sites.take v)).filterMap
        (Duty.diagnostic? unit.tree) ∧
      u.failures = (registry.duties (unit.sites.take v)).filterMap (Duty.failure? unit.tree) ∧
      (u.isCancelled = true ↔ v < unit.tree.nodeCount)

section

variable {read : Source → Checked Document} {registry : Registry} {input : Input}
  {inputs : List Input} {u : UnitResult} {us : List UnitResult}

theorem UnitResult.Ends.outcome (h : u.Ends read registry input)
    (hproper : input.Proper read registry) : Outcome read registry input u.tally.visited u := by
  cases h with
  | @rejected r h =>
    constructor
    · intro r' hr'
      obtain rfl : r = r' := by simpa [h] using hr'
      exact ⟨rfl, rfl, rfl, rfl, rfl⟩
    · intro unit hunit
      simp [h] at hunit
  | @completed unit v h hv =>
    constructor
    · intro r hr
      simp [h] at hr
    · intro unit' hunit'
      obtain rfl : unit = unit' := by simpa [h] using hunit'
      have hcut := hproper.cutAt h hv
      have hvisited : (unit.pass.cut registry v).result.tally.visited = v := hcut.visited
      rw [hvisited]
      exact ⟨hv, rfl, hcut.path, hcut.diagnostics, hcut.failures, hcut.cancelled⟩

end

end TreeLint
