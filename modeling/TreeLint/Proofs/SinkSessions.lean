import Mathlib.Data.List.Induction
import TreeLint.Pass.Sink

namespace TreeLint

namespace Sink

inductive Call where
  | report (d : Diagnostic)
  | recordFailure (f : Failure)
  | drain
  | diagnostics
  | failures
  | size
  | iterate
  | advance (k : Nat)
deriving DecidableEq

def Call.reported? : Call → Option Diagnostic
  | report d => some d
  | _ => none

def Call.recorded? : Call → Option Failure
  | recordFailure f => some f
  | _ => none

inductive Handout (α : Type) where
  | nothing
  | drained (list : α)
  | diagnostics (ds : List Diagnostic)
  | failures (fs : List Failure)
  | size (n : Nat)
  | iteration (given : List Diagnostic) (left : Iteration)
deriving DecidableEq

namespace Handout

variable {α β : Type}

def map (g : α → β) : Handout α → Handout β
  | nothing => nothing
  | drained list => drained (g list)
  | diagnostics ds => diagnostics ds
  | failures fs => failures fs
  | size n => size n
  | iteration given left => iteration given left

def drained? : Handout α → Option α
  | drained list => some list
  | _ => none

def advance : Handout α → Handout α
  | iteration given left =>
    match left.next? with
    | none => iteration given left
    | some (d, rest) => iteration (given ++ [d]) rest
  | h => h

def advancedBy (n : Nat) : Handout α → Handout α
  | iteration given left => iteration (given ++ left.unread.take n) ⟨left.unread.drop n⟩
  | h => h

theorem advance_iteration (given unread : List Diagnostic) :
    (iteration given ⟨unread⟩ : Handout α).advance =
      iteration (given ++ unread.take 1) ⟨unread.drop 1⟩ := by
  cases unread with
  | nil => simp [advance, Iteration.next?]
  | cons d rest => rfl

theorem advancedBy_zero (h : Handout α) : h.advancedBy 0 = h := by
  cases h with
  | iteration given left => simp [advancedBy]
  | _ => rfl

theorem advance_advancedBy (h : Handout α) (n : Nat) :
    (h.advancedBy n).advance = h.advancedBy (n + 1) := by
  cases h with
  | iteration given left =>
    rw [advancedBy, advancedBy, advance_iteration, List.append_assoc, List.drop_drop, List.take_add]
  | _ => rfl

theorem map_advance (g : α → β) (h : Handout α) : h.advance.map g = (h.map g).advance := by
  cases h with
  | iteration given left =>
    obtain ⟨unread⟩ := left
    rw [advance_iteration, map, map, advance_iteration]
  | _ => rfl

theorem drained?_advance (h : Handout α) : h.advance.drained? = h.drained? := by
  cases h with
  | iteration given left =>
    obtain ⟨unread⟩ := left
    rw [advance_iteration]
    rfl
  | _ => rfl

theorem map_congr_drained {g g' : α → β} {h : Handout α} (hg : ∀ a ∈ h.drained?, g a = g' a) :
    h.map g = h.map g' := by
  cases h with
  | drained list => exact congrArg drained (hg list rfl)
  | _ => rfl

end Handout

def Call.progress {α : Type} (c : Call) (hs : List (Handout α)) : List (Handout α) :=
  match c with
  | advance k => hs.modify k .advance
  | _ => hs

def act (s : Sink) : Call → Sink
  | .report d => s.report d
  | .recordFailure f => s.recordFailure f
  | .drain => s.drain.2
  | _ => s

def answer (s : Sink) : Call → Handout (List Diagnostic)
  | .drain => .drained s.drain.1
  | .diagnostics => .diagnostics s.diagnostics
  | .failures => .failures s.failures
  | .size => .size s.size
  | .iterate => .iteration [] s.iterate
  | _ => .nothing

section Progress

variable {α β : Type}

theorem map_modify {f : α → α} {f' : β → β} {g : α → β} (h : ∀ a, g (f a) = f' (g a))
    (as : List α) (k : Nat) : (as.modify k f).map g = (as.map g).modify k f' := by
  induction as generalizing k with
  | nil => cases k <;> rfl
  | cons a rest ih =>
    cases k with
    | zero => simp [h]
    | succ k => simp [ih]

theorem Call.map_progress (c : Call) (g : α → β) (hs : List (Handout α)) :
    (c.progress hs).map (Handout.map g) = c.progress (hs.map (Handout.map g)) := by
  cases c with
  | advance k => exact map_modify (Handout.map_advance g) hs k
  | _ => rfl

theorem Call.drained_progress (c : Call) (hs : List (Handout α)) :
    (c.progress hs).filterMap Handout.drained? = hs.filterMap Handout.drained? := by
  cases c with
  | advance k =>
    have hlists : ∀ hs : List (Handout α),
        hs.filterMap Handout.drained? = (hs.map Handout.drained?).filterMap id := by
      intro hs
      rw [List.filterMap_map]
      rfl
    have hkept := calc
      (hs.modify k .advance).map Handout.drained? = (hs.map Handout.drained?).modify k id :=
        map_modify Handout.drained?_advance hs k
      _ = hs.map Handout.drained? := List.modify_id ..
    rw [progress, hlists, hkept, ← hlists]
  | _ => rfl

theorem Call.getElem?_progress (c : Call) (hs : List (Handout α)) (i : Nat) :
    (c.progress hs)[i]? = if c = .advance i then hs[i]?.map .advance else hs[i]? := by
  cases c with
  | advance k =>
    rw [progress, List.getElem?_modify]
    by_cases hk : k = i <;> simp [hk]
  | _ => rfl

theorem Call.length_progress (c : Call) (hs : List (Handout α)) :
    (c.progress hs).length = hs.length := by
  cases c with
  | advance k => exact List.length_modify ..
  | _ => rfl

end Progress

theorem drained_append_diagnostics_act (s : Sink) (c : Call) :
    ([s.answer c].filterMap Handout.drained?).flatten ++ (s.act c).diagnostics =
      s.diagnostics ++ [c].filterMap Call.reported? := by
  cases c with
  | report d => rfl
  | drain => exact List.append_assoc s.diagnostics [] []
  | _ => exact (List.append_nil _).symm

theorem failures_act (s : Sink) (c : Call) :
    (s.act c).failures = s.failures ++ [c].filterMap Call.recorded? := by
  cases c with
  | recordFailure f => rfl
  | _ => exact (List.append_nil _).symm

/--
A sink with all the lists that it has ever collected in, and with what it has handed out. A list
that was drained is known by its place: it reads as that place does.
-/
structure Session where
  lists : List (List Diagnostic)
  current : Nat
  failures : List Failure
  handouts : List (Handout Nat)

namespace Session

def start : Session :=
  ⟨[[]], 0, [], []⟩

def listAt (s : Session) (k : Nat) : List Diagnostic :=
  s.lists[k]?.getD []

def sink (s : Session) : Sink :=
  ⟨s.listAt s.current, s.failures⟩

def handed (s : Session) : List (Handout (List Diagnostic)) :=
  s.handouts.map (Handout.map s.listAt)

def act (s : Session) : Call → Session
  | .report d => { s with lists := s.lists.modify s.current (· ++ [d]) }
  | .recordFailure f => { s with failures := s.failures ++ [f] }
  | .drain => { s with lists := s.lists ++ [[]], current := s.lists.length }
  | .advance k => { s with handouts := s.handouts.modify k .advance }
  | _ => s

def answer (s : Session) : Call → Handout Nat
  | .drain => .drained s.current
  | .diagnostics => .diagnostics (s.listAt s.current)
  | .failures => .failures s.failures
  | .size => .size (s.listAt s.current).length
  | .iterate => .iteration [] ⟨s.listAt s.current⟩
  | _ => .nothing

def step (s : Session) (c : Call) : Session :=
  let after := s.act c
  { after with handouts := after.handouts ++ [s.answer c] }

def run (calls : List Call) : Session :=
  calls.foldl step start

theorem run_concat (calls : List Call) (c : Call) : run (calls ++ [c]) = (run calls).step c := by
  simp [run]

structure Apart (s : Session) : Prop where
  last : s.lists.length = s.current + 1
  drained : ∀ k ∈ s.handouts.filterMap Handout.drained?, k < s.current

variable {s : Session}

theorem handouts_act (s : Session) (c : Call) : (s.act c).handouts = c.progress s.handouts := by
  cases c <;> rfl

theorem handouts_step (s : Session) (c : Call) :
    (s.step c).handouts = c.progress s.handouts ++ [s.answer c] := by
  rw [step, handouts_act]

theorem listAt_act (s : Session) (c : Call) {k : Nat} (hk : k < (s.act c).current) :
    (s.act c).listAt k = s.listAt k := by
  cases c with
  | report d =>
    have hne : s.current ≠ k := Nat.ne_of_gt hk
    simp [act, listAt, hne]
  | drain => rw [listAt, act, List.getElem?_append_left hk, listAt]
  | _ => rfl

namespace Apart

theorem current_le_act (h : s.Apart) (c : Call) : s.current ≤ (s.act c).current := by
  cases c with
  | drain =>
    rw [act, h.last]
    exact Nat.le_succ _
  | _ => exact Nat.le_refl _

theorem drained_answer (h : s.Apart) (c : Call) :
    ∀ k ∈ (s.answer c).drained?, k < (s.act c).current := by
  cases c with
  | drain =>
    intro k hk
    obtain rfl := Option.some.inj hk
    rw [act, h.last]
    exact Nat.lt_succ_self _
  | _ => nofun

theorem start : start.Apart :=
  ⟨rfl, by simp [Session.start]⟩

theorem step (h : s.Apart) (c : Call) : (s.step c).Apart := by
  constructor
  · change (s.act c).lists.length = (s.act c).current + 1
    cases c with
    | report d => rw [act, List.length_modify, h.last]
    | drain => rw [act, List.length_append, List.length_singleton]
    | _ => exact h.last
  · intro k hk
    rw [handouts_step, List.filterMap_append, c.drained_progress, List.mem_append] at hk
    rcases hk with hk | hk
    · exact Nat.lt_of_lt_of_le (h.drained k hk) (h.current_le_act c)
    · obtain ⟨g, hg, hk⟩ := List.mem_filterMap.mp hk
      obtain rfl := List.mem_singleton.mp hg
      exact h.drained_answer c k hk

theorem run (calls : List Call) : (run calls).Apart := by
  induction calls using List.reverseRecOn with
  | nil => exact .start
  | append_singleton calls c ih =>
    rw [run_concat]
    exact ih.step c

theorem sink_step (h : s.Apart) (c : Call) : (s.step c).sink = s.sink.act c := by
  change (s.act c).sink = s.sink.act c
  have hlt : s.current < s.lists.length := by
    rw [h.last]
    exact Nat.lt_succ_self _
  cases c with
  | report d => simp [Session.act, Sink.act, sink, listAt, report, hlt]
  | drain => simp [Session.act, Sink.act, sink, listAt, drain_eq]
  | _ => rfl

theorem map_answer (h : s.Apart) (c : Call) :
    (s.answer c).map (s.step c).listAt = s.sink.answer c := by
  cases c with
  | drain => exact congrArg Handout.drained (s.listAt_act .drain (h.drained_answer .drain _ rfl))
  | _ => rfl

theorem handed_step (h : s.Apart) (c : Call) :
    (s.step c).handed = c.progress s.handed ++ [s.sink.answer c] := by
  -- no call changes a list before the current one, and only such lists were drained
  have hkept : s.handouts.map (Handout.map (s.step c).listAt) = s.handed := by
    apply List.map_congr_left
    intro g hg
    apply Handout.map_congr_drained
    intro k hk
    have hlt := h.drained k (List.mem_filterMap.mpr ⟨g, hg, hk⟩)
    exact s.listAt_act c (Nat.lt_of_lt_of_le hlt (h.current_le_act c))
  rw [handed, handouts_step, List.map_append, c.map_progress, hkept, List.map_singleton,
    h.map_answer]

end Apart

theorem sink_run (calls : List Call) : (run calls).sink = calls.foldl Sink.act empty := by
  induction calls using List.reverseRecOn with
  | nil => rfl
  | append_singleton calls c ih =>
    rw [run_concat, (Apart.run calls).sink_step, ih, List.foldl_append]
    rfl

theorem handed_run_concat (calls : List Call) (c : Call) :
    (run (calls ++ [c])).handed = c.progress (run calls).handed ++ [(run calls).sink.answer c] := by
  rw [run_concat, (Apart.run calls).handed_step]

theorem length_handed_run (calls : List Call) : (run calls).handed.length = calls.length := by
  induction calls using List.reverseRecOn with
  | nil => rfl
  | append_singleton calls c ih =>
    rw [handed_run_concat, List.length_append, c.length_progress, ih, List.length_append]
    rfl

theorem drained_append_diagnostics (calls : List Call) :
    ((run calls).handed.filterMap Handout.drained?).flatten ++ (run calls).sink.diagnostics =
      calls.filterMap Call.reported? := by
  induction calls using List.reverseRecOn with
  | nil => rfl
  | append_singleton calls c ih =>
    rw [handed_run_concat, run_concat, (Apart.run calls).sink_step, List.filterMap_append,
      c.drained_progress, List.flatten_append, List.append_assoc, drained_append_diagnostics_act,
      ← List.append_assoc, ih, List.filterMap_append]

theorem failures_run (calls : List Call) :
    (run calls).sink.failures = calls.filterMap Call.recorded? := by
  induction calls using List.reverseRecOn with
  | nil => rfl
  | append_singleton calls c ih =>
    rw [run_concat, (Apart.run calls).sink_step, failures_act, ih, List.filterMap_append]

theorem getElem?_handed_run (calls : List Call) (c : Call) (later : List Call) :
    (run (calls ++ c :: later)).handed[calls.length]? =
      some (((run calls).sink.answer c).advancedBy (later.count (.advance calls.length))) := by
  have hlength := length_handed_run calls
  -- call by call: only an advance that names the position changes what is read there
  induction later using List.reverseRecOn with
  | nil =>
    rw [handed_run_concat, ← hlength, ← c.length_progress, List.getElem?_concat_length,
      List.count_nil, Handout.advancedBy_zero]
  | append_singleton later e ih =>
    have hlt : calls.length < (run (calls ++ c :: later)).handed.length := by
      rw [length_handed_run, List.length_append, List.length_cons]
      omega
    have hprogress : (e.progress (run (calls ++ c :: later)).handed)[calls.length]? =
        some (((run calls).sink.answer c).advancedBy
          ((later ++ [e]).count (.advance calls.length))) := by
      rw [e.getElem?_progress, ih, List.count_append]
      by_cases he : e = .advance calls.length
      · rw [if_pos he, he, List.count_singleton_self, Option.map_some,
          Handout.advance_advancedBy]
      · have hcount : [e].count (.advance calls.length) = 0 :=
          List.count_eq_zero_of_not_mem (by simpa using Ne.symm he)
        rw [if_neg he, hcount, Nat.add_zero]
    rw [← List.cons_append, ← List.append_assoc, handed_run_concat,
      List.getElem?_append_left (by rw [e.length_progress]; exact hlt), hprogress]

theorem getElem?_handed_append {calls later : List Call} {k : Nat} (hk : k < calls.length)
    (hlater : .advance k ∉ later) :
    (run (calls ++ later)).handed[k]? = (run calls).handed[k]? := by
  obtain ⟨before, c, rest, rfl, rfl⟩ :
      ∃ before c rest, calls = before ++ c :: rest ∧ before.length = k :=
    ⟨calls.take k, calls[k], calls.drop (k + 1), by simp, by simp [Nat.le_of_lt hk]⟩
  rw [List.append_assoc, List.cons_append, getElem?_handed_run, getElem?_handed_run,
    List.count_append, List.count_eq_zero_of_not_mem hlater, Nat.add_zero]

def repeating (k : Nat) (ds : List Diagnostic) : List Call :=
  ds.flatMap fun d => [.advance k, .report d]

theorem foldl_act_repeating (k : Nat) (ds : List Diagnostic) (s : Sink) :
    (repeating k ds).foldl Sink.act s = s.repeatFrom ds := by
  induction ds generalizing s with
  | nil => rfl
  | cons d rest ih => exact ih (s.report d)

theorem count_repeating (k : Nat) (ds : List Diagnostic) :
    (repeating k ds).count (.advance k) = ds.length := by
  induction ds with
  | nil => rfl
  | cons d rest ih =>
    have hcons : repeating k (d :: rest) = .advance k :: .report d :: repeating k rest := rfl
    rw [hcons, List.count_cons_self, List.count_cons_of_ne (by nofun), ih, List.length_cons]

theorem sink_run_repeating (calls : List Call) :
    let sink := (run calls).sink
    let s := run (calls ++ .iterate :: repeating calls.length sink.diagnostics)
    s.sink = sink.repeatAll ∧
      s.handed[calls.length]? = some (.iteration sink.diagnostics ⟨[]⟩) := by
  intro sink s
  constructor
  · rw [sink_run, List.foldl_append, List.foldl_cons, ← sink_run]
    exact foldl_act_repeating calls.length sink.diagnostics sink
  · rw [getElem?_handed_run, count_repeating]
    simp [Sink.answer, Handout.advancedBy, iterate, sink]

/--
Whatever is asked of a sink, each report is either in one of the lists that were drained or still
there, once and in its order. What a call has handed out stays as it was, but for an iteration that
is read on: it gives what was there when it began.
-/
theorem sessions_account_for_reports (calls : List Call) :
    (run calls).sink = calls.foldl Sink.act empty ∧
      ((run calls).handed.filterMap Handout.drained?).flatten ++ (run calls).sink.diagnostics =
        calls.filterMap Call.reported? ∧
      (run calls).sink.failures = calls.filterMap Call.recorded? ∧
      (run calls).sink.size + ((run calls).handed.filterMap Handout.drained?).flatten.length =
        (calls.filterMap Call.reported?).length ∧
      (∀ c later, (run (calls ++ c :: later)).handed[calls.length]? =
        some (((run calls).sink.answer c).advancedBy (later.count (.advance calls.length)))) ∧
      ∀ (k : Nat) later, k < calls.length → .advance k ∉ later →
        (run (calls ++ later)).handed[k]? = (run calls).handed[k]? := by
  have hreports := drained_append_diagnostics calls
  refine ⟨sink_run calls, hreports, failures_run calls, ?_, ?_, ?_⟩
  · rw [← hreports, List.length_append, size, Nat.add_comm]
  · intro c later
    exact getElem?_handed_run calls c later
  · intro k later hk hlater
    exact getElem?_handed_append hk hlater

theorem sessions_account_for_reports_two_drains :
    let a : Diagnostic := ⟨"A", "style", .warning, .ofRange 0 1, "first", "a.cs"⟩
    let b : Diagnostic := ⟨"B", "style", .warning, .ofRange 1 2, "second", "a.cs"⟩
    let calls : List Call := [.report a, .iterate, .report b, .drain, .advance 1, .report a]
    (run calls).handed[1]? = some (.iteration [a] ⟨[]⟩) ∧
      (run calls).handed[3]? = some (.drained [a, b]) ∧ (run calls).sink.diagnostics = [a] ∧
      (run (calls ++ [.drain, .report b])).handed[3]? = (run calls).handed[3]? := by
  intro a b calls
  obtain ⟨-, -, -, -, hiteration, -⟩ := sessions_account_for_reports [.report a]
  obtain ⟨-, -, -, -, hdrained, -⟩ := sessions_account_for_reports [.report a, .iterate, .report b]
  obtain ⟨-, hreports, -, -, -, hkept⟩ := sessions_account_for_reports calls
  refine ⟨?_, ?_, ?_, ?_⟩
  · exact hiteration .iterate [.report b, .drain, .advance 1, .report a]
  · exact hdrained .drain [.advance 1, .report a]
  · have hrest : [a, b] ++ (run calls).sink.diagnostics = [a, b] ++ [a] := hreports
    exact List.append_cancel_left hrest
  · apply hkept 3
    · decide
    · nofun

end Session

end Sink

end TreeLint
