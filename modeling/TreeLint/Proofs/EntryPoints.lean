import TreeLint.Proofs.Interleaving

namespace TreeLint

namespace UnitResult

variable {read : Source → Checked Document} {registry : Registry} {input : Input}

end UnitResult

namespace Batch

variable {registry : Registry} {b : Batch} {i : Interruption}

theorem ended_mem_step (h : .ended i ∈ b.seats) (k : Nat) :
    .ended i ∈ (b.step registry k).seats := by
  rw [step]
  cases hk : b.seats[k]? with
  | none => exact h
  | some seat =>
    obtain ⟨j, hj⟩ := List.mem_iff_getElem?.mp h
    refine List.mem_iff_getElem?.mpr ⟨j, ?_⟩
    obtain ⟨hlt, -⟩ := List.getElem?_eq_some_iff.mp hj
    by_cases hjk : k = j
    · subst hjk
      obtain rfl := Option.some.inj (hj.symm.trans hk)
      rw [List.getElem?_set_self hlt]
      rfl
    · rw [List.getElem?_set_ne hjk, hj]

theorem ended_mem_follow (h : .ended i ∈ b.seats) (schedule : List Nat) :
    .ended i ∈ (b.follow registry schedule).seats := by
  induction schedule generalizing b with
  | nil => exact h
  | cons k rest ih => exact ih (ended_mem_step h k)

theorem finishAll_of_ended {seats : List Seat} (h : .ended i ∈ seats) (signal : Signal) :
    ∃ j, finishAll registry signal seats = .error j := by
  induction seats generalizing signal with
  | nil => simp at h
  | cons seat rest ih =>
    rw [finishAll]
    cases hseat : seat.finish registry signal with
    | error j => exact ⟨j, rfl⟩
    | ok result =>
      obtain ⟨u, left⟩ := result
      rcases List.mem_cons.mp h with rfl | h
      · cases hseat
      · obtain ⟨j, hj⟩ := ih h left
        exact ⟨j, by simp only [hj, Except.map]⟩

end Batch

section

variable {read : Source → Checked Document} {input : Input} {i : Interruption}

theorem analyzeBy_of_ended (h : input.prepareBy read = .error (.ended i)) (registry : Registry)
    (signal : Signal) : analyzeBy read registry input signal = .error (.ended i) ∧
      analyzeUnitBy read registry input signal = .error i := by
  rw [analyzeBy, analyzeUnitBy, h]
  exact ⟨rfl, rfl⟩

theorem analyzeManyBy_of_ended {inputs : List Input} (hinput : input ∈ inputs)
    (h : input.prepareBy read = .error (.ended i)) (registry : Registry) (signal : Signal)
    (schedule : List Nat) :
    ∃ j, analyzeManyBy read registry inputs signal schedule = .error j := by
  apply Batch.finishAll_of_ended (i := i)
  apply Batch.ended_mem_follow
  refine List.mem_map.mpr ⟨input, hinput, ?_⟩
  rw [Seat.ofInputBy, h]

/-- A document whose path cannot be written is no unit: the error of writing it goes outwards. -/
theorem Input.prepareBy_of_path? {entries : List (String × Value)}
    (h : (Source.value (.record entries)).path? = none) :
    (Input.source (.value (.record entries))).prepareBy read = .error (.ended .unwritable) := by
  simp only [prepareBy, Source.loadBy_of_path?_eq_none h, Except.map]

theorem analyzeBy_of_interruption {unit : Prepared} (h : input.prepareBy read = .ok unit)
    (hunit : unit.tree.Accepted) {registry : Registry} {signal : Signal}
    (hi : (registry.duties (unit.sites.take (signal.passes unit.tree.nodeCount))).findSome?
      (Duty.interruption? unit.tree) = some i) :
    analyzeBy read registry input signal = .error (.ended i) ∧
      analyzeUnitBy read registry input signal = .error i := by
  have hover := Pass.over_of_interruption hunit unit.outside .empty hi
  simp only [analyzeBy, analyzeUnitBy, h, hover, and_self]

end

end TreeLint
