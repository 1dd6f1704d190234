import TreeLint.Rule.Basic

namespace TreeLint

inductive AccessFault where
  | noFirst
  | noLast
  | noKey (typeName : String)
deriving DecidableEq, Repr

namespace AccessFault

def errorType : AccessFault → String
  | noFirst => "IndexError"
  | noLast => "IndexError"
  | noKey _ => "TypeError"

def message : AccessFault → String
  | noFirst => "list index out of range"
  | noLast => "list index out of range"
  | noKey typeName => "unhashable type: '" ++ typeName ++ "'"

end AccessFault

abbrev Judgement :=
  Except AccessFault (Option Finding)

namespace Judgement

def abstain : Judgement :=
  .ok none

def reportIf (fires : Bool) (n : Node) (message : String) : Judgement :=
  .ok (if fires then some (Finding.at n message) else none)

def report (n : Node) (message : String) : Judgement :=
  reportIf true n message

def verdict : Judgement → Verdict
  | .ok none => .abstain
  | .ok (some finding) => .report finding
  | .error fault => .raise fault.errorType (.ok fault.message)

end Judgement

variable {α : Type}

def firstOf : List α → Except AccessFault α
  | [] => .error .noFirst
  | a :: _ => .ok a

def lastOf (as : List α) : Except AccessFault α :=
  match as.getLast? with
  | none => .error .noLast
  | some a => .ok a

theorem firstOf_of_ne_nil {as : List α} (h : as ≠ []) : ∃ a, firstOf as = .ok a := by
  cases as with
  | nil => exact absurd rfl h
  | cons a _ => exact ⟨a, rfl⟩

theorem lastOf_of_ne_nil {as : List α} (h : as ≠ []) : ∃ a, lastOf as = .ok a := by
  simp [lastOf, List.getLast?_eq_some_getLast h]

end TreeLint
