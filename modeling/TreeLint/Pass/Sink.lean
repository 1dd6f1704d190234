import TreeLint.Rule.Basic

namespace TreeLint

structure Failure where
  ruleId : String
  nodeKind : Kind
  location : Span
  errorType : String
  error : String
deriving DecidableEq, Repr

structure Sink where
  diagnostics : List Diagnostic
  failures : List Failure
deriving DecidableEq, Repr

namespace Sink

def empty : Sink :=
  ⟨[], []⟩

def report (s : Sink) (d : Diagnostic) : Sink :=
  { s with diagnostics := s.diagnostics ++ [d] }

def recordFailure (s : Sink) (f : Failure) : Sink :=
  { s with failures := s.failures ++ [f] }

def drain (s : Sink) : List Diagnostic × Sink :=
  (s.diagnostics, { s with diagnostics := [] })

def size (s : Sink) : Nat :=
  s.diagnostics.length

/-- A reading of the diagnostics under way: those that were there when it began and are not read. -/
structure Iteration where
  unread : List Diagnostic
deriving DecidableEq, Repr

def iterate (s : Sink) : Iteration :=
  ⟨s.diagnostics⟩

def Iteration.next? (i : Iteration) : Option (Diagnostic × Iteration) :=
  match i.unread with
  | [] => none
  | d :: rest => some (d, ⟨rest⟩)

def repeatFrom (s : Sink) : List Diagnostic → Sink
  | [] => s
  | d :: rest => (s.report d).repeatFrom rest

def repeatAll (s : Sink) : Sink :=
  s.repeatFrom s.iterate.unread

theorem drain_eq (s : Sink) : s.drain = (s.diagnostics, ⟨[], s.failures⟩) := rfl

end Sink

end TreeLint
