import TreeLint.Interruption
import TreeLint.Rule.Registry
import TreeLint.Pass.Sink
import TreeLint.Syntax.Tree

/-!
A pass over a tree: node after node, every rule for its kind. Before each node a signal may stop
the pass, so that no node is done by half.
-/

namespace TreeLint

structure Countdown where
  allowed : Nat
  asked : Nat
deriving DecidableEq, Repr

/-- Nothing stands for a signal that is never given. -/
abbrev Signal :=
  Option Countdown

namespace Signal

def ask : Signal → Bool × Signal
  | none => (false, none)
  | some c => (c.allowed ≤ c.asked, some { c with asked := c.asked + 1 })

end Signal

structure Tally where
  visited : Nat
  invocations : Nat
  reports : Nat
  failures : Nat
  cancelled : Bool
deriving DecidableEq, Repr

def Tally.zero : Tally :=
  ⟨0, 0, 0, 0, false⟩

structure Pass where
  tree : Tree
  walk : Walk
  sink : Sink
  tally : Tally

namespace Pass

def start (t : Tree) (outside : List Enclosing) (sink : Sink) : Pass :=
  ⟨t, .start (t.site outside), sink, .zero⟩

def path (p : Pass) : String :=
  p.tree.path

def isDone (p : Pass) : Bool :=
  p.tally.cancelled || p.walk.pending.isEmpty

def countInvocation (p : Pass) : Pass :=
  { p with tally := { p.tally with invocations := p.tally.invocations + 1 } }

def addReport (p : Pass) (d : Diagnostic) : Pass :=
  { p with
    sink := p.sink.report d
    tally := { p.tally with reports := p.tally.reports + 1 } }

def addFailure (p : Pass) (rule : Rule) (s : Site) (errorType error : String) : Pass :=
  { p with
    sink := p.sink.recordFailure ⟨rule.id, s.kind, s.node.span, errorType, error⟩
    tally := { p.tally with failures := p.tally.failures + 1 } }

/--
What a verdict adds; one that is neither a report nor an abstention is a failure of the rule. An
error that has no text leaves no record, and the error of asking for its text goes on outwards.
-/
def record (p : Pass) (rule : Rule) (s : Site) : Verdict → Except Interruption Pass
  | .abstain => .ok p
  | .report finding => .ok (p.addReport (rule.sign p.path finding))
  | .misreturn typeName =>
    .ok (p.addFailure rule s "TypeError"
      ("rule returned " ++ typeName ++ ", expected Finding or None"))
  | .raise errorType (.ok text) => .ok (p.addFailure rule s errorType text)
  | .raise _ (.error errorType) => .error (.escaped errorType)
  | .interrupt => .error .interrupted

def invoke (p : Pass) (rule : Rule) (s : Site) : Except Interruption Pass :=
  p.countInvocation.record rule s (rule.evaluate p.tree s)

def invokeAll (p : Pass) (s : Site) : List Rule → Except Interruption Pass
  | [] => .ok p
  | rule :: rest =>
    match p.invoke rule s with
    | .ok p => p.invokeAll s rest
    | .error stop => .error stop

def visit (p : Pass) (registry : Registry) (s : Site) : Except Interruption Pass :=
  { p with tally := { p.tally with visited := p.tally.visited + 1 } }.invokeAll s
    (registry.rulesFor s.kind)

def cancel (p : Pass) : Pass :=
  { p with tally := { p.tally with cancelled := true } }

def step (p : Pass) (registry : Registry) (signal : Signal) :
    Except Interruption (Pass × Signal) :=
  if p.tally.cancelled then .ok (p, signal)
  else match p.walk.next? with
    | none => .ok (p, signal)
    | some (s, rest) =>
      let (stands, signal) := signal.ask
      if stands then .ok (p.cancel, signal)
      else match { p with walk := rest }.visit registry s with
        | .ok p => .ok (p, signal)
        | .error stop => .error stop

def runWithin (registry : Registry) : Nat → Pass → Signal → Except Interruption (Pass × Signal)
  | 0, p, signal => .ok (p, signal)
  | bound + 1, p, signal =>
    if p.isDone then .ok (p, signal)
    else match p.step registry signal with
      | .ok (p, signal) => runWithin registry bound p signal
      | .error stop => .error stop

def run (p : Pass) (registry : Registry) (signal : Signal) : Except Interruption (Pass × Signal) :=
  runWithin registry p.walk.remaining p signal

end Pass

def Pass.over (registry : Registry) (t : Tree) (outside : List Enclosing) (sink : Sink)
    (signal : Signal) : Except Interruption (Pass × Signal) :=
  (Pass.start t outside sink).run registry signal

end TreeLint
