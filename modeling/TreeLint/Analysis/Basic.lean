import TreeLint.Pass.Basic
import TreeLint.Document.Load

namespace TreeLint

/--
A unit as it is handed over: a tree with what stands around its root, a document, or something of
a type that is neither.
-/
inductive Input where
  | tree (t : Tree) (outside : List Enclosing)
  | source (s : Source)
  | other (typeName : String)

structure Prepared where
  tree : Tree
  outside : List Enclosing

namespace Input

def prepareBy (read : Source → Checked Document) : Input → Except Stop Prepared
  | tree t outside => .ok ⟨t, outside⟩
  | source (.value (.record entries)) =>
    ((Source.value (.record entries)).loadBy read).map (⟨·, []⟩)
  | source (.value v) => .error (.rejected (.unsupported v.typeName))
  | source s => (s.loadBy read).map (⟨·, []⟩)
  | other typeName => .error (.rejected (.unsupported typeName))

def prepare (input : Input) : Except Stop Prepared :=
  input.prepareBy Source.read

end Input

inductive UnitResult where
  | rejected (r : Rejection)
  | completed (path : String) (sink : Sink) (tally : Tally)

namespace UnitResult

def path : UnitResult → String
  | rejected r => r.path
  | completed path _ _ => path

def diagnostics : UnitResult → List Diagnostic
  | rejected _ => []
  | completed _ sink _ => sink.diagnostics

def failures : UnitResult → List Failure
  | rejected _ => []
  | completed _ sink _ => sink.failures

def error? : UnitResult → Option Rejection
  | rejected r => some r
  | completed _ _ _ => none

def isOk (u : UnitResult) : Bool :=
  u.error?.isNone

def isCancelled : UnitResult → Bool
  | rejected _ => false
  | completed _ _ tally => tally.cancelled

end UnitResult

def Pass.result (p : Pass) : UnitResult :=
  .completed p.path p.sink p.tally

def analyzeBy (read : Source → Checked Document) (registry : Registry) (input : Input)
    (signal : Signal) : Except Stop (List Diagnostic × Signal) :=
  match input.prepareBy read with
  | .error stop => .error stop
  | .ok unit =>
    match Pass.over registry unit.tree unit.outside .empty signal with
    | .error i => .error (.ended i)
    | .ok (p, signal) => .ok (p.sink.drain.1, signal)

def analyzeUnitBy (read : Source → Checked Document) (registry : Registry) (input : Input)
    (signal : Signal) : Except Interruption (UnitResult × Signal) :=
  match input.prepareBy read with
  | .error (.rejected r) => .ok (.rejected r, signal)
  | .error (.ended i) => .error i
  | .ok unit =>
    match Pass.over registry unit.tree unit.outside .empty signal with
    | .error i => .error i
    | .ok (p, signal) => .ok (p.result, signal)

def analyze (registry : Registry) (input : Input) (signal : Signal) :
    Except Stop (List Diagnostic × Signal) :=
  analyzeBy Source.read registry input signal

def analyzeUnit (registry : Registry) (input : Input) (signal : Signal) :
    Except Interruption (UnitResult × Signal) :=
  analyzeUnitBy Source.read registry input signal

end TreeLint
