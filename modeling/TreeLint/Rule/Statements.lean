import TreeLint.Rule.Context
import TreeLint.Rule.Judgement
import TreeLint.Text.Search

namespace TreeLint.Statements

def blankBlockMessage : String :=
  "This code has a blank block to do nothing. " ++
    "Sometimes this means the code missed to implement here"

def emptyIfMessage : String :=
  "This method contains an unnecessary empty if statement"

def swallowedExceptionMessage : String :=
  "The exception is ignored (\"swallowed\") by the try-catch block."

def blankMessage : Option Kind → String
  | some .ifStatement => emptyIfMessage
  | some .catchClause => swallowedExceptionMessage
  | _ => blankBlockMessage

def blankCode (s : Site) : Judgement := do
  if !s.node.children.isEmpty then return none
  if ← s.parentIs lambdaKinds then return none
  Judgement.report s.node (blankMessage (s.above.head?.bind fun e => e.kind.kind?))

def materializingCalls : List String :=
  [".ToArray()", ".ToList()"]

def materializeInForeachMessage : String :=
  "ToArray/ToList inside foreach declaration. Remove the `ToArray()` or `ToList()` call " ++
    "and use the `IEnumerable` instance directly"

def toArrayInForeach (s : Site) : Judgement :=
  match s.node.child? "expression" with
  | none => .abstain
  | some expression =>
    .reportIf (materializingCalls.any (Text.occursIn · expression.text)) expression
      materializeInForeachMessage

def switchWithoutDefaultMessage : String :=
  "Missing default case for switch"

def switchWithoutDefault (s : Site) : Judgement :=
  .reportIf (!s.descendants.any (·.kind == .defaultSwitchLabel)) s.node switchWithoutDefaultMessage

end TreeLint.Statements
