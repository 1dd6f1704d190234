import TreeLint.Rule.Context
import TreeLint.Rule.Judgement

namespace TreeLint.Throws

def reservedExceptionTypes : List String := [
  "ApplicationException", "Exception", "ExecutionEngineException", "IndexOutOfRangeException",
  "NullReferenceException", "OutOfMemoryException", "SystemException"]

def genericExceptionMessage : String :=
  "A method raises an exception type that is too general or that is reserved by the runtime. " ++
    "Use specific or Aggregation Exception"

def genericExceptionType (s : Site) : Judgement := do
  if !reservedExceptionTypes.contains s.node.name then return none
  if !(← s.parentIs [.objectCreationExpression]) then return none
  Judgement.reportIf (← s.grandparentIs [.throwStatement]) s.node genericExceptionMessage

def exceptionWithoutContextMessage : String :=
  "This exception message does not provide context description."

def exceptionWithoutContext (s : Site) : Judgement := do
  if !(← s.parentIs [.throwStatement]) then return none
  let lists := s.node.childrenOf .argumentList
  if lists.isEmpty then return none
  let arguments := (← firstOf lists).childrenOf .argument
  Judgement.reportIf arguments.isEmpty s.node exceptionWithoutContextMessage

end TreeLint.Throws
