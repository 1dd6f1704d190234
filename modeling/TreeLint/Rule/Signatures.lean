import TreeLint.Rule.Context
import TreeLint.Rule.Judgement
import TreeLint.Text.Search

namespace TreeLint.Signatures

def collectionTypePrefixes : List String :=
  ["Enumerable", "ReadOnlyCollection", "Collection", "ReadOnlyList", "Dictionary", "List"]

def nonSurfaceTypeParents : List Kind :=
  [.objectCreationExpression, .typeOfExpression]

def liskovMessage : String :=
  "This member publicly exposes a concrete collection type"

def genericTypeName (n : Node) : Except AccessFault String :=
  match n.identifier.filter (· ≠ "") with
  | some name => .ok name
  | none => do
    let head ← firstOf (Text.pieces '<' n.text.toList)
    return Text.trim (String.ofList head)

def typeName (n : Node) : Except AccessFault (Option String) :=
  match n.kind with
  | .predefinedType => .ok (some n.trimmedText)
  | .parameter => .ok n.typeText
  | .genericName => (genericTypeName n).map some
  | _ => .ok none

def namesCollection (lastSegment : String) : Bool :=
  collectionTypePrefixes.any (Text.startsWith · lastSegment)

def liskovSubstitution (s : Site) : Judgement := do
  if ← s.parentIs nonSurfaceTypeParents then return none
  match (← typeName s.node).filter (· ≠ "") with
  | none => return none
  | some name =>
    let segment ← lastOf (Text.pieces '.' name.toList)
    Judgement.reportIf (namesCollection (String.ofList segment)) s.node liskovMessage

def maxParametersThreshold : Nat :=
  5

def tooManyParametersMessage : String :=
  "This method receives too many parameters (>= 5)"

def tooManyParameters (s : Site) : Judgement := do
  if ← s.parentIs anonymousFunctionKinds then return none
  Judgement.reportIf (maxParametersThreshold ≤ s.node.parameters.length) s.node
    tooManyParametersMessage

def booleanTypeNames : List String :=
  ["Boolean", "bool"]

def boolParameterMessage : String :=
  "This method receives a bool argument. This is prone to be against SRP from SOLID"

def boolParameter (s : Site) : Judgement := do
  if ← s.parentIs anonymousFunctionKinds then return none
  Judgement.reportIf (s.node.parameters.any fun p => p.typeText.any booleanTypeNames.contains)
    s.node boolParameterMessage

end TreeLint.Signatures
