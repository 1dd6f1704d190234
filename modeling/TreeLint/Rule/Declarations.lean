import TreeLint.Rule.Context
import TreeLint.Rule.Judgement

namespace TreeLint.Declarations

def exposingModifiers : List String :=
  ["protected", "public"]

def restrictingFieldModifiers : List String :=
  ["const", "internal", "private", "static"]

def encapsulateFieldMessage : String :=
  "This code exposes a field as public or protected. Encapsulate this field into a property"

def encapsulateField (s : Site) : Judgement := do
  let modifiers := (s.node.childrenOf .modifier).map Node.trimmedText
  if !modifiers.any exposingModifiers.contains || modifiers.any restrictingFieldModifiers.contains
  then return none
  let declarations := s.node.childrenOf .variableDeclaration
  if declarations.isEmpty then return none
  let declarators := (← firstOf declarations).childrenOf .variableDeclarator
  Judgement.reportIf (declarators.length == 1) s.node encapsulateFieldMessage

def zeroLiteral : String :=
  "0"

def enumDefaultValueMessage : String :=
  "This enumeration does not contain a value for 0 (zero)."

def initializerValue (member : Node) : Except AccessFault (Option Node) :=
  match member.childrenOf .equalsValueClause with
  | [] => .ok none
  | clause :: _ =>
    match clause.child? "value" with
    | some value => .ok (some value)
    | none => if clause.children.isEmpty then .ok none else (firstOf clause.children).map some

def allNonzero : List Node → Except AccessFault Bool
  | [] => .ok true
  | member :: rest => do
    match ← initializerValue member with
    | none => return false
    | some value => if value.trimmedText == zeroLiteral then return false else allNonzero rest

def enumDefaultValue (s : Site) : Judgement := do
  let fires ← allNonzero (s.node.childrenOf .enumMemberDeclaration)
  Judgement.reportIf fires s.node enumDefaultValueMessage

def preferClassMessage : String :=
  "This code defines a `struct` that should be a `class`"

def preferClassOverStruct (s : Site) : Judgement :=
  .report s.node preferClassMessage

end TreeLint.Declarations
