import TreeLint.Rule.Judgement
import TreeLint.Syntax.Walk

namespace TreeLint

namespace OuterKind

def isAmong (kinds : List Kind) : OuterKind → Except AccessFault Bool
  | known k => .ok (kinds.contains k)
  | stray => .ok false
  | unkeyed typeName => .error (.noKey typeName)

@[simp]
theorem isAmong_known (kinds : List Kind) (k : Kind) :
    (known k).isAmong kinds = .ok (kinds.contains k) := rfl

end OuterKind

namespace Site

def enclosingIs (kinds : List Kind) : Option Enclosing → Except AccessFault Bool
  | none => .ok false
  | some e => e.kind.isAmong kinds

def parentIs (s : Site) (kinds : List Kind) : Except AccessFault Bool :=
  enclosingIs kinds s.above.head?

def grandparentIs (s : Site) (kinds : List Kind) : Except AccessFault Bool :=
  enclosingIs kinds s.above.tail.head?

def hasAncestor (s : Site) (kind : Kind) : Bool :=
  s.above.any (·.kind == .known kind)

end Site

namespace Node

def typeText (n : Node) : Option String :=
  (n.child? "type").map trimmedText

def parameters (n : Node) : List Node :=
  n.childrenOf .parameter

end Node

def lambdaKinds : List Kind :=
  [.simpleLambdaExpression, .parenthesizedLambdaExpression]

def anonymousFunctionKinds : List Kind :=
  lambdaKinds ++ [.anonymousMethodExpression]

end TreeLint
