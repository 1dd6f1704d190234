import TreeLint.Syntax.Walk

namespace TreeLint

structure Tree where
  root : Node
  path : String
  nodeCount : Nat

namespace Tree

def site (t : Tree) (outside : List Enclosing) : Site :=
  ⟨t.root, outside⟩

def walk (t : Tree) : List Site :=
  (t.site []).walk

def describe (t : Tree) : String :=
  "SyntaxTree(" ++ Text.quoted t.path ++ ", nodes=" ++ toString t.nodeCount ++ ")"

end Tree

end TreeLint
