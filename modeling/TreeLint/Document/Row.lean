import TreeLint.Syntax.Kind
import TreeLint.Syntax.Span

namespace TreeLint

structure Row where
  kind : Kind
  parent : Option Nat
  text : Option String
  identifier : Option String
  role : Option String
  span : Option Span
deriving DecidableEq, Repr

structure Document where
  path : String
  rows : List Row
deriving DecidableEq, Repr

end TreeLint
