namespace TreeLint

/-- What ends an analysis without an answer about the unit. -/
inductive Interruption where
  | interrupted
  /-- An error of the named type that nothing on the way catches. -/
  | escaped (errorType : String)
deriving DecidableEq, Repr

def Interruption.unwritable : Interruption :=
  escaped "ValueError"

end TreeLint
