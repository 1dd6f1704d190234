import TreeLint.Document.Row

/-!
Which lists of parents are pre-order listings. The check keeps the open path: the previous node and
those around it, the nearest first.
-/

namespace TreeLint

inductive Disorder where
  | rootHasParent
  | secondRoot (index : Nat)
  | closedParent (index parent : Nat)
deriving DecidableEq, Repr

namespace Disorder

def index : Disorder → Nat
  | rootHasParent => 0
  | secondRoot index => index
  | closedParent index _ => index

def message : Disorder → String
  | rootHasParent => "nodes[0] is the root and must not have a parent"
  | secondRoot index =>
    "nodes[" ++ toString index ++ "] has no parent; only nodes[0] may be the root"
  | closedParent index parent =>
    "nodes[" ++ toString index ++ "] names parent " ++ toString parent ++
      ", which is not an ancestor of the preceding node in pre-order"

def complaint : Disorder → String
  | closedParent index parent =>
    if Decimal.isWritable parent then (closedParent index parent).message
    else Decimal.tooManyDigits
  | e => e.message

end Disorder

namespace Document

def checkRest (index : Nat) (openPath : List Nat) : List (Option Nat) → Except Disorder Unit
  | [] => .ok ()
  | none :: _ => .error (.secondRoot index)
  | some parent :: rest =>
    match openPath.dropWhile (· != parent) with
    | [] => .error (.closedParent index parent)
    | path => checkRest (index + 1) (index :: path) rest

def checkParents : List (Option Nat) → Except Disorder Unit
  | [] => .ok ()
  | some _ :: _ => .error .rootHasParent
  | none :: rest => checkRest 1 [0] rest

def checkOrder (rows : List Row) : Except Disorder Unit :=
  checkParents (rows.map Row.parent)

end Document

end TreeLint
