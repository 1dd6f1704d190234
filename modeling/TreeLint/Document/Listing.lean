import TreeLint.Data.Check
import TreeLint.Document.Order
import TreeLint.Syntax.Tree

namespace TreeLint

open Checked

namespace Document

def spanFlaws (s : Span) : List Detail :=
  let below (key : String) (bound n : Int) : List Detail :=
    if n < bound then [⟨[.name key], .below bound⟩] else []
  below "start" 0 s.start ++ below "end" 0 s.stop ++ below "line" 1 s.line ++
    below "column" 0 s.column

/--
The rows of nodes as they are visited, the first one at position `index`. The serial numbers of
those before are kept with their positions; among them is the node around each one.
-/
def listSites (visited : List (Nat × Nat)) (index : Nat) : List Site → List Row
  | [] => []
  | s :: rest =>
    ⟨s.kind, s.above.head?.bind fun e => visited.lookup e.serial, some s.node.text,
      s.node.identifier, s.node.role, some s.node.span⟩ ::
      listSites ((s.node.serial, index) :: visited) (index + 1) rest

def listTree (t : Tree) : List Row :=
  listSites [] 0 t.walk

def ofTree (t : Tree) : Checked Document :=
  let rows := listTree t
  match (rows.filterMap Row.span |>.find? fun s => !(spanFlaws s).isEmpty) with
  | some span => .error (spanFlaws span)
  | none =>
    match checkOrder rows with
    | .ok _ => .ok ⟨t.path, rows⟩
    | .error disorder => flawAt [] (.broken disorder.complaint)

end Document

end TreeLint
