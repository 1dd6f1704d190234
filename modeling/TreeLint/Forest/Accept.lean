import TreeLint.Forest.Basic
import TreeLint.Syntax.Tree

/-!
Which drafts are trees. The check walks a stack, the last child first, so the fault it names is the
first one on that way.
-/

namespace TreeLint

inductive Malformed where
  | rootNotNode (v : Value)
  | rootHasParent
  | repeated (d : Draft)
  | unknownKind (v : Value)
  | invertedSpan (d : Draft)
  | foreignChild (container : Draft) (v : Value)
  | foreignLink (child container : Draft)

namespace Malformed

def message? : Malformed → Option String
  | rootNotNode v => some ("Tree root must be a SyntaxNode, got " ++ v.typeName)
  | rootHasParent => some "Tree root must not have a parent"
  | repeated d => do return "Node " ++ (← d.describe?) ++ " appears more than once in the tree"
  | unknownKind v => do return "Unknown node kind " ++ (← v.literal?)
  | invertedSpan d => do return "Node " ++ (← d.describe?) ++ " has an inverted span"
  | foreignChild container v => do
    return "Child of " ++ (← container.describe?) ++ " is not a SyntaxNode: " ++ (← v.literal?)
  | foreignLink child container => do
    return "Parent link of " ++ (← child.describe?) ++ " does not point at " ++
      (← container.describe?)

end Malformed

namespace Forest

def checkChildren (f : Forest) (container : Draft) : List Draft → Except Malformed Unit
  | [] => .ok ()
  | .foreign _ v :: _ => .error (.foreignChild container v)
  | child :: rest =>
    if (f.parent? child).any container.isSame then f.checkChildren container rest
    else .error (.foreignLink child container)

def inspect (f : Forest) (seen : List Nat) : List Draft → Except Malformed (List Nat)
  | [] => .ok seen
  | .foreign _ v :: _ => .error (.rootNotNode v)
  | .node serial kind label children :: rest =>
    let d := Draft.node serial kind label children
    if seen.contains serial then .error (.repeated d)
    else match kind with
      | .raw v => .error (.unknownKind v)
      | .known _ =>
        if label.span.stop < label.span.start then .error (.invertedSpan d)
        else match f.checkChildren d children with
          | .error fault => .error fault
          | .ok _ => f.inspect (serial :: seen) (children.reverse ++ rest)
termination_by stack => Draft.totalSize stack
decreasing_by
  simp [Draft.totalSize, Draft.totalSize_append, Draft.totalSize_reverse, Draft.size]

end Forest

namespace Draft

mutual

def settle : Draft → Except Malformed Node
  | node serial (.known kind) label children => (settleAll children).map (.mk serial kind label)
  | node _ (.raw v) _ _ => .error (.unknownKind v)
  | foreign _ v => .error (.rootNotNode v)

def settleAll : List Draft → Except Malformed (List Node)
  | [] => .ok []
  | d :: rest =>
    match d.settle, settleAll rest with
    | .ok n, .ok ns => .ok (n :: ns)
    | .error fault, _ => .error fault
    | _, .error fault => .error fault

end

end Draft

def Forest.accept (f : Forest) (root : Draft) (path : String) : Except Malformed Tree := do
  if (f.parent? root).isSome then throw .rootHasParent
  let seen ← f.inspect [] [root]
  let node ← root.settle
  return ⟨node, path, seen.length⟩

end TreeLint
