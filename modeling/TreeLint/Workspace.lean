import TreeLint.Analysis.Basic
import TreeLint.Document.Listing
import TreeLint.Document.Writing

namespace TreeLint

inductive Held where
  | node (d : Draft)
  | tree (root : Draft) (t : Tree)

def Held.draft : Held → Draft
  | node d => d
  | tree root _ => root

structure Workspace where
  forest : Forest
  held : List (String × Held)
  nextMark : Nat

inductive Operand where
  | name (s : String)
  | value (v : Value)

inductive Denial where
  | unknownName (name : String)
  | notANode
  | noSuchChild
  | notAPosition
  | rejected (r : Rejection)
  | ended (i : Interruption)
  | invalid (details : List Detail)

def Denial.ofStop : Stop → Denial
  | .rejected r => rejected r
  | .ended i => ended i

namespace Workspace

def empty : Workspace :=
  ⟨.empty, [], 0⟩

def names (w : Workspace) : List String :=
  (w.held.map (·.1)).mergeSort (· ≤ ·)

def get (w : Workspace) (name : String) : Except Denial Held :=
  match w.held.lookup name with
  | some h => .ok h
  | none => .error (.unknownName name)

def getDraft (w : Workspace) (name : String) : Except Denial Draft :=
  (w.get name).map Held.draft

def requireNode (d : Draft) : Except Denial Draft :=
  if d.isNode then .ok d else .error .notANode

def getNode (w : Workspace) (name : String) : Except Denial Draft := do
  requireNode (← w.getDraft name)

/-- What an operand stands for; a value that is handed in is like no other one. -/
def resolve (w : Workspace) : Operand → Except Denial (Draft × Workspace)
  | .name s => (w.getDraft s).map (·, w)
  | .value v => .ok (.foreign w.nextMark v, { w with nextMark := w.nextMark + 1 })

def resolveAll (w : Workspace) : List Operand → Except Denial (List Draft × Workspace)
  | [] => .ok ([], w)
  | o :: rest => do
    let (d, w) ← w.resolve o
    let (ds, w) ← w.resolveAll rest
    return (d :: ds, w)

def getTree (w : Workspace) (name : String) : Except Denial (Draft × Tree) := do
  match ← w.get name with
  | .tree root t => return (root, t)
  | .node _ => throw .notANode

def settle (w : Workspace) : Workspace :=
  { w with forest := w.forest.collect (w.held.map (·.2.draft)) }

def hold (w : Workspace) (name : String) (h : Held) : Workspace :=
  { w with held := (name, h) :: w.held.filter (·.1 != name) }.settle

def drop (w : Workspace) (name : String) : Except Denial Workspace := do
  let _ ← w.get name
  return { w with held := w.held.filter (·.1 != name) }.settle

def nameOf (w : Workspace) (d : Draft) : Option String :=
  ((w.held.filter fun e => match e.2 with
    | .node held => held.isSame d
    | .tree _ _ => false).map (·.1)).mergeSort (· ≤ ·) |>.head?

structure Parts where
  kind : KindTag
  children : List Draft
  text : Option String
  identifier : Option String
  role : Option String
  span : Option Span

namespace Parts

def asksValue (p : Parts) : Bool :=
  (p.text.isNone && !p.children.all Draft.isNode) ||
    (p.span.isNone && !(p.children.head?.all Draft.isNode && p.children.getLast?.all Draft.isNode))

end Parts

def create (w : Workspace) (name : String) (p : Parts) : Except Denial (Draft × Workspace) :=
  if p.asksValue then .error .notANode
  else
    let (d, forest) := w.forest.create p.kind p.children p.text p.identifier p.role p.span
    .ok (d, { w with forest }.hold name (.node d))

def construct (w : Workspace) (name : String) (kind : KindTag) (label : Label)
    (children : List Draft) : Draft × Workspace :=
  let (d, forest) := w.forest.construct kind label children
  (d, { w with forest }.hold name (.node d))

def plantTree (w : Workspace) (name : String) (root : Draft) (path : String) :
    Except Denial (Tree × Workspace) :=
  match w.forest.accept root path with
  | .ok t => .ok (t, w.hold name (.tree root t))
  | .error fault => .error (.ofStop (.ofMalformed path fault))

def load (w : Workspace) (name : String) (s : Source) : Except Denial (Tree × Workspace) :=
  match s.document with
  | .error stop => .error (.ofStop stop)
  | .ok d =>
    let p := d.plant w.forest
    { w with forest := p.forest }.plantTree name p.root d.path

def childAt (d : Draft) (position : Int) : Except Denial Draft :=
  let children := d.children
  let found :=
    if 0 ≤ position then children[position.toNat]?
    else if position.natAbs ≤ children.length then children[children.length - position.natAbs]?
    else none
  match found with
  | some child => .ok child
  | none => .error .noSuchChild

def descend (d : Draft) : List Value → Except Denial Draft
  | [] => .ok d
  | v :: rest => do
    let d ← requireNode d
    let some position := v.position? | throw .notAPosition
    descend (← childAt d position) rest

def walk (d : Draft) : Except Denial (List Draft) :=
  match d.preorder? with
  | some ds => .ok ds
  | none => .error .notANode

def child (d : Draft) (role : Option String) : Except Denial (Option Draft) :=
  match Draft.child? role d.children with
  | some found => .ok found
  | none => .error .notANode

def childrenOf (d : Draft) (tags : List KindTag) : Except Denial (List Draft) :=
  match d.childrenOf? tags with
  | some ds => .ok ds
  | none => .error .notANode

def nodesOf (w : Workspace) (name : String) (tags : List KindTag) :
    Except Denial (List Draft) := do
  let (root, _) ← w.getTree name
  return (← walk root).filter (·.isKind tags == some true)

def flatten (w : Workspace) (name : String) : Except Denial Document := do
  let (_, t) ← w.getTree name
  match Document.ofTree t with
  | .ok d => return d
  | .error details => throw (.invalid details)

def reload (w : Workspace) (source target : String) : Except Denial (Tree × Workspace) := do
  let d ← w.flatten source
  w.load target (.text d.toText)

def isKind (w : Workspace) (name : String) (tags : List KindTag) : Except Denial Bool := do
  match (← w.getDraft name).isKind tags with
  | some answer => return answer
  | none => throw .notANode

def input (w : Workspace) (name : String) : Except Denial Input := do
  match ← w.get name with
  | .tree root t => return .tree t (w.forest.above root)
  | .node (.foreign _ v) => return .source (.ofValue v)
  | .node (.node _ _ _ _) => return .other Draft.typeName

end Workspace

end TreeLint
