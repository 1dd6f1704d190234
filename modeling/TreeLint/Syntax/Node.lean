import TreeLint.Syntax.Kind
import TreeLint.Syntax.Span
import TreeLint.Text.Blank
import TreeLint.Text.Quoted

namespace TreeLint

structure Label where
  span : Span
  text : String
  identifier : Option String
  role : Option String
deriving DecidableEq, Repr

namespace Label

def name (l : Label) : String :=
  l.identifier.getD (Text.trim l.text)

def excerpt (l : Label) : String :=
  if l.text.length ≤ 40 then l.text else String.ofList (l.text.toList.take 37) ++ "..."

def describe? (kind : String) (l : Label) : Option String := do
  return "SyntaxNode(" ++ kind ++ ", " ++ (← l.span.text?) ++ ", " ++ Text.quoted l.excerpt ++ ")"

end Label

/-- A node of a well-formed tree; no two nodes of one tree share their serial number. -/
inductive Node where
  | mk (serial : Nat) (kind : Kind) (label : Label) (children : List Node)

namespace Node

def serial : Node → Nat
  | mk serial _ _ _ => serial

def kind : Node → Kind
  | mk _ kind _ _ => kind

def label : Node → Label
  | mk _ _ label _ => label

def children : Node → List Node
  | mk _ _ _ children => children

def span (n : Node) : Span :=
  n.label.span

def text (n : Node) : String :=
  n.label.text

def trimmedText (n : Node) : String :=
  Text.trim n.text

def identifier (n : Node) : Option String :=
  n.label.identifier

def role (n : Node) : Option String :=
  n.label.role

def name (n : Node) : String :=
  n.label.name

def describe? (n : Node) : Option String :=
  n.label.describe? n.kind.name

def isKind (n : Node) (kinds : List Kind) : Bool :=
  kinds.contains n.kind

def child? (n : Node) (role : String) : Option Node :=
  n.children.find? (·.role == some role)

def childrenOf (n : Node) (kind : Kind) : List Node :=
  n.children.filter (·.kind == kind)

mutual

def size : Node → Nat
  | mk _ _ _ children => totalSize children + 1

def totalSize : List Node → Nat
  | [] => 0
  | n :: rest => n.size + totalSize rest

end

theorem size_eq (n : Node) : n.size = totalSize n.children + 1 := by
  cases n
  rfl

theorem totalSize_append (xs ys : List Node) :
    totalSize (xs ++ ys) = totalSize xs + totalSize ys := by
  induction xs with
  | nil => simp [totalSize]
  | cons n rest ih => simp [totalSize, ih, Nat.add_assoc]

end Node

end TreeLint
