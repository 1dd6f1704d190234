import TreeLint.Data.Value
import TreeLint.Syntax.Walk
import TreeLint.Text.Phrase

namespace TreeLint

inductive KindTag where
  | known (k : Kind)
  | raw (v : Value)

namespace KindTag

def ofValue : Value → KindTag
  | .text s => match Kind.ofName? s with
    | some k => known k
    | none => raw (.text s)
  | v => raw v

def display? : KindTag → Option String
  | known k => some k.name
  | raw v => v.display?

def value : KindTag → Value
  | known k => .text k.name
  | raw v => v

def kind? : KindTag → Option Kind
  | known k => some k
  | raw (.text s) => Kind.ofName? s
  | raw _ => none

def same (s t : KindTag) : Bool :=
  s.value.same t.value

def isAmong (s : KindTag) (tags : List KindTag) : Bool :=
  tags.any s.same

def outer (t : KindTag) : OuterKind :=
  match t.kind? with
  | some k => .known k
  | none => if t.value.isKey then .stray else .unkeyed t.value.typeName

end KindTag

/--
A node as it was built, or a value that stands where a node should. Drafts with one serial number
are one node, and those with one mark are one value, wherever they occur.
-/
inductive Draft where
  | node (serial : Nat) (kind : KindTag) (label : Label) (children : List Draft)
  | foreign (mark : Nat) (v : Value)

namespace Draft

def typeName : String :=
  "SyntaxNode"

def serial? : Draft → Option Nat
  | node serial _ _ _ => some serial
  | foreign _ _ => none

def isNode (d : Draft) : Bool :=
  d.serial?.isSome

def children : Draft → List Draft
  | node _ _ _ children => children
  | foreign _ _ => []

def isSame : Draft → Draft → Bool
  | node serial _ _ _, node other _ _ _ => serial == other
  | foreign mark v, foreign other w => mark == other || v.coincides w
  | _, _ => false

def describe? : Draft → Option String
  | node _ kind label _ => do label.describe? (← kind.display?)
  | foreign _ v => v.literal?

def label? : Draft → Option Label
  | node _ _ label _ => some label
  | foreign _ _ => none

def enclosing? : Draft → Option Enclosing
  | node serial kind _ _ => some ⟨serial, kind.outer⟩
  | foreign _ _ => none

mutual

def preorder? : Draft → Option (List Draft)
  | node serial kind label children =>
    (preorders? children).map (node serial kind label children :: ·)
  | foreign _ _ => none

def preorders? : List Draft → Option (List Draft)
  | [] => some []
  | d :: rest =>
    match d.preorder?, preorders? rest with
    | some front, some back => some (front ++ back)
    | _, _ => none

end

def child? (role : Option String) : List Draft → Option (Option Draft)
  | [] => some none
  | d :: rest =>
    match d.label? with
    | none => none
    | some label => if label.role == role then some (some d) else child? role rest

def isKind (tags : List KindTag) : Draft → Option Bool
  | node _ kind _ _ => some (kind.isAmong tags)
  | foreign _ _ => none

def childrenOf? (tags : List KindTag) (d : Draft) : Option (List Draft) :=
  if d.children.all isNode then some (d.children.filter (·.isKind tags == some true)) else none

def derivedText (children : List Draft) : String :=
  Text.phrase ((children.filterMap label?).map Label.text)

def derivedSpan (children : List Draft) (text : String) : Span :=
  match children.head?.bind label?, children.getLast?.bind label? with
  | some a, some b => ⟨a.span.start, b.span.stop, a.span.line, a.span.column⟩
  | _, _ => .ofRange 0 text.length

mutual

def size : Draft → Nat
  | node _ _ _ children => totalSize children + 1
  | foreign _ _ => 1

def totalSize : List Draft → Nat
  | [] => 0
  | d :: rest => d.size + totalSize rest

end

theorem size_eq (d : Draft) : d.size = totalSize d.children + 1 := by
  cases d <;> rfl

theorem totalSize_append (xs ys : List Draft) :
    totalSize (xs ++ ys) = totalSize xs + totalSize ys := by
  induction xs with
  | nil => simp [totalSize]
  | cons d rest ih => simp [totalSize, ih, Nat.add_assoc]

theorem totalSize_reverse (xs : List Draft) : totalSize xs.reverse = totalSize xs := by
  induction xs with
  | nil => rfl
  | cons d rest ih => simp [totalSize_append, totalSize, ih, Nat.add_comm]

end Draft

end TreeLint
