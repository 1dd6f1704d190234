import TreeLint.Forest.Draft

/-!
Nodes built in process. A node owns its children; which node it stands in is a link that the first
container around it sets, and that is undone when that container is no longer held by anyone.
-/

namespace TreeLint

structure Forest where
  links : Array (Option Draft)

namespace Forest

def empty : Forest :=
  ⟨#[]⟩

def size (f : Forest) : Nat :=
  f.links.size

def parentOf? (f : Forest) (serial : Nat) : Option Draft :=
  f.links[serial]?.join

def parent? (f : Forest) (d : Draft) : Option Draft :=
  d.serial?.bind f.parentOf?

/-- A child without a parent takes the new node for it; others keep the one they have. -/
def adopt (parent : Draft) (links : Array (Option Draft)) : List Draft → Array (Option Draft)
  | [] => links
  | .node serial _ _ _ :: rest => adopt parent (links.modify serial (·.or (some parent))) rest
  | .foreign _ _ :: rest => adopt parent links rest

def construct (f : Forest) (kind : KindTag) (label : Label) (children : List Draft) :
    Draft × Forest :=
  let d := Draft.node f.size kind label children
  (d, ⟨(adopt d f.links children).push none⟩)

def create (f : Forest) (kind : KindTag) (children : List Draft) (text : Option String)
    (identifier role : Option String) (span : Option Span) : Draft × Forest :=
  let text := text.getD (Draft.derivedText children)
  let span := span.getD (Draft.derivedSpan children text)
  f.construct kind ⟨span, text, identifier, role⟩ children

def ancestorsWithin (f : Forest) : Nat → Draft → List Draft
  | 0, _ => []
  | bound + 1, d =>
    match f.parent? d with
    | none => []
    | some p => p :: ancestorsWithin f bound p

/--
The nodes around a node, the nearest first. A parent is built after its children, so the way up is
shorter than the number of nodes.
-/
def ancestors (f : Forest) (d : Draft) : List Draft :=
  f.ancestorsWithin f.size d

def above (f : Forest) (d : Draft) : List Enclosing :=
  (f.ancestors d).filterMap Draft.enclosing?

def reach (seen : List Nat) : List Draft → List Nat
  | [] => seen
  | .foreign _ _ :: rest => reach seen rest
  | .node serial _ _ children :: rest =>
    if seen.contains serial then reach seen rest
    else reach (serial :: seen) (children ++ rest)
termination_by pending => Draft.totalSize pending
decreasing_by all_goals grind [Draft.totalSize, Draft.totalSize_append, Draft.size]

/-- What remains when only the given drafts are held: links to nodes out of their reach are gone. -/
def collect (f : Forest) (held : List Draft) : Forest :=
  let live := reach [] held
  ⟨f.links.map fun link => link.filter fun p => p.serial?.any live.contains⟩

end Forest

end TreeLint
