import TreeLint.Rule.Catalogue

namespace TreeLint

structure Recast where
  serial : Nat → Nat
  span : Span → Span

namespace Node

mutual

def recast (c : Recast) : Node → Node
  | mk serial kind label children =>
    mk (c.serial serial) kind { label with span := c.span label.span } (recastAll c children)

def recastAll (c : Recast) : List Node → List Node
  | [] => []
  | n :: rest => n.recast c :: recastAll c rest

end

theorem recastAll_eq_map (c : Recast) (ns : List Node) : recastAll c ns = ns.map (recast c) := by
  induction ns with
  | nil => rfl
  | cons n rest ih => rw [recastAll, ih, List.map_cons]

variable (c : Recast) (n : Node)

@[simp]
theorem kind_recast : (n.recast c).kind = n.kind := by
  cases n
  rfl

@[simp]
theorem span_recast : (n.recast c).span = c.span n.span := by
  cases n
  rfl

@[simp]
theorem children_recast : (n.recast c).children = n.children.map (recast c) := by
  cases n
  exact recastAll_eq_map c _

@[simp]
theorem text_recast : (n.recast c).text = n.text := by
  cases n
  rfl

@[simp]
theorem identifier_recast : (n.recast c).identifier = n.identifier := by
  cases n
  rfl

@[simp]
theorem role_recast : (n.recast c).role = n.role := by
  cases n
  rfl

@[simp]
theorem name_recast : (n.recast c).name = n.name := by
  cases n
  rfl

@[simp]
theorem trimmedText_recast : (n.recast c).trimmedText = n.trimmedText := by
  simp [trimmedText]

@[simp]
theorem child?_recast (role : String) :
    (n.recast c).child? role = (n.child? role).map (recast c) := by
  have hrole : (fun m : Node => m.role == some role) ∘ recast c = (·.role == some role) := by
    funext m
    simp
  rw [child?, children_recast, List.find?_map, hrole, child?]

@[simp]
theorem childrenOf_recast (kind : Kind) :
    (n.recast c).childrenOf kind = (n.childrenOf kind).map (recast c) := by
  simp [childrenOf, List.filter_map, Function.comp_def]

@[simp]
theorem typeText_recast : (n.recast c).typeText = n.typeText := by
  simp [typeText, Function.comp_def]

@[simp]
theorem parameters_recast : (n.recast c).parameters = n.parameters.map (recast c) := by
  simp [parameters]

end Node

def Enclosing.recast (c : Recast) (e : Enclosing) : Enclosing :=
  { e with serial := c.serial e.serial }

namespace Site

def recast (c : Recast) (s : Site) : Site :=
  ⟨s.node.recast c, s.above.map (Enclosing.recast c)⟩

variable (c : Recast) (s : Site)

@[simp]
theorem node_recast : (s.recast c).node = s.node.recast c := rfl

@[simp]
theorem kind_recast : (s.recast c).kind = s.kind := by
  simp [kind]

theorem enclosingIs_recast (kinds : List Kind) (e : Option Enclosing) :
    enclosingIs kinds (e.map (Enclosing.recast c)) = enclosingIs kinds e := by
  cases e <;> rfl

@[simp]
theorem parentIs_recast (kinds : List Kind) : (s.recast c).parentIs kinds = s.parentIs kinds := by
  simp [parentIs, recast, enclosingIs_recast]

@[simp]
theorem grandparentIs_recast (kinds : List Kind) :
    (s.recast c).grandparentIs kinds = s.grandparentIs kinds := by
  simp [grandparentIs, recast, ← List.map_tail, enclosingIs_recast]

@[simp]
theorem hasAncestor_recast (kind : Kind) : (s.recast c).hasAncestor kind = s.hasAncestor kind := by
  simp [hasAncestor, recast, Function.comp_def, Enclosing.recast]

mutual

theorem map_recast_preorderOf (above : List Enclosing) (n : Node) :
    (preorderOf above n).map (recast c) =
      preorderOf (above.map (Enclosing.recast c)) (n.recast c) := by
  match n with
  | .mk serial kind label children =>
    rw [preorderOf, List.map_cons, map_recast_preordersOf]
    rfl

theorem map_recast_preordersOf (above : List Enclosing) (ns : List Node) :
    (preordersOf above ns).map (recast c) =
      preordersOf (above.map (Enclosing.recast c)) (Node.recastAll c ns) := by
  match ns with
  | [] => rfl
  | n :: rest =>
    rw [preordersOf, List.map_append, map_recast_preorderOf above n,
      map_recast_preordersOf above rest]
    rfl

end

theorem preorder_recast : (s.recast c).preorder = s.preorder.map (recast c) :=
  (map_recast_preorderOf c s.above s.node).symm

@[simp]
theorem descendants_recast : (s.recast c).descendants = s.descendants.map (recast c) := by
  rw [descendants, descendants, walk_eq_preorder, walk_eq_preorder, preorder_recast, List.map_tail]

end Site

def Finding.recast (c : Recast) (f : Finding) : Finding :=
  { f with location := c.span f.location }

namespace Judgement

def recast (c : Recast) (j : Judgement) : Judgement :=
  Option.map (Finding.recast c) <$> j

variable (c : Recast)

@[simp]
theorem recast_abstain : recast c (pure none) = pure none := rfl

@[simp]
theorem recast_reportIf (fires : Bool) (n : Node) (message : String) :
    recast c (reportIf fires n message) = reportIf fires (n.recast c) message := by
  cases fires
  · rfl
  · simp [recast, reportIf, Finding.at, Finding.recast, Functor.map, Except.map]

@[simp]
theorem recast_report (n : Node) (message : String) :
    recast c (report n message) = report (n.recast c) message :=
  recast_reportIf c true n message

@[simp]
theorem recast_bind {α : Type} (x : Except AccessFault α) (f : α → Judgement) :
    recast c (x >>= f) = x >>= fun a => recast c (f a) :=
  map_bind _ x f

@[simp]
theorem recast_ite (p : Prop) [Decidable p] (j k : Judgement) :
    recast c (if p then j else k) = if p then recast c j else recast c k :=
  apply_ite (recast c) p j k

end Judgement

theorem firstOf_map {α β : Type} (f : α → β) (as : List α) :
    firstOf (as.map f) = f <$> firstOf as := by
  cases as <;> rfl

variable (c : Recast) (s : Site)

namespace Declarations

theorem encapsulateField_recast :
    encapsulateField (s.recast c) = (encapsulateField s).recast c := by
  simp [encapsulateField, Function.comp_def, firstOf_map]

theorem initializerValue_recast (member : Node) :
    initializerValue (member.recast c) =
      Option.map (Node.recast c) <$> initializerValue member := by
  rw [initializerValue, initializerValue, Node.childrenOf_recast]
  cases member.childrenOf .equalsValueClause with
  | nil => rfl
  | cons clause rest =>
    simp only [List.map_cons, Node.child?_recast]
    cases clause.child? "value" with
    | some value => rfl
    | none =>
      rw [Node.children_recast]
      cases clause.children <;> rfl

theorem allNonzero_recast (members : List Node) :
    allNonzero (members.map (Node.recast c)) = allNonzero members := by
  induction members with
  | nil => rfl
  | cons member rest ih =>
    rw [List.map_cons, allNonzero, allNonzero, initializerValue_recast, ih, bind_map_left]
    congr
    funext value
    cases value <;> simp

theorem enumDefaultValue_recast :
    enumDefaultValue (s.recast c) = (enumDefaultValue s).recast c := by
  simp [enumDefaultValue, allNonzero_recast]

theorem preferClassOverStruct_recast :
    preferClassOverStruct (s.recast c) = (preferClassOverStruct s).recast c := by
  simp [preferClassOverStruct]

end Declarations

namespace Names

theorem contextualKeyword_recast :
    contextualKeyword (s.recast c) = (contextualKeyword s).recast c := by
  simp [contextualKeyword]

theorem classesAreNouns_recast :
    classesAreNouns (s.recast c) = (classesAreNouns s).recast c := by
  rw [classesAreNouns, classesAreNouns, Site.node_recast, Node.identifier_recast]
  cases s.node.identifier with
  | none => rfl
  | some name => simp

end Names

namespace Statements

theorem blankCode_recast : blankCode (s.recast c) = (blankCode s).recast c := by
  have habove : ((s.recast c).above.head?.bind fun e => e.kind.kind?) =
      s.above.head?.bind fun e => e.kind.kind? := by
    rw [Site.recast, List.head?_map, Option.bind_map]
    rfl
  simp [blankCode, habove]

theorem toArrayInForeach_recast :
    toArrayInForeach (s.recast c) = (toArrayInForeach s).recast c := by
  rw [toArrayInForeach, toArrayInForeach, Site.node_recast, Node.child?_recast]
  cases s.node.child? "expression" with
  | none => rfl
  | some expression => simp

theorem switchWithoutDefault_recast :
    switchWithoutDefault (s.recast c) = (switchWithoutDefault s).recast c := by
  simp [switchWithoutDefault, Function.comp_def]

end Statements

namespace Signatures

theorem typeName_recast (n : Node) : typeName (n.recast c) = typeName n := by
  simp [typeName, genericTypeName]

theorem liskovSubstitution_recast :
    liskovSubstitution (s.recast c) = (liskovSubstitution s).recast c := by
  simp only [liskovSubstitution, Site.parentIs_recast, Site.node_recast, typeName_recast,
    Judgement.recast_bind, Judgement.recast_ite, Judgement.recast_abstain]
  congr
  funext among
  congr
  funext name
  cases name.filter (· ≠ "") with
  | none => rfl
  | some name => simp

theorem tooManyParameters_recast :
    tooManyParameters (s.recast c) = (tooManyParameters s).recast c := by
  simp [tooManyParameters]

theorem boolParameter_recast : boolParameter (s.recast c) = (boolParameter s).recast c := by
  simp [boolParameter, Function.comp_def]

end Signatures

namespace Throws

theorem genericExceptionType_recast :
    genericExceptionType (s.recast c) = (genericExceptionType s).recast c := by
  simp [genericExceptionType]

theorem exceptionWithoutContext_recast :
    exceptionWithoutContext (s.recast c) = (exceptionWithoutContext s).recast c := by
  simp [exceptionWithoutContext, firstOf_map]

end Throws

def Verdict.recast (c : Recast) : Verdict → Verdict
  | report f => report (f.recast c)
  | v => v

theorem Judgement.verdict_recast (j : Judgement) : (j.recast c).verdict = j.verdict.recast c := by
  match j with
  | .ok none => rfl
  | .ok (some f) => rfl
  | .error fault => rfl

namespace Rule

def Follows (r : Rule) : Prop :=
  ∀ (c : Recast) (t t' : Tree) (s : Site), r.evaluate t (s.recast c) = (r.evaluate t' s).recast c

theorem follows_builtin {judge : Site → Judgement}
    (h : ∀ (c : Recast) (s : Site), judge (s.recast c) = (judge s).recast c)
    {definition : Nat} {id name : String} {kinds : List Kind} {about : String} :
    (builtin definition id name kinds about judge).Follows := by
  intro c _ _ s
  change (judge (s.recast c)).verdict = _
  rw [h, Judgement.verdict_recast]
  rfl

theorem follows_of_mem_catalogue : ∀ r ∈ catalogue, r.Follows := by
  simp only [catalogue, List.forall_mem_cons]
  exact ⟨follows_builtin Declarations.encapsulateField_recast,
    follows_builtin Names.contextualKeyword_recast,
    follows_builtin Names.classesAreNouns_recast,
    follows_builtin Statements.blankCode_recast,
    follows_builtin Signatures.liskovSubstitution_recast,
    follows_builtin Statements.toArrayInForeach_recast,
    follows_builtin Statements.switchWithoutDefault_recast,
    follows_builtin Throws.genericExceptionType_recast,
    follows_builtin Throws.exceptionWithoutContext_recast,
    follows_builtin Declarations.enumDefaultValue_recast,
    follows_builtin Signatures.tooManyParameters_recast,
    follows_builtin Signatures.boolParameter_recast,
    follows_builtin Declarations.preferClassOverStruct_recast, by simp⟩

end Rule

end TreeLint
