import TreeLint.Forest.Draft
import TreeLint.Rule.Catalogue

/-!
The rules that listen to each kind. A call that is refused may have touched the table before; what
it leaves there has no rule in it and is seen nowhere.
-/

namespace TreeLint

inductive Refusal where
  | unknownKind (id : String) (v : Value)
  | undeclaredKind (id : String) (kind : Kind)
  | otherRule (id : String)
  | twiceForKind (id : String) (kind : Kind)
  | noKinds (id : String)
  | twice (id : String)
  | unknownKinds (id : String) (strays : List Value)

namespace Refusal

def message? : Refusal → Option String
  | unknownKind id v => do return "Rule " ++ id ++ " registered for unknown kind " ++ (← v.literal?)
  | undeclaredKind id kind => some ("Rule " ++ id ++ " does not declare interest in " ++ kind.name)
  | otherRule id => some ("Another rule is already registered as " ++ id)
  | twiceForKind id kind => some ("Rule " ++ id ++ " is already registered for " ++ kind.name)
  | noKinds id => some ("Rule " ++ id ++ " declares no node kinds")
  | twice id => some ("Rule " ++ id ++ " is already registered")
  | unknownKinds id strays => do
    return "Rule " ++ id ++ " declares unknown kinds " ++ (← (Value.list strays).literal?)

end Refusal

structure Registry where
  table : List (Kind × List Rule)
  rules : List Rule

namespace Registry

def empty : Registry :=
  ⟨[], []⟩

def rulesFor (r : Registry) (kind : Kind) : List Rule :=
  (r.table.lookup kind).getD []

def get? (r : Registry) (id : String) : Option Rule :=
  r.rules.find? (·.id == id)

def contains (r : Registry) (id : String) : Bool :=
  (r.get? id).isSome

def size (r : Registry) : Nat :=
  r.rules.length

def kinds (r : Registry) : KindSet :=
  ⟨fun kind => !(r.rulesFor kind).isEmpty⟩

def change (kind : Kind) (f : List Rule → List Rule) :
    List (Kind × List Rule) → List (Kind × List Rule)
  | [] => [(kind, f [])]
  | (k, rules) :: rest =>
    if k = kind then (k, f rules) :: rest else (k, rules) :: change kind f rest

theorem lookup_change (k kind : Kind) (f : List Rule → List Rule)
    (table : List (Kind × List Rule)) :
    ((change kind f table).lookup k).getD [] =
      if k = kind then f ((table.lookup k).getD []) else (table.lookup k).getD [] := by
  induction table with
  | nil =>
    by_cases h : k = kind
    · simp [change, h]
    · simp [change, List.lookup_cons, beq_false_of_ne h, h]
  | cons e rest ih =>
    obtain ⟨l, rules⟩ := e
    by_cases hl : l = kind
    · subst hl
      by_cases h : k = l
      · simp [change, h]
      · simp [change, List.lookup_cons, beq_false_of_ne h, h]
    · by_cases h : k = l
      · subst h
        simp [change, hl]
      · simp [change, hl, List.lookup_cons, beq_false_of_ne h, ih]

def register (r : Registry) (kind : KindTag) (rule : Rule) : Registry × Option Refusal :=
  match kind with
  | .raw v => (r, some (.unknownKind rule.id v))
  | .known k =>
    if !rule.declares k then (r, some (.undeclaredKind rule.id k))
    else if (r.get? rule.id).any (·.definition != rule.definition) then
      (r, some (.otherRule rule.id))
    else
      let touched : Registry := { r with table := change k id r.table }
      if rule.occursIn (touched.rulesFor k) then (touched, some (.twiceForKind rule.id k))
      else
        ({ table := change k (· ++ [rule]) touched.table
           rules := if r.contains rule.id then r.rules else r.rules ++ [rule] }, none)

def registerEach (r : Registry) (rule : Rule) : List Kind → Registry × Option Refusal
  | [] => (r, none)
  | k :: rest =>
    match r.register (.known k) rule with
    | (r, none) => r.registerEach rule rest
    | (r, some refusal) => (r, some refusal)

def registerRule (r : Registry) (rule : Rule) : Registry × Option Refusal :=
  if rule.kinds.isEmpty && rule.strays.isEmpty then (r, some (.noKinds rule.id))
  else if r.contains rule.id then (r, some (.twice rule.id))
  else if !rule.strays.isEmpty then (r, some (.unknownKinds rule.id rule.strays))
  else r.registerEach rule rule.kinds.toList

def addAll (r : Registry) : List Rule → Registry × List Rule × Option Refusal
  | [] => (r, [], none)
  | rule :: rest =>
    match r.registerRule rule with
    | (r, none) =>
      let (r, added, refusal) := r.addAll rest
      (r, rule :: added, refusal)
    | (r, some refusal) => (r, [], some refusal)

def ofRules (rules : List Rule) : Except Refusal Registry :=
  match empty.addAll rules with
  | (r, _, none) => .ok r
  | (_, _, some refusal) => .error refusal

def builtin : Registry :=
  (empty.addAll Rule.catalogue).1

end Registry

end TreeLint
