import TreeLint.Data.Value
import TreeLint.Interruption
import TreeLint.Syntax.Tree
import TreeLint.Text.Lines

namespace TreeLint

inductive Severity where
  | error
  | warning
  | info
deriving DecidableEq, Repr

def Severity.name : Severity → String
  | error => "error"
  | warning => "warning"
  | info => "info"

structure Finding where
  location : Span
  message : String
deriving DecidableEq, Repr

def Finding.at (n : Node) (message : String) : Finding :=
  ⟨n.span, message⟩

structure Diagnostic where
  ruleId : String
  category : String
  severity : Severity
  location : Span
  message : String
  path : String
deriving DecidableEq, Repr

def Diagnostic.text? (d : Diagnostic) : Option String := do
  return d.path ++ ":" ++ (← d.location.text?) ++ " " ++ d.ruleId ++ " [" ++ d.severity.name ++
    "] " ++ d.message

inductive Verdict where
  | abstain
  | report (finding : Finding)
  | misreturn (typeName : String)
  /-- An error of the named type; asked for its text it may raise another one of a named type. -/
  | raise (errorType : String) (text : Except String String)
  | interrupt
deriving Repr

def Verdict.interruption? : Verdict → Option Interruption
  | interrupt => some .interrupted
  | raise _ (.error errorType) => some (.escaped errorType)
  | _ => none

/--
A rule and the kinds of nodes it listens to. The number tells definitions apart that may agree in
everything else.
-/
structure Rule where
  definition : Nat
  id : String
  name : String
  kinds : KindSet
  strays : List Value
  description : String
  severity : Severity
  category : String
  evaluate : Tree → Site → Verdict

namespace Rule

def defaultCategory : String :=
  "Severes"

def sign (r : Rule) (path : String) (f : Finding) : Diagnostic :=
  ⟨r.id, r.category, r.severity, f.location, f.message, path⟩

def kindNames? (r : Rule) : Option (List String) := do
  return (r.kinds.toList.map Kind.name ++ (← r.strays.mapM Value.display?)).mergeSort (· ≤ ·)

def sameStrays (vs ws : List Value) : Bool :=
  vs.all (fun v => ws.any v.same) && ws.all (fun w => vs.any w.same)

/-- Agreement in all that describes a rule; how it judges does not count. -/
def same (r s : Rule) : Bool :=
  r.id == s.id && r.name == s.name && r.kinds.same s.kinds && sameStrays r.strays s.strays &&
    r.description == s.description && r.severity == s.severity && r.category == s.category

def occursIn (r : Rule) (rules : List Rule) : Bool :=
  rules.any fun s => s.definition == r.definition || r.same s

def declares (r : Rule) (kind : Kind) : Bool :=
  r.kinds.has kind || r.strays.any (·.same (.text kind.name))

theorem declares_of_strays_nil {r : Rule} (h : r.strays = []) (kind : Kind) :
    r.declares kind = r.kinds.has kind := by
  simp [declares, h]

end Rule

end TreeLint
