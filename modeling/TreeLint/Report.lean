import TreeLint.Analysis.Batch
import TreeLint.Document.Writing
import TreeLint.Settings

namespace TreeLint

def version : String :=
  "0.1.0"

inductive ErrorClass where
  | analyzer
  | treeProvider
  | malformedTree
  | ruleRegistration
deriving DecidableEq, Repr

namespace ErrorClass

def all : List ErrorClass :=
  [analyzer, treeProvider, malformedTree, ruleRegistration]

def name : ErrorClass → String
  | analyzer => "CodeAnalyzerError"
  | treeProvider => "TreeProviderError"
  | malformedTree => "MalformedTreeError"
  | ruleRegistration => "RuleRegistrationError"

def lineage : ErrorClass → List ErrorClass
  | analyzer => [analyzer]
  | treeProvider => [treeProvider, analyzer]
  | malformedTree => [malformedTree, treeProvider, analyzer]
  | ruleRegistration => [ruleRegistration, analyzer]

def isAboutTree (c : ErrorClass) : Bool :=
  c.lineage.contains treeProvider

def ofName? (s : String) : Option ErrorClass :=
  all.find? (·.name == s)

end ErrorClass

def Rejection.errorClass : Rejection → ErrorClass
  | malformed _ _ => .malformedTree
  | _ => .treeProvider

def Key.toValue : Key → Value
  | name s => .text s
  | index i => .int i

def Detail.toValue (d : Detail) : Value :=
  .record [("type", .text d.flaw.code), ("loc", .list (d.loc.map Key.toValue)),
    ("msg", .text d.flaw.message)]

def Rejection.toValue (r : Rejection) : Value :=
  .record [("error", .text r.message), ("path", .text r.path),
    ("details", .list (r.details.map Detail.toValue))]

def Diagnostic.toValue (d : Diagnostic) : Value :=
  .record [("rule_id", .text d.ruleId), ("category", .text d.category),
    ("severity", .text d.severity.name), ("location", d.location.toValue),
    ("message", .text d.message), ("path", .text d.path)]

def Failure.toValue (f : Failure) : Value :=
  .record [("rule_id", .text f.ruleId), ("node_kind", .text f.nodeKind.name),
    ("line", .int f.location.line), ("column", .int f.location.column),
    ("error_type", .text f.errorType), ("error", .text f.error)]

def Tally.toValue (t : Tally) : Value :=
  .record [("nodes_visited", .int t.visited), ("rule_invocations", .int t.invocations),
    ("diagnostics_reported", .int t.reports), ("rule_failures", .int t.failures),
    ("cancelled", .bool t.cancelled)]

def UnitResult.toValue (u : UnitResult) : Value :=
  .record [("path", .text u.path), ("ok", .bool u.isOk), ("cancelled", .bool u.isCancelled),
    ("diagnostics", .list (u.diagnostics.map Diagnostic.toValue)),
    ("failures", .list (u.failures.map Failure.toValue)),
    ("error", Value.ofOption Rejection.toValue u.error?)]

def Rule.toValue? (r : Rule) : Option Value := do
  let kinds ← r.kindNames?
  return .record [("id", .text r.id), ("name", .text r.name), ("kinds", .list (kinds.map .text)),
    ("description", .text r.description), ("severity", .text r.severity.name),
    ("category", .text r.category)]

def Settings.toValue (s : Settings) : Value :=
  .record [("log_level", .text s.logLevel.name), ("log_json", .bool s.logJson),
    ("max_workers", .int s.maxWorkers)]

end TreeLint
