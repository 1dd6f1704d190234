import TreeLint.Analysis.Batch
import TreeLint.Settings

namespace TreeLint

structure Event where
  name : String
  level : Level
  component : Option String
  fields : List (String × Value)

namespace Event

def ruleRegistered (r : Rule) : Event :=
  ⟨"Rule registered", .debug, some "RuleRegistry",
    [("rule_id", .text r.id), ("kinds", .list (r.kinds.toList.map (.text ·.name)))]⟩

def ruleFailed (path : String) (f : Failure) : Event :=
  ⟨"Rule evaluation failed", .warning, some "Dispatcher",
    [("rule_id", .text f.ruleId), ("node_kind", .text f.nodeKind.name), ("path", .text path),
      ("line", .int f.location.line), ("error", .text f.error)]⟩

def passCancelled (path : String) (t : Tally) : Event :=
  ⟨"Dispatch cancelled", .info, some "Dispatcher",
    [("path", .text path), ("nodes_visited", .int t.visited)]⟩

def passComplete (path : String) (t : Tally) : Event :=
  ⟨"Dispatch complete", .debug, some "Dispatcher",
    [("path", .text path), ("nodes_visited", .int t.visited),
      ("rule_invocations", .int t.invocations), ("diagnostics", .int t.reports),
      ("failures", .int t.failures)]⟩

def analysisComplete (path : String) (s : Sink) (t : Tally) : Event :=
  ⟨"Analysis complete", .info, some "Analyzer",
    [("path", .text path), ("nodes", .int t.visited), ("diagnostics", .int s.diagnostics.length),
      ("failures", .int s.failures.length), ("cancelled", .bool t.cancelled)]⟩

def documentRejected (path : String) (details : List Detail) : Event :=
  ⟨"Rejected syntax tree document", .warning, none,
    [("path", .text path), ("error_count", .int details.length)]⟩

def unitRejected (r : Rejection) : Event :=
  ⟨"Syntax tree rejected", .error, some "Analyzer",
    [("path", .text r.path), ("error", .text r.message)]⟩

def batchStarted (s : Settings) (count : Nat) : Event :=
  ⟨"Analyzing units", .info, some "Analyzer",
    [("count", .int count), ("workers", .int (min s.maxWorkers count))]⟩

def ofUnit : UnitResult → List Event
  | .rejected (.document path details) =>
    [documentRejected path details, unitRejected (.document path details)]
  | .rejected r => [unitRejected r]
  | .completed path sink tally =>
    sink.failures.map (ruleFailed path) ++
      (if tally.cancelled then [passCancelled path tally] else []) ++
      [passComplete path tally, analysisComplete path sink tally]

def ofBatch (s : Settings) : List UnitResult → List Event
  | [] => []
  | results => batchStarted s results.length :: results.flatMap ofUnit

def shown (s : Settings) (events : List Event) : List Event :=
  events.filter (s.logLevel.rank ≤ ·.level.rank)

def levelName (l : Level) : String :=
  String.ofList (l.name.toList.map Char.toLower)

def toValue (e : Event) : Value :=
  .record (e.fields ++ [("event", .text e.name), ("level", .text (levelName e.level))] ++
    (e.component.map fun c => ("component", .text c)).toList)

end Event

end TreeLint
