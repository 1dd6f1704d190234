import TreeLint.Data.Json.Writer
import TreeLint.Document.Row

namespace TreeLint

def Span.toValue (s : Span) : Value :=
  .record [("start", .int s.start), ("end", .int s.stop), ("line", .int s.line),
    ("column", .int s.column)]

namespace Document

def entriesOfRow (row : Row) : List (String × Value) := [
  ("kind", .text row.kind.name),
  ("parent", Value.ofOption (.int ·) row.parent),
  ("text", Value.ofOption .text row.text),
  ("identifier", Value.ofOption .text row.identifier),
  ("role", Value.ofOption .text row.role),
  ("span", Value.ofOption Span.toValue row.span)]

def toValue (withNulls : Bool) (d : Document) : Value :=
  .record [
    ("path", .text d.path),
    ("nodes", .list (d.rows.map fun row =>
      .record ((entriesOfRow row).filter fun e => withNulls || !e.2.isNull)))]

def toText (d : Document) : String :=
  Json.write (d.toValue true)

end Document

end TreeLint
