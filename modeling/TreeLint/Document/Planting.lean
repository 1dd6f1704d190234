import TreeLint.Document.Spans
import TreeLint.Forest.Accept

namespace TreeLint

namespace Document

structure Planting where
  forest : Forest
  waiting : List (Option Nat × Draft)

namespace Planting

def add (p : Planting) (index : Nat) (row : Row) (span : Span) : Planting :=
  let inside := p.waiting.takeWhile (·.1 == some index)
  let (d, forest) := p.forest.create (.known row.kind) (inside.map (·.2)) row.text row.identifier
    row.role (some span)
  ⟨forest, (row.parent, d) :: p.waiting.dropWhile (·.1 == some index)⟩

end Planting

def plantFrom (forest : Forest) (index : Nat) : List (Row × Span) → Planting
  | [] => ⟨forest, []⟩
  | (row, span) :: rest => (plantFrom forest (index + 1) rest).add index row span

def plant (d : Document) (forest : Forest) : Planting :=
  plantFrom forest 0 (d.rows.zip d.spans)

def Planting.root (p : Planting) : Draft :=
  match p.waiting with
  | [] => .foreign 0 .null
  | (_, d) :: _ => d

def toTree (d : Document) : Except Malformed Tree :=
  let p := d.plant .empty
  p.forest.accept p.root d.path

end Document

end TreeLint
