import TreeLint.Document.Row

/-!
Spans for rows that omit them. The leaves among these rows follow one another with one position
between two of them; a node around others reaches to the furthest end of those inside it.
-/

namespace TreeLint

namespace Document

def isLeaf (index : Nat) (rest : List Row) : Bool :=
  rest.head?.all (·.parent != some index)

def textLength (row : Row) : Nat :=
  (row.text.getD "").length

/--
The spans of the rows from position `index` on, the next free offset being `offset`. The second
list holds the ends that wait for the row around them.
-/
def fillSpans (index offset : Nat) : List Row → List Span × List (Option Nat × Nat)
  | [] => ([], [])
  | row :: rest =>
    match row.span with
    | some span =>
      let (spans, waiting) := fillSpans (index + 1) offset rest
      (span :: spans, waiting.dropWhile (·.1 == some index))
    | none =>
      let leaf := isLeaf index rest
      let own := if leaf then offset + textLength row else offset
      let (spans, waiting) := fillSpans (index + 1) (if leaf then own + 1 else offset) rest
      let inside := waiting.takeWhile (·.1 == some index)
      let stop := inside.foldl (fun stop e => max stop e.2) own
      (⟨offset, stop, 1, offset⟩ :: spans,
        (row.parent, stop) :: waiting.dropWhile (·.1 == some index))

def spans (d : Document) : List Span :=
  (fillSpans 0 0 d.rows).1

end Document

end TreeLint
