import TreeLint.Decimal.Digits

namespace TreeLint

structure Span where
  start : Int
  stop : Int
  line : Int
  column : Int
deriving DecidableEq, Repr

namespace Span

def ofRange (start stop : Int) : Span :=
  ⟨start, stop, 1, 0⟩

def text? (s : Span) : Option String := do
  return (← Decimal.integerText? s.line) ++ ":" ++ (← Decimal.integerText? s.column)

def compare (s t : Span) : Ordering :=
  (Ord.compare s.start t.start).then <| (Ord.compare s.stop t.stop).then <|
    (Ord.compare s.line t.line).then (Ord.compare s.column t.column)

def before (s t : Span) : Bool :=
  compare s t == .lt

def sorted (spans : List Span) : List Span :=
  spans.mergeSort fun s t => compare s t != .gt

end Span

end TreeLint
