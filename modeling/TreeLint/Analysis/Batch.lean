import TreeLint.Analysis.Basic

/-!
Many units under one signal. The passes may take their steps in any order; a schedule names the
unit of each step, and whatever it leaves over is done unit by unit.
-/

namespace TreeLint

inductive Seat where
  | rejected (r : Rejection)
  | running (p : Pass)
  | ended (i : Interruption)

namespace Seat

def ofInputBy (read : Source → Checked Document) (input : Input) : Seat :=
  match input.prepareBy read with
  | .error (.rejected r) => rejected r
  | .error (.ended i) => ended i
  | .ok unit => running (.start unit.tree unit.outside .empty)

/-- A unit that ends without an answer does not keep the others from going on. -/
def step (registry : Registry) (signal : Signal) : Seat → Seat × Signal
  | running p =>
    match p.step registry signal with
    | .ok (p, signal) => (running p, signal)
    | .error i => (ended i, signal.ask.2)
  | seat => (seat, signal)

def finish (registry : Registry) (signal : Signal) :
    Seat → Except Interruption (UnitResult × Signal)
  | rejected r => .ok (.rejected r, signal)
  | running p => (p.run registry signal).map fun (p, signal) => (p.result, signal)
  | ended i => .error i

end Seat

structure Batch where
  seats : List Seat
  signal : Signal

namespace Batch

def ofInputsBy (read : Source → Checked Document) (inputs : List Input) (signal : Signal) : Batch :=
  ⟨inputs.map (Seat.ofInputBy read), signal⟩

def step (registry : Registry) (b : Batch) (i : Nat) : Batch :=
  match b.seats[i]? with
  | none => b
  | some seat =>
    let (seat, signal) := seat.step registry b.signal
    ⟨b.seats.set i seat, signal⟩

def follow (registry : Registry) (b : Batch) : List Nat → Batch
  | [] => b
  | i :: rest => (b.step registry i).follow registry rest

/-- The outcomes in order, up to the first unit that has none. -/
def finishAll (registry : Registry) (signal : Signal) :
    List Seat → Except Interruption (List UnitResult × Signal)
  | [] => .ok ([], signal)
  | seat :: rest =>
    match seat.finish registry signal with
    | .error i => .error i
    | .ok (u, signal) => (finishAll registry signal rest).map fun (us, signal) => (u :: us, signal)

end Batch

def analyzeManyBy (read : Source → Checked Document) (registry : Registry) (inputs : List Input)
    (signal : Signal) (schedule : List Nat) : Except Interruption (List UnitResult × Signal) :=
  let b := (Batch.ofInputsBy read inputs signal).follow registry schedule
  Batch.finishAll registry b.signal b.seats

def analyzeMany (registry : Registry) (inputs : List Input) (signal : Signal)
    (schedule : List Nat) : Except Interruption (List UnitResult × Signal) :=
  analyzeManyBy Source.read registry inputs signal schedule

end TreeLint
