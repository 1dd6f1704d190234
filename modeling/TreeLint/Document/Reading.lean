import TreeLint.Data.Check
import TreeLint.Data.Json.Reader
import TreeLint.Document.Order

namespace TreeLint

open Checked

namespace Document

def checkKind : Value → Except Flaw Kind
  | .text s => match Kind.ofName? s with
    | some k => .ok k
    | none => .error .notKind
  | _ => .error .notKind

def precedes (start stop : Int) : String :=
  match Decimal.integerText? stop, Decimal.integerText? start with
  | some stop, some start => "span end " ++ stop ++ " precedes start " ++ start
  | _, _ => Decimal.tooManyDigits

def readSpan (form : Form) (loc : List Key) (v : Value) : Checked Span :=
  match v with
  | .record _ => do
    let ((start, stop), (line, column)) ←
      both
        (both (v.checkField loc "start" (.error .missing) (Value.checkAtLeast 0))
          (v.checkField loc "end" (.error .missing) (Value.checkAtLeast 0)))
        (both (v.checkField loc "line" (.ok 1) (Value.checkAtLeast 1))
          (v.checkField loc "column" (.ok 0) (Value.checkAtLeast 0)))
    if stop < start then flawAt loc (.broken (precedes start stop))
    else .ok ⟨start, stop, line, column⟩
  | _ => flawAt loc (.notModel form "SpanModel")

def readOptionalSpan (form : Form) (loc : List Key) (v : Value) : Checked (Option Span) :=
  match v.get? "span" with
  | none => .ok none
  | some .null => .ok none
  | some s => (readSpan form (loc ++ [.name "span"]) s).map some

def readRow (form : Form) (loc : List Key) (v : Value) : Checked Row :=
  match v with
  | .record _ => do
    let ((kind, parent, text), (identifier, role, span)) ←
      both
        (both (v.checkField loc "kind" (.error .missing) checkKind)
          (both (v.checkField loc "parent" (.ok none) (Value.checkOptional (Value.checkAtLeast 0)))
            (v.checkField loc "text" (.ok none) (Value.checkOptional Value.checkText))))
        (both (v.checkField loc "identifier" (.ok none) (Value.checkOptional Value.checkText))
          (both (v.checkField loc "role" (.ok none) (Value.checkOptional Value.checkText))
            (readOptionalSpan form loc v)))
    return ⟨kind, parent.map Int.toNat, text, identifier, role, span⟩
  | _ => flawAt loc (.notModel form "NodeModel")

def readRows (form : Form) (v : Value) : Checked (List Row) :=
  let loc := [Key.name "nodes"]
  match v.get? "nodes" with
  | none => flawAt loc .missing
  | some (.list []) => flawAt loc .emptyList
  | some (.list items) =>
    all (items.zipIdx.map fun (item, i) => readRow form (loc ++ [.index i]) item)
  | some _ => flawAt loc (.notList form)

def ofValue (form : Form) (v : Value) : Checked Document :=
  match v with
  | .record _ => do
    let (path, rows) ←
      both (v.checkField [] "path" (.ok "<tree>") Value.checkText) (readRows form v)
    match checkOrder rows with
    | .ok _ => .ok ⟨path, rows⟩
    | .error disorder => flawAt [] (.broken disorder.complaint)
  | _ => flawAt [] (.notModel form "TreeDocument")

def limits : Json.Limits :=
  ⟨200, Decimal.mostDigits⟩

def ofText (s : String) : Checked Document :=
  match Json.read? limits s with
  | some v => ofValue .text v
  | none => flawAt [] .notJson

def ofBytes (bytes : ByteArray) : Checked Document :=
  match String.fromUTF8? bytes with
  | some s => ofText s
  | none => flawAt [] .notJson

end Document

end TreeLint
