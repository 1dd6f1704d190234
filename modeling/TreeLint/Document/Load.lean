import TreeLint.Document.Planting
import TreeLint.Document.Reading
import TreeLint.Interruption

namespace TreeLint

inductive Rejection where
  | document (path : String) (details : List Detail)
  | malformed (path message : String)
  | unsupported (typeName : String)

namespace Rejection

def unknownPath : String :=
  "<unknown>"

def message : Rejection → String
  | document _ details =>
    "Invalid syntax tree document: " ++ toString details.length ++ " validation error(s)"
  | malformed _ message => message
  | unsupported typeName => "Unsupported tree input: " ++ typeName

def path : Rejection → String
  | document path _ => path
  | malformed path _ => path
  | unsupported _ => unknownPath

def details : Rejection → List Detail
  | document _ details => details
  | malformed _ _ => []
  | unsupported _ => []

end Rejection

inductive Stop where
  | rejected (r : Rejection)
  | ended (i : Interruption)

/-- A fault that cannot be told is no rejection. -/
def Stop.ofMalformed (path : String) (fault : Malformed) : Stop :=
  match fault.message? with
  | some message => rejected (.malformed path message)
  | none => ended .unwritable

inductive Source where
  | value (v : Value)
  | text (s : String)
  | bytes (b : ByteArray)

namespace Source

def ofValue : Value → Source
  | .text s => text s
  | v => value v

def read : Source → Checked Document
  | value v => Document.ofValue .values v
  | text s => Document.ofText s
  | bytes b => Document.ofBytes b

/--
The path that a rejection names: only a dictionary is asked for its own. It is written out before
anything is read.
-/
def path? : Source → Option String
  | value v => match v.get? "path" with
    | some p => p.display?
    | none => some Rejection.unknownPath
  | _ => some Rejection.unknownPath

def documentBy (read : Source → Checked Document) (s : Source) : Except Stop Document :=
  match s.path? with
  | none => .error (.ended .unwritable)
  | some path =>
    match read s with
    | .ok d => .ok d
    | .error details => .error (.rejected (.document path details))

def loadBy (read : Source → Checked Document) (s : Source) : Except Stop Tree := do
  let d ← s.documentBy read
  match d.toTree with
  | .ok t => .ok t
  | .error fault => .error (.ofMalformed d.path fault)

def document (s : Source) : Except Stop Document :=
  s.documentBy read

def load (s : Source) : Except Stop Tree :=
  s.loadBy read

end Source

end TreeLint
