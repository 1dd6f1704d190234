import TreeLint.Data.Json.Token

namespace TreeLint.Json

inductive Frame where
  | list (done : List Value)
  | record (done : List (String × Value)) (name : String)

inductive Reader where
  | value (frames : List Frame) (mayClose : Bool)
  | key (frames : List Frame) (done : List (String × Value)) (mayClose : Bool)
  | colon (frames : List Frame) (done : List (String × Value)) (name : String)
  | separator (frames : List Frame)
  | nothing (v : Value)

/-- Entries in reverse with one more; a key mentioned again keeps its place and takes the value. -/
def putEntry (key : String) (v : Value) (done : List (String × Value)) : List (String × Value) :=
  if done.any (·.1 == key) then done.map fun e => if e.1 == key then (key, v) else e
  else (key, v) :: done

namespace Reader

def accept (v : Value) : List Frame → Reader
  | [] => nothing v
  | .list done :: frames => separator (.list (v :: done) :: frames)
  | .record done name :: frames => separator (.record (putEntry name v done) name :: frames)

def within (depth holders : Nat) (r : Reader) : Option Reader :=
  if holders ≤ depth then some r else none

def feed (depth : Nat) : Reader → Token → Option Reader
  | value frames _, .openList => within depth frames.length (value (.list [] :: frames) true)
  | value frames _, .openRecord => within depth frames.length (key frames [] true)
  | value frames _, .text s => within depth frames.length (accept (.text s) frames)
  | value frames _, .scalar v => within depth frames.length (accept v frames)
  | value (.list done :: frames) true, .closeList => some (accept (.list done.reverse) frames)
  | key frames done _, .text s => within depth (frames.length + 1) (colon frames done s)
  | key frames done true, .closeRecord => some (accept (.record done.reverse) frames)
  | colon frames done name, .colon => some (value (.record done name :: frames) false)
  | separator (.list done :: frames), .comma => some (value (.list done :: frames) false)
  | separator (.list done :: frames), .closeList => some (accept (.list done.reverse) frames)
  | separator (.record done _ :: frames), .comma => some (key frames done false)
  | separator (.record done _ :: frames), .closeRecord =>
    some (accept (.record done.reverse) frames)
  | _, _ => none

end Reader

def read? (limits : Limits) (s : String) : Option Value := do
  let tokens ← tokens? limits s
  match ← tokens.foldlM (Reader.feed limits.depth) (.value [] false) with
  | .nothing v => some v
  | _ => none

end TreeLint.Json
