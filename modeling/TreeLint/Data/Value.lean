import TreeLint.Decimal.Digits
import TreeLint.Decimal.Layout
import TreeLint.Text.Quoted

namespace TreeLint

/-- Data of unknown shape; a record names each key once, in the order of first mention. -/
inductive Value where
  | null
  | bool (b : Bool)
  | int (n : Int)
  | float (x : Float)
  | text (s : String)
  | list (items : List Value)
  | record (entries : List (String × Value))

namespace Value

def typeName : Value → String
  | null => "NoneType"
  | bool _ => "bool"
  | int _ => "int"
  | float _ => "float"
  | text _ => "str"
  | list _ => "list"
  | record _ => "dict"

mutual

def literal? : Value → Option String
  | null => some "None"
  | bool true => some "True"
  | bool false => some "False"
  | int n => Decimal.integerText? n
  | float x => some (Decimal.text x)
  | text s => some (Text.quoted s)
  | list items => (literals? items).map fun ts => "[" ++ String.intercalate ", " ts ++ "]"
  | record entries =>
    (entryLiterals? entries).map fun ts => "\x7b" ++ String.intercalate ", " ts ++ "\x7d"

def literals? : List Value → Option (List String)
  | [] => some []
  | v :: rest => do return (← v.literal?) :: (← literals? rest)

def entryLiterals? : List (String × Value) → Option (List String)
  | [] => some []
  | e :: rest => do return (← entryLiteral? e) :: (← entryLiterals? rest)

def entryLiteral? : String × Value → Option String
  | (key, v) => v.literal?.map (Text.quoted key ++ ": " ++ ·)

end

def display? : Value → Option String
  | text s => some s
  | v => v.literal?

def isNull : Value → Bool
  | null => true
  | _ => false

def ofOption {α : Type} (write : α → Value) : Option α → Value
  | none => null
  | some a => write a

def get? (key : String) : Value → Option Value
  | record entries => entries.lookup key
  | _ => none

def integer? : Value → Option Int
  | bool b => some b.toNat
  | int n => some n
  | float x => Decimal.wholeNumber? x
  | _ => none

mutual

/--
Equality of data: numbers agree across their types, and records whatever their order. What is not
a number equals itself.
-/
def same : Value → Value → Bool
  | null, null => true
  | text s, text t => s == t
  | float x, float y => x == y || (x.isNaN && y.isNaN)
  | list vs, list ws => sameItems vs ws
  | record es, record fs => es.length == fs.length && sameEntries es fs
  | v, w => match v.integer?, w.integer? with
    | some m, some n => m == n
    | _, _ => false

def sameItems : List Value → List Value → Bool
  | [], [] => true
  | v :: vs, w :: ws => v.same w && sameItems vs ws
  | _, _ => false

def sameEntries : List (String × Value) → List (String × Value) → Bool
  | [], _ => true
  | e :: rest, fs => sameEntry e fs && sameEntries rest fs

def sameEntry : String × Value → List (String × Value) → Bool
  | (key, v), fs => (fs.lookup key).any v.same

end

/--
Whether two values that were given apart are one and the same: of small integers, of texts of one
character up to U+00FF, and of the special values there is only one each.
-/
def coincides : Value → Value → Bool
  | null, null => true
  | bool b, bool c => b == c
  | int m, int n => m == n && -5 ≤ m && m ≤ 256
  | float x, float y => (x.isNaN && y.isNaN) || (x.isInf && x == y)
  | text s, text t => s == t && s.length ≤ 1 && s.toList.all (·.toNat < 0x100)
  | _, _ => false

def isKey : Value → Bool
  | list _ => false
  | record _ => false
  | _ => true

def isVoid : Value → Bool
  | null => true
  | bool b => !b
  | int n => n == 0
  | float x => x == 0
  | text s => s.isEmpty
  | list items => items.isEmpty
  | record entries => entries.isEmpty

def position? : Value → Option Int
  | bool b => some b.toNat
  | int n => some n
  | _ => none

end Value

end TreeLint
