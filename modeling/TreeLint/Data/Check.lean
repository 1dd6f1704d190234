import TreeLint.Data.IntegerText
import TreeLint.Data.Value
import TreeLint.Syntax.Kind

namespace TreeLint

inductive Form where
  | values
  | text
deriving DecidableEq, Repr

inductive Flaw where
  | missing
  | notModel (form : Form) (name : String)
  | notList (form : Form)
  | emptyList
  | notKind
  | notText
  | notInteger
  | noIntegerText
  | fraction
  | tooBig
  | notFinite
  | below (bound : Int)
  | notTruth
  | noTruthText
  | unknownKey
  | broken (rule : String)
  | notJson
deriving DecidableEq, Repr

inductive Key where
  | name (s : String)
  | index (i : Nat)
deriving DecidableEq, Repr

structure Detail where
  loc : List Key
  flaw : Flaw
deriving DecidableEq, Repr

def alternatives : List String → String
  | [] => ""
  | [s] => "'" ++ s ++ "'"
  | [s, t] => "'" ++ s ++ "' or '" ++ t ++ "'"
  | s :: rest => "'" ++ s ++ "', " ++ alternatives rest

namespace Flaw

def code : Flaw → String
  | missing => "missing"
  | notModel _ _ => "model_type"
  | notList _ => "list_type"
  | emptyList => "too_short"
  | notKind => "enum"
  | notText => "string_type"
  | notInteger => "int_type"
  | noIntegerText => "int_parsing"
  | fraction => "int_from_float"
  | tooBig => "int_parsing_size"
  | notFinite => "finite_number"
  | below _ => "greater_than_equal"
  | notTruth => "bool_type"
  | noTruthText => "bool_parsing"
  | unknownKey => "extra_forbidden"
  | broken _ => "value_error"
  | notJson => "json_invalid"

def message : Flaw → String
  | missing => "Field required"
  | notModel .values name => "Input should be a valid dictionary or instance of " ++ name
  | notModel .text _ => "Input should be an object"
  | notList .values => "Input should be a valid list"
  | notList .text => "Input should be a valid array"
  | emptyList => "List should have at least 1 item after validation, not 0"
  | notKind => "Input should be " ++ alternatives (Kind.all.map Kind.name)
  | notText => "Input should be a valid string"
  | notInteger => "Input should be a valid integer"
  | noIntegerText => "Input should be a valid integer, unable to parse string as an integer"
  | fraction => "Input should be a valid integer, got a number with a fractional part"
  | tooBig => "Unable to parse input string as an integer, exceeded maximum size"
  | notFinite => "Input should be a finite number"
  | below bound => "Input should be greater than or equal to " ++ toString bound
  | notTruth => "Input should be a valid boolean"
  | noTruthText => "Input should be a valid boolean, unable to interpret input"
  | unknownKey => "Extra inputs are not permitted"
  | broken rule => "Value error, " ++ rule
  | notJson => "Invalid JSON"

end Flaw

abbrev Checked (α : Type) := Except (List Detail) α

namespace Checked

variable {α β : Type}

def flawAt (loc : List Key) (flaw : Flaw) : Checked α :=
  .error [⟨loc, flaw⟩]

def atLoc (loc : List Key) : Except Flaw α → Checked α
  | .ok a => .ok a
  | .error flaw => flawAt loc flaw

def both : Checked α → Checked β → Checked (α × β)
  | .ok a, .ok b => .ok (a, b)
  | .ok _, .error ds => .error ds
  | .error ds, .ok _ => .error ds
  | .error ds, .error es => .error (ds ++ es)

def all : List (Checked α) → Checked (List α)
  | [] => .ok []
  | c :: rest => (both c (all rest)).map fun (a, as) => a :: as

end Checked

namespace Value

def checkText : Value → Except Flaw String
  | text s => .ok s
  | _ => .error .notText

def checkWholeFloat (x : Float) : Except Flaw Int :=
  if x.isNaN || x.isInf then .error .notFinite
  else match Decimal.wholeNumber? x with
    | none => .error .fraction
    | some n =>
      if -(Decimal.twoTo 63 : Int) < n && n < Decimal.twoTo 63 then .ok n else .error .tooBig

def checkInteger : Value → Except Flaw Int
  | bool b => .ok b.toNat
  | int n => .ok n
  | float x => checkWholeFloat x
  | text s => match integerOfText s with
    | .ok n => .ok n
    | .error .notInteger => .error .noIntegerText
    | .error .tooLong => .error .tooBig
  | _ => .error .notInteger

def checkAtLeast (bound : Int) (v : Value) : Except Flaw Int := do
  let n ← v.checkInteger
  if n < bound then .error (.below bound) else .ok n

def checkOptional {α : Type} (check : Value → Except Flaw α) : Value → Except Flaw (Option α)
  | null => .ok none
  | v => (check v).map some

def checkField {α : Type} (v : Value) (loc : List Key) (key : String) (absent : Except Flaw α)
    (check : Value → Except Flaw α) : Checked α :=
  .atLoc (loc ++ [.name key]) <| match v.get? key with
    | none => absent
    | some found => check found

end Value

end TreeLint
