import TreeLint.Data.Check

namespace TreeLint

inductive Level where
  | debug
  | info
  | warning
  | error
  | critical
deriving DecidableEq, Repr

namespace Level

def name : Level → String
  | debug => "DEBUG"
  | info => "INFO"
  | warning => "WARNING"
  | error => "ERROR"
  | critical => "CRITICAL"

def rank : Level → Nat
  | debug => 10
  | info => 20
  | warning => 30
  | error => 40
  | critical => 50

def all : List Level :=
  [critical, error, warning, info, debug]

def capital (c : Char) : Char :=
  if c = 'ı' then 'I' else c.toUpper

def ofText? (s : String) : Option Level :=
  all.find? (·.name.toList == s.toList.map capital)

end Level

structure Settings where
  logLevel : Level
  logJson : Bool
  maxWorkers : Int
deriving DecidableEq, Repr

abbrev Environment :=
  List (String × String)

namespace Environment

def set (env : Environment) (name value : String) : Environment :=
  if env.any (·.1 == name) then env.map fun e => if e.1 == name then (name, value) else e
  else env ++ [(name, value)]

def unset (env : Environment) (name : String) : Environment :=
  env.filter (·.1 != name)

end Environment

namespace Settings

def variablePrefix : String :=
  "code_analyzer_"

def fieldNames : List String :=
  ["log_level", "log_json", "max_workers"]

/-- Small letters, as far as they can make up a name; the sign for kelvin is a k as well. -/
def small (c : Char) : Char :=
  if c.val = 0x212A then 'k' else c.toLower

def fold (s : String) : String :=
  String.ofList (s.toList.map small)

def find? {α : Type} (entries : List (String × α)) (name : String) : Option α :=
  (entries.find? fun e => fold e.1 == name).map (·.2)

def ofEnvironment? (env : Environment) (name : String) : Option String :=
  find? env.reverse (variablePrefix ++ name)

def checkLevel : Value → Except Flaw Level
  | .text s => match Level.ofText? s with
    | some level => .ok level
    | none => .error (.broken ("log_level must be one of " ++
        String.intercalate ", " (Level.all.map Level.name)))
  | _ => .error .notText

def trueTexts : List String :=
  ["1", "on", "t", "true", "y", "yes"]

def falseTexts : List String :=
  ["0", "off", "f", "false", "n", "no"]

def truthOfInteger (n : Int) : Except Flaw Bool :=
  if n = 0 then .ok false else if n = 1 then .ok true else .error .noTruthText

def checkTruth : Value → Except Flaw Bool
  | .bool b => .ok b
  | .int n =>
    if -(Decimal.twoTo 63 : Int) ≤ n ∧ n < Decimal.twoTo 63 then truthOfInteger n
    else .error .notTruth
  | .float x => match Value.checkWholeFloat x with
    | .ok n => truthOfInteger n
    | .error _ => .error .notTruth
  | .text s =>
    let small := String.ofList (s.toList.map Char.toLower)
    if trueTexts.contains small then .ok true
    else if falseTexts.contains small then .ok false
    else .error .noTruthText
  | _ => .error .notTruth

def checkSetting {α : Type} (values : List (String × Value)) (env : Environment) (name : String)
    (fallback : α) (check : Value → Except Flaw α) : Checked α :=
  .atLoc [.name name] <| match find? values name with
    | some v => check v
    | none => match ofEnvironment? env name with
      | some s => check (.text s)
      | none => .ok fallback

def checkNames (values : List (String × Value)) : Checked Unit :=
  match values.filter fun e => !fieldNames.contains (fold e.1) with
  | [] => .ok ()
  | strays => .error (strays.map fun e => ⟨[.name e.1], .unknownKey⟩)

def resolve (values : List (String × Value)) (env : Environment) : Checked Settings := do
  let ((level, json, workers), _) ←
    Checked.both
      (.both (checkSetting values env "log_level" .info checkLevel)
        (.both (checkSetting values env "log_json" false checkTruth)
          (checkSetting values env "max_workers" 4 (Value.checkAtLeast 1))))
      (checkNames values)
  return ⟨level, json, workers⟩

structure Cache where
  kept : Option Settings

def Cache.get (c : Cache) (env : Environment) : Checked Settings × Cache :=
  match c.kept with
  | some s => (.ok s, c)
  | none => match resolve [] env with
    | .ok s => (.ok s, ⟨some s⟩)
    | .error details => (.error details, c)

end Settings

end TreeLint
