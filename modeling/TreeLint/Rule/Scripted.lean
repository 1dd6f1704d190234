import TreeLint.Forest.Draft
import TreeLint.Rule.Judgement

namespace TreeLint

inductive Reaction where
  | abstain
  | find (message : String)
  | findName
  | raise (errorType : String) (text : Except String String)
  | interrupt
  | giveBack (v : Value)

structure Script where
  onlyName : Option String
  reaction : Reaction

def Reaction.verdict (n : Node) : Reaction → Verdict
  | abstain => .abstain
  | find message => .report (.at n message)
  | findName => .report (.at n n.name)
  | raise errorType text => .raise errorType text
  | interrupt => .interrupt
  | giveBack .null => .abstain
  | giveBack v => .misreturn v.typeName

def Script.verdict (script : Script) (s : Site) : Verdict :=
  if script.onlyName.all (· == s.node.name) then script.reaction.verdict s.node else .abstain

namespace KindTag

def knownIn (tags : List KindTag) : List Kind :=
  tags.filterMap fun
    | known k => some k
    | raw _ => none

def straysIn : List KindTag → List Value
  | [] => []
  | known _ :: rest => straysIn rest
  | raw v :: rest => v :: (straysIn rest).filter (!v.same ·)

def checkKeys : List KindTag → Except AccessFault Unit
  | [] => .ok ()
  | t :: rest => if t.value.isKey then checkKeys rest else .error (.noKey t.value.typeName)

end KindTag

namespace Rule

def scripted (definition : Nat) (id name : String) (kinds : List KindTag) (description : String)
    (severity : Severity) (category : String) (script : Script) : Except AccessFault Rule := do
  KindTag.checkKeys kinds
  return ⟨definition, id, name, .ofList (KindTag.knownIn kinds), KindTag.straysIn kinds,
    description, severity, category, fun _ => script.verdict⟩

def descriptionOf (about : Option String) : String :=
  Text.firstLine (about.getD "")

end Rule

end TreeLint
