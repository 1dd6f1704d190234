import TreeLint.Rule.Context
import TreeLint.Rule.Judgement
import TreeLint.Text.Search

namespace TreeLint.Names

def contextualKeywords : List String := [
  "add", "alias", "ascending", "async", "await", "by", "descending", "dynamic", "equals", "from",
  "get", "global", "group", "into", "join", "let", "nameof", "on", "orderby", "partial", "remove",
  "select", "set", "value", "var", "when", "where", "yield"]

def setterValueKeyword : String :=
  "value"

def keywordExemptParents : List Kind := [
  .invocationExpression, .variableDeclaration, .foreachStatement, .forStatement, .whileStatement,
  .switchStatement, .declarationExpression, .typeOfExpression, .methodDeclaration, .parameter]

def contextualKeywordMessage : String :=
  "This code uses the contextual keyword as a variable or member name. " ++
    "An important improvement would be to rename this variable so that it is not named after a " ++
    "keyword"

def contextualKeyword (s : Site) : Judgement := do
  let name := s.node.name
  if !contextualKeywords.contains name then return none
  if ← s.parentIs keywordExemptParents then return none
  if ← s.grandparentIs [.genericName] then return none
  if name == setterValueKeyword && s.hasAncestor .setAccessorDeclaration then return none
  Judgement.report s.node contextualKeywordMessage

def nonNounClassSuffixes : List String :=
  ["Manager", "Processor", "Data", "Info"]

def classesAreNounsMessage : String :=
  "Classes are nouns. Rename this class in order to eliminate \"Processor\", \"Data\" or " ++
    "\"Info\" word and keep a high level of expressiveness and meaningfulness."

def classesAreNouns (s : Site) : Judgement :=
  match s.node.identifier with
  | none => .abstain
  | some name =>
    .reportIf (nonNounClassSuffixes.any (Text.endsWith · name)) s.node classesAreNounsMessage

end TreeLint.Names
