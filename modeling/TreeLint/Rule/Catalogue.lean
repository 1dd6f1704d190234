import TreeLint.Rule.Declarations
import TreeLint.Rule.Names
import TreeLint.Rule.Signatures
import TreeLint.Rule.Statements
import TreeLint.Rule.Throws

namespace TreeLint

namespace Rule

def builtin (definition : Nat) (id name : String) (kinds : List Kind) (about : String)
    (judge : Site → Judgement) : Rule :=
  ⟨definition, id, name, .ofList kinds, [], Text.firstLine about, .warning, defaultCategory,
    fun _ s => (judge s).verdict⟩

def catalogue : List Rule := [
  builtin 1 "SEV001" "EncapsulateField" [.fieldDeclaration]
    "Public or protected fields should be properties." Declarations.encapsulateField,
  builtin 2 "SEV002" "ContextualKeywordAsName" [.identifierName]
    "Identifiers named after a contextual keyword." Names.contextualKeyword,
  builtin 3 "SEV003" "ClassesAreNouns" [.classDeclaration]
    "Class names should not end in role words such as Manager or Data." Names.classesAreNouns,
  builtin 4 "SEV004" "BlankCode" [.block]
    "Blocks with nothing in them, outside of lambda bodies." Statements.blankCode,
  builtin 5 "SEV005" "LiskovSubstitutionPrinciple" [.parameter, .genericName, .predefinedType]
    "Concrete collection types named in a signature or declaration." Signatures.liskovSubstitution,
  builtin 6 "SEV006" "ToArrayToListInsideForeach" [.foreachStatement]
    "``foreach`` over an expression that calls ToArray() or ToList()." Statements.toArrayInForeach,
  builtin 7 "SEV007" "SwitchWithoutDefaultCase" [.switchStatement]
    "Switch statements with no default label anywhere beneath them."
    Statements.switchWithoutDefault,
  builtin 8 "SEV008" "GenericExceptionType" [.identifierName]
    "``throw new Exception(...)`` and the other reserved exception types."
    Throws.genericExceptionType,
  builtin 9 "SEV009" "ExceptionWithoutContext" [.objectCreationExpression]
    "Exceptions thrown with an empty constructor call." Throws.exceptionWithoutContext,
  builtin 10 "SEV010" "EnumDefaultValue" [.enumDeclaration]
    "Enumerations should define a member equal to zero." Declarations.enumDefaultValue,
  builtin 11 "SEV011" "MethodWithMoreThanFourParameters" [.parameterList]
    "Signatures with five or more parameters." Signatures.tooManyParameters,
  builtin 12 "SEV012" "MethodWithBoolAsParameter" [.parameterList]
    "Signatures taking a boolean flag." Signatures.boolParameter,
  builtin 13 "SEV013" "PreferClassOverStruct" [.structDeclaration]
    "Every struct declaration." Declarations.preferClassOverStruct]

def builtin? (id : String) : Option Rule :=
  catalogue.find? (·.id == id)

end Rule

end TreeLint
