namespace TreeLint

inductive Kind where
  | compilationUnit
  | namespaceDeclaration
  | usingDirective
  | classDeclaration
  | structDeclaration
  | enumDeclaration
  | enumMemberDeclaration
  | equalsValueClause
  | fieldDeclaration
  | propertyDeclaration
  | accessorList
  | getAccessorDeclaration
  | setAccessorDeclaration
  | methodDeclaration
  | constructorDeclaration
  | modifier
  | variableDeclaration
  | variableDeclarator
  | parameterList
  | parameter
  | identifierName
  | genericName
  | typeArgumentList
  | predefinedType
  | qualifiedName
  | block
  | ifStatement
  | elseClause
  | tryStatement
  | catchClause
  | catchDeclaration
  | finallyClause
  | foreachStatement
  | forStatement
  | whileStatement
  | switchStatement
  | switchSection
  | caseSwitchLabel
  | defaultSwitchLabel
  | breakStatement
  | returnStatement
  | throwStatement
  | expressionStatement
  | localDeclarationStatement
  | invocationExpression
  | memberAccessExpression
  | objectCreationExpression
  | argumentList
  | argument
  | literalExpression
  | typeOfExpression
  | declarationExpression
  | assignmentExpression
  | binaryExpression
  | simpleLambdaExpression
  | parenthesizedLambdaExpression
  | anonymousMethodExpression
deriving DecidableEq, Repr

namespace Kind

def all : List Kind := [
  .compilationUnit, .namespaceDeclaration, .usingDirective, .classDeclaration,
  .structDeclaration, .enumDeclaration, .enumMemberDeclaration, .equalsValueClause,
  .fieldDeclaration, .propertyDeclaration, .accessorList, .getAccessorDeclaration,
  .setAccessorDeclaration, .methodDeclaration, .constructorDeclaration, .modifier,
  .variableDeclaration, .variableDeclarator, .parameterList, .parameter, .identifierName,
  .genericName, .typeArgumentList, .predefinedType, .qualifiedName, .block, .ifStatement,
  .elseClause, .tryStatement, .catchClause, .catchDeclaration, .finallyClause, .foreachStatement,
  .forStatement, .whileStatement, .switchStatement, .switchSection, .caseSwitchLabel,
  .defaultSwitchLabel, .breakStatement, .returnStatement, .throwStatement, .expressionStatement,
  .localDeclarationStatement, .invocationExpression, .memberAccessExpression,
  .objectCreationExpression, .argumentList, .argument, .literalExpression, .typeOfExpression,
  .declarationExpression, .assignmentExpression, .binaryExpression, .simpleLambdaExpression,
  .parenthesizedLambdaExpression, .anonymousMethodExpression]

def name : Kind → String
  | compilationUnit => "compilation_unit"
  | namespaceDeclaration => "namespace_declaration"
  | usingDirective => "using_directive"
  | classDeclaration => "class_declaration"
  | structDeclaration => "struct_declaration"
  | enumDeclaration => "enum_declaration"
  | enumMemberDeclaration => "enum_member_declaration"
  | equalsValueClause => "equals_value_clause"
  | fieldDeclaration => "field_declaration"
  | propertyDeclaration => "property_declaration"
  | accessorList => "accessor_list"
  | getAccessorDeclaration => "get_accessor_declaration"
  | setAccessorDeclaration => "set_accessor_declaration"
  | methodDeclaration => "method_declaration"
  | constructorDeclaration => "constructor_declaration"
  | modifier => "modifier"
  | variableDeclaration => "variable_declaration"
  | variableDeclarator => "variable_declarator"
  | parameterList => "parameter_list"
  | parameter => "parameter"
  | identifierName => "identifier_name"
  | genericName => "generic_name"
  | typeArgumentList => "type_argument_list"
  | predefinedType => "predefined_type"
  | qualifiedName => "qualified_name"
  | block => "block"
  | ifStatement => "if_statement"
  | elseClause => "else_clause"
  | tryStatement => "try_statement"
  | catchClause => "catch_clause"
  | catchDeclaration => "catch_declaration"
  | finallyClause => "finally_clause"
  | foreachStatement => "foreach_statement"
  | forStatement => "for_statement"
  | whileStatement => "while_statement"
  | switchStatement => "switch_statement"
  | switchSection => "switch_section"
  | caseSwitchLabel => "case_switch_label"
  | defaultSwitchLabel => "default_switch_label"
  | breakStatement => "break_statement"
  | returnStatement => "return_statement"
  | throwStatement => "throw_statement"
  | expressionStatement => "expression_statement"
  | localDeclarationStatement => "local_declaration_statement"
  | invocationExpression => "invocation_expression"
  | memberAccessExpression => "member_access_expression"
  | objectCreationExpression => "object_creation_expression"
  | argumentList => "argument_list"
  | argument => "argument"
  | literalExpression => "literal_expression"
  | typeOfExpression => "type_of_expression"
  | declarationExpression => "declaration_expression"
  | assignmentExpression => "assignment_expression"
  | binaryExpression => "binary_expression"
  | simpleLambdaExpression => "simple_lambda_expression"
  | parenthesizedLambdaExpression => "parenthesized_lambda_expression"
  | anonymousMethodExpression => "anonymous_method_expression"

def ofName? (s : String) : Option Kind :=
  all.find? (·.name == s)

def byName : List Kind := [
  .accessorList, .anonymousMethodExpression, .argument, .argumentList, .assignmentExpression,
  .binaryExpression, .block, .breakStatement, .caseSwitchLabel, .catchClause, .catchDeclaration,
  .classDeclaration, .compilationUnit, .constructorDeclaration, .declarationExpression,
  .defaultSwitchLabel, .elseClause, .enumDeclaration, .enumMemberDeclaration, .equalsValueClause,
  .expressionStatement, .fieldDeclaration, .finallyClause, .forStatement, .foreachStatement,
  .genericName, .getAccessorDeclaration, .identifierName, .ifStatement, .invocationExpression,
  .literalExpression, .localDeclarationStatement, .memberAccessExpression, .methodDeclaration,
  .modifier, .namespaceDeclaration, .objectCreationExpression, .parameter, .parameterList,
  .parenthesizedLambdaExpression, .predefinedType, .propertyDeclaration, .qualifiedName,
  .returnStatement, .setAccessorDeclaration, .simpleLambdaExpression, .structDeclaration,
  .switchSection, .switchStatement, .throwStatement, .tryStatement, .typeArgumentList,
  .typeOfExpression, .usingDirective, .variableDeclaration, .variableDeclarator, .whileStatement]

theorem mem_byName (k : Kind) : k ∈ byName := by
  cases k <;> decide

theorem nodup_byName : byName.Nodup := by
  decide

theorem ofName?_name (k : Kind) : ofName? k.name = some k := by
  cases k <;> decide

end Kind

structure KindSet where
  has : Kind → Bool

namespace KindSet

def ofList (kinds : List Kind) : KindSet :=
  ⟨kinds.contains⟩

def toList (s : KindSet) : List Kind :=
  Kind.byName.filter s.has

def isEmpty (s : KindSet) : Bool :=
  s.toList.isEmpty

def same (s t : KindSet) : Bool :=
  s.toList == t.toList

theorem mem_toList {s : KindSet} {k : Kind} : k ∈ s.toList ↔ s.has k := by
  simp [toList, Kind.mem_byName]

theorem nodup_toList (s : KindSet) : s.toList.Nodup :=
  Kind.nodup_byName.filter _

theorem has_ofList {kinds : List Kind} {k : Kind} : (ofList kinds).has k ↔ k ∈ kinds := by
  simp [ofList]

end KindSet

end TreeLint
