/-! # Kinds of syntax

The analysis knows a part of the kinds that the grammar of C# gives; the others keep their name. -/

namespace CancellationLint

/-- The constructors up to `error` are nodes, those up to `endOfFile` tokens. -/
inductive Kind where
  | compilationUnit | ifStatement | elseClause | block | throwStatement | expressionStatement
  | localDeclarationStatement | memberAccessExpression | invocationExpression | argumentList
  | thisExpression | classDeclaration | structDeclaration | recordDeclaration
  | interfaceDeclaration | declarationList | methodDeclaration | constructorDeclaration
  | localFunctionStatement | lambdaExpression | anonymousMethodExpression | parameterList
  | parameter | variableDeclaration | variableDeclarator | fieldDeclaration | propertyDeclaration
  | equalsValueClause | modifier | attributeList | error
  | identifier | ifKeyword | elseKeyword | throwKeyword | thisKeyword | openParen | closeParen
  | openBrace | closeBrace | semicolon | dot | equals | endOfFile
  | other (name : String)
  deriving DecidableEq, Repr, Inhabited

namespace Kind

/-- The name of the kind in the grammar. -/
def name : Kind → String
  | .compilationUnit => "compilation_unit"
  | .ifStatement => "if_statement"
  | .elseClause => "else_clause"
  | .block => "block"
  | .throwStatement => "throw_statement"
  | .expressionStatement => "expression_statement"
  | .localDeclarationStatement => "local_declaration_statement"
  | .memberAccessExpression => "member_access_expression"
  | .invocationExpression => "invocation_expression"
  | .argumentList => "argument_list"
  | .thisExpression => "this_expression"
  | .classDeclaration => "class_declaration"
  | .structDeclaration => "struct_declaration"
  | .recordDeclaration => "record_declaration"
  | .interfaceDeclaration => "interface_declaration"
  | .declarationList => "declaration_list"
  | .methodDeclaration => "method_declaration"
  | .constructorDeclaration => "constructor_declaration"
  | .localFunctionStatement => "local_function_statement"
  | .lambdaExpression => "lambda_expression"
  | .anonymousMethodExpression => "anonymous_method_expression"
  | .parameterList => "parameter_list"
  | .parameter => "parameter"
  | .variableDeclaration => "variable_declaration"
  | .variableDeclarator => "variable_declarator"
  | .fieldDeclaration => "field_declaration"
  | .propertyDeclaration => "property_declaration"
  | .equalsValueClause => "equals_value_clause"
  | .modifier => "modifier"
  | .attributeList => "attribute_list"
  | .error => "ERROR"
  | .identifier => "identifier"
  | .ifKeyword => "if"
  | .elseKeyword => "else"
  | .throwKeyword => "throw"
  | .thisKeyword => "this"
  | .openParen => "("
  | .closeParen => ")"
  | .openBrace => "\x7b"
  | .closeBrace => "\x7d"
  | .semicolon => ";"
  | .dot => "."
  | .equals => "="
  | .endOfFile => "end_of_file"
  | .other name => name

/-- The kinds that have a constructor of their own and occur in the grammar. -/
def known : List Kind :=
  [.compilationUnit, .ifStatement, .elseClause, .block, .throwStatement, .expressionStatement,
    .localDeclarationStatement, .memberAccessExpression, .invocationExpression, .argumentList,
    .thisExpression, .classDeclaration, .structDeclaration, .recordDeclaration,
    .interfaceDeclaration, .declarationList, .methodDeclaration, .constructorDeclaration,
    .localFunctionStatement, .lambdaExpression, .anonymousMethodExpression, .parameterList,
    .parameter, .variableDeclaration, .variableDeclarator, .fieldDeclaration,
    .propertyDeclaration, .equalsValueClause, .modifier, .attributeList, .error, .identifier,
    .ifKeyword, .elseKeyword, .throwKeyword, .thisKeyword, .openParen, .closeParen, .openBrace,
    .closeBrace, .semicolon, .dot, .equals]

/-- A record struct counts as a record. The end of a file is no kind of the grammar, so its name
stands for an unknown kind. -/
def ofName (name : String) : Kind :=
  if name = "record_struct_declaration" then .recordDeclaration
  else (known.find? fun kind => kind.name = name).getD (.other name)

def isOther : Kind → Bool
  | .other _ => true
  | _ => false

/-- Declarations whose members can be fields and properties. -/
def isTypeDeclaration : Kind → Bool
  | .classDeclaration | .structDeclaration | .recordDeclaration | .interfaceDeclaration => true
  | _ => false

/-- Constructs that own a parameter list. -/
def hasParameters : Kind → Bool
  | .methodDeclaration | .constructorDeclaration | .localFunctionStatement | .lambdaExpression
  | .anonymousMethodExpression => true
  | _ => false

end Kind
end CancellationLint
