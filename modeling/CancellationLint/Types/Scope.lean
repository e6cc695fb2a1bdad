import CancellationLint.Check.View
import CancellationLint.Text.Alphanumeric
import CancellationLint.Types.TypeName

/-! # Types from declarations

The type of a receiver is found from the declarations in the same file: going outwards from the use,
locals declared earlier in an enclosing block, parameters, then fields and properties. The innermost
declaration of the name decides, even when it names no usable type. -/

namespace CancellationLint

/-- Gives the type of an expression, if it is known. -/
abbrev Oracle := Cursor → Option TypeName

/-- What a scope says of a name: nothing, or that it is declared, with its type if there is a usable
one. -/
abbrev Lookup := Option (Option TypeName)

namespace Scope

/-- Words that can stand before a declaration without being its type. -/
def modifierKeywords : List String :=
  ["abstract", "async", "const", "extern", "file", "in", "internal", "new", "out", "override",
    "params", "partial", "private", "protected", "public", "readonly", "ref", "required", "scoped",
    "sealed", "static", "this", "unsafe", "virtual", "volatile"]

/-- Whether a child of a declaration can be its type or its name: no attribute, no modifier, and no
token of mere punctuation. -/
def isPart (child : Cursor) : Bool :=
  !(child.kind = .attributeList || child.kind = .modifier) &&
    (child.isNode ||
      (!modifierKeywords.contains child.text && child.text.toList.any Text.isAlphanumeric))

/-- The parts of a declaration before its default value. -/
def parts (declaration : Cursor) : List Cursor :=
  (declaration.children.takeWhile fun child =>
    !(child.kind = .equals || child.kind = .equalsValueClause)).filter isPart

/-- A declaration of variables: the type, then the declarators. -/
def declarator (name : String) (declaration : Cursor) : Lookup :=
  match declaration.children with
  | [] => none
  | type :: _ =>
    let declares := (declaration.childNodes.filter (·.kind = .variableDeclarator)).any fun child =>
      (child.children.find? (·.kind = .identifier)).any (·.text = name)
    if declares then some (TypeName.ofDeclared? type.text) else none

/-- The declaration of variables in a statement or a field. -/
def variables? (c : Cursor) : Option Cursor :=
  c.childNodes.find? (·.kind = .variableDeclaration)

/-- Locals declared directly in a block, before the use. -/
def locals (name : String) (use : Nat) (block : Cursor) : Lookup :=
  block.childNodes.findSome? fun statement =>
    if statement.kind = .localDeclarationStatement && statement.span.stop ≤ use then
      (variables? statement).bind (declarator name)
    else none

/-- The last part of a parameter is its name, the one before its type. -/
def parameter (name : String) (c : Cursor) : Lookup :=
  match (parts c).reverse with
  | declared :: type :: _ =>
    if declared.text = name then some (TypeName.ofDeclared? type.text) else none
  | [declared] => if declared.text = name then some none else none
  | [] => none

/-- Whether a lambda has a parameter of this name that stands without parentheses or type. -/
def isImplicitParameter (name : String) (lambda : Cursor) : Bool :=
  (lambda.children.takeWhile (·.text ≠ "=>")).any fun child =>
    (child.kind = .identifier || child.kind = .other "implicit_parameter") && child.text = name

/-- The grandchildren in the lists of the given kind. -/
def listed (list : Kind) (owner : Cursor) : List Cursor :=
  (owner.childNodes.filter (·.kind = list)).flatMap Cursor.childNodes

/-- Parameters of a construct that takes them, or of a primary constructor. -/
def parameters (name : String) (owner : Cursor) : Lookup :=
  if owner.kind = .lambdaExpression && isImplicitParameter name owner then some none
  else
    ((listed .parameterList owner).filter (·.kind = .parameter)).findSome? (parameter name)

/-- A field or a property; the first part of a property is its type, the next its name. -/
def member (name : String) (c : Cursor) : Lookup :=
  match c.kind with
  | .fieldDeclaration => (variables? c).bind (declarator name)
  | .propertyDeclaration =>
    match parts c with
    | type :: declared :: _ =>
      if declared.text = name then some (TypeName.ofDeclared? type.text) else none
    | _ => none
  | _ => none

/-- Fields and properties in the body of a type declaration. -/
def members (name : String) (declaration : Cursor) : Lookup :=
  (listed .declarationList declaration).findSome? (member name)

/-- What one enclosing node says of a name that is used at an offset. -/
def lookup (name : String) (use : Nat) (scope : Cursor) : Lookup :=
  if scope.kind = .block then locals name use scope
  else if scope.kind.hasParameters then parameters name scope
  else if scope.kind.isTypeDeclaration then (parameters name scope).or (members name scope)
  else none

/-- The innermost scope that declares the name decides. -/
def resolve (name : String) (c : Cursor) : Option TypeName :=
  (c.enclosing.findSome? (lookup name c.span.start)).join

/-- Resolves names, and members of `this` in the nearest type declaration. -/
def oracle : Oracle := fun c =>
  match c.expression with
  | .identifier token => resolve token.text c
  | .memberAccess access =>
    match access.receiver?.map Cursor.expression, access.memberName? with
    | some (.this _), some name =>
      ((c.enclosing.find? (·.kind.isTypeDeclaration)).bind (members name.text)).join
    | _, _ => none
  | _ => none

end Scope
end CancellationLint
