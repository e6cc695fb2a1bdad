import CancellationLint.Cursor.Tokens

/-! # Views of statements and expressions

The parts are found by the surface of the language and not by the fields of a grammar: the condition
of an if statement is what stands between its parentheses, the receiver of a member access is what
stands before the operator. -/

namespace CancellationLint

inductive StatementForm where
  | ifStatement
  | block
  | throwStatement
  | expression
  | other
  deriving DecidableEq, Repr

inductive Expression where
  | memberAccess (access : Cursor)
  | identifier (token : Cursor)
  | this (element : Cursor)
  | other (element : Cursor)
  deriving Repr

namespace Cursor

def statementForm (c : Cursor) : StatementForm :=
  match c.kind with
  | .ifStatement => .ifStatement
  | .block => .block
  | .throwStatement => .throwStatement
  | .expressionStatement => .expression
  | _ => .other

/-- A node of kind identifier is one only if it is a single token. -/
def expression (c : Cursor) : Expression :=
  match c.kind with
  | .memberAccessExpression => if c.isNode then .memberAccess c else .other c
  | .identifier =>
    if c.isNode then
      match c.firstToken? with
      | some token => if c.text = token.text then .identifier token else .other c
      | none => .other c
    else .identifier c
  | .thisExpression | .thisKeyword => .this c
  | _ => .other c

/-! ## If statements -/

/-- The child right after the first one of the given kind. -/
def childAfter? (c : Cursor) (kind : Kind) : Option Cursor :=
  (c.children.dropWhile fun child => child.kind ≠ kind)[1]?

/-- What stands after the opening parenthesis. -/
def condition? (c : Cursor) : Option Cursor :=
  (c.childAfter? .openParen).filter fun child => child.kind ≠ .closeParen

/-- The statement after the closing parenthesis. -/
def body? (c : Cursor) : Option Cursor := (c.childAfter? .closeParen).filter isNode

def elseBranch? (c : Cursor) : Option Cursor :=
  c.children.find? fun child => child.kind = .elseKeyword || child.kind = .elseClause

/-! ## Member accesses -/

/-- What stands before the operator; without an operator there is no receiver. -/
def receiver? (c : Cursor) : Option Cursor :=
  match c.children with
  | receiver :: _ :: _ => some receiver
  | _ => none

/-- What stands last, after a receiver and an operator. -/
def memberName? (c : Cursor) : Option Cursor :=
  let count := c.element.children.length
  if count < 3 then none else c.childAt? (count - 1)

end Cursor
end CancellationLint
