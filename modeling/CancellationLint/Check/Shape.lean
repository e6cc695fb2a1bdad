import CancellationLint.Check.View

/-! # The shape of a cancellation check

An if statement without else whose condition reads `IsCancellationRequested` and whose body is a
throw statement, alone or as the only statement of a block. The type of the receiver is no part of
the shape. -/

namespace CancellationLint

/-- The member whose check the rule looks for. -/
def cancellationFlag : String := "IsCancellationRequested"

/-- Why a node has not the shape of a cancellation check. -/
inductive Mismatch where
  | notIfStatement
  | hasElse
  | conditionNotMemberAccess
  | wrongMemberName
  | bodyNotAbort
  | malformed
  deriving DecidableEq, Repr

def Mismatch.message : Mismatch → String
  | .notIfStatement => "node is not an if statement"
  | .hasElse => "if statement has an else branch"
  | .conditionNotMemberAccess => "condition is not a member access"
  | .wrongMemberName => "condition does not read IsCancellationRequested"
  | .bodyNotAbort => "body is not a single throw statement"
  | .malformed => "if statement contains syntax errors"

/-- The parts of a cancellation check. The body is the throw statement or the block around it. -/
structure Check where
  statement : Cursor
  access : Cursor
  receiver : Cursor
  body : Cursor
  abort : Cursor
  deriving Repr, Inhabited

namespace Check

/-- The throw statement, if the body does nothing else. -/
def abort? (body : Cursor) : Option Cursor :=
  match body.statementForm with
  | .throwStatement => some body
  | .block =>
    match body.childNodes with
    | [only] => if only.kind = .throwStatement then some only else none
    | _ => none
  | _ => none

/-- The condition, if it is a member access. -/
def access? (statement : Cursor) : Option Cursor :=
  match statement.condition?.map Cursor.expression with
  | some (.memberAccess access) => some access
  | _ => none

/-- The parts of the check at a node, or the first reason why there is none. -/
def ofNode (c : Cursor) : Except Mismatch Check :=
  if !c.isNode || c.kind ≠ .ifStatement then .error .notIfStatement
  else if c.hasError then .error .malformed
  else
    match access? c with
    | none => .error .conditionNotMemberAccess
    | some access =>
      match access.receiver? with
      | none => .error .conditionNotMemberAccess
      | some receiver =>
        if access.memberName?.map Cursor.text ≠ some cancellationFlag then .error .wrongMemberName
        else
          match c.body? with
          | none => .error .bodyNotAbort
          | some body =>
            match abort? body with
            | none => .error .bodyNotAbort
            | some abort =>
              if c.elseBranch?.isSome then .error .hasElse
              else .ok { statement := c, access, receiver, body, abort }

end Check
end CancellationLint
