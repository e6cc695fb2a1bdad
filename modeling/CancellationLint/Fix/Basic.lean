import CancellationLint.Check.Shape
import CancellationLint.Edit.Basic
import CancellationLint.Rule
import CancellationLint.Text.LastLine
import CancellationLint.Tree

/-! # Fixes

A fix replaces one cancellation check by the statement `receiver.ThrowIfCancellationRequested();`.
It is planned on a tree, and can be applied to every tree that still has the very same statement in
the same place. -/

namespace CancellationLint

inductive FixError where
  | locate (offset : Nat)
  | shape (mismatch : Mismatch)
  | foreign
  deriving DecidableEq, Repr

def FixError.message : FixError → String
  | .locate offset => s!"no if statement encloses offset {offset}"
  | .shape mismatch => s!"if statement cannot be rewritten: {mismatch.message}"
  | .foreign => "node does not belong to the tree being rewritten"

/-- The replacement of `target`, which stands at `path`. -/
structure Fix where
  path : Path
  span : Span
  fullSpan : Span
  target : Element
  replacement : Element
  deriving Repr

/-- The innermost if statement around the token at an offset. -/
def Tree.locate (t : Tree) (offset : Nat) : Except FixError Cursor :=
  match (t.cursor.tokenAt? offset).bind fun token =>
      token.enclosing.find? (·.kind = .ifStatement) with
  | some statement => .ok statement
  | none => .error (.locate offset)

/-- The blanks before the node on its line, or nothing if there is something else before it. -/
def Cursor.lineIndent? (c : Cursor) : Option String :=
  c.firstToken?.bind fun first =>
    let parts := Text.splitLastLine first.element.leading.toList
    let startsLine := !parts.1.isEmpty ||
      match first.prevToken? with
      | none => true
      | some before => before.element.trailing.endsWith "\n"
    if startsLine && parts.2.all (fun c => c = ' ' || c = '\t') then some (String.ofList parts.2)
    else none

namespace Fix

/-- The statement `receiver.ThrowIfCancellationRequested();` around the receiver as it is. The label
of each new element is the one of the statement followed by its path. -/
def callStatement (l : Label) (receiver : Element) : Element :=
  let token (l : Label) (kind : Kind) (text : String) : Element :=
    .token { label := l, kind, text }
  let call := l.sub 0
  let access := call.sub 0
  let arguments := call.sub 1
  .make l .expressionStatement
    [.make call .invocationExpression
      [.make access .memberAccessExpression
        [receiver, token (access.sub 1) .dot ".", token (access.sub 2) .identifier throwMethod],
      .make arguments .argumentList
        [token (arguments.sub 0) .openParen "(", token (arguments.sub 1) .closeParen ")"]],
    token (l.sub 1) .semicolon ";"]

/-- The call takes over the outer trivia of the body. The receiver stays the same object if its
leading trivia need not change. -/
def replacementFor (l : Label) (check : Check) (indent : Option String) : Element :=
  let body := check.body.element
  let call := callStatement (l.sub 0) check.receiver.element
  let led := if call.leading = body.leading then call else call.withLeading (l.sub 1) body.leading
  (led.withTrailing (l.sub 2) body.trailing).withReformat l (some { indent })

/-- The fix of a check. -/
def ofCheck (l : Label) (check : Check) : Fix :=
  { path := check.statement.path
    span := check.statement.span
    fullSpan := check.statement.fullSpan
    target := check.statement.element
    replacement := replacementFor l check check.statement.lineIndent? }

/-- Plans the fix of the statement that `target` points at. -/
def plan (l : Label) (t : Tree) (target : Cursor) : Except FixError Fix :=
  if !t.contains target then .error .foreign
  else
    match Check.ofNode target with
    | .error mismatch => .error (.shape mismatch)
    | .ok check => .ok (ofCheck l check)

/-- Whether `other` replaces the same statement or one inside it. -/
def encloses (fix other : Fix) : Bool := fix.path.isPrefixOf other.path

/-- Applies the fix to a tree that has the very same statement at its path. -/
def apply (fix : Fix) (l : Label) (t : Tree) : Except FixError Tree :=
  match t.at? fix.path with
  | none => .error .foreign
  | some e =>
    if e.label = fix.target.label then
      match t.replaceAt? l fix.path fix.replacement with
      | some result => .ok result
      | none => .error .foreign
    else .error .foreign

/-- The fix as an edit of the text. -/
def toEdit [Digest] (fix : Fix) (file : PathName) : Edit :=
  .ofTexts file fix.fullSpan fix.replacement.fullText fix.target.fullText

end Fix

namespace Tree

/-- The tree with the statement that `target` points at fixed. -/
def fix (t : Tree) (l : Label) (target : Cursor) : Except FixError Tree :=
  (Fix.plan (l.sub 0) t target).bind fun planned => planned.apply (l.sub 1) t

/-- The tree with the if statement around an offset fixed. -/
def fixAt (t : Tree) (l : Label) (offset : Nat) : Except FixError Tree :=
  (t.locate offset).bind (t.fix l)

end Tree
end CancellationLint
