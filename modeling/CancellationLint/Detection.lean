import CancellationLint.Check.Shape
import CancellationLint.Rule
import CancellationLint.Text.LineIndex
import CancellationLint.Tree
import CancellationLint.Types.Scope

/-! # Detection

Every node of a tree with the shape of a cancellation check, and with a receiver that an oracle
takes for a cancellation token, gives one diagnostic. -/

namespace CancellationLint

/-- Where a diagnostic points. -/
structure Location where
  file : PathName
  span : Span
  start : Text.Position
  stop : Text.Position
  deriving DecidableEq, Repr, Inhabited

structure Diagnostic where
  id : String
  message : String
  severity : Severity
  location : Location
  deriving DecidableEq, Repr, Inhabited

/-- The line that reports the diagnostic. -/
def Diagnostic.report (d : Diagnostic) : String :=
  let start := d.location.start
  s!"{d.location.file.text}:{start.line}:{start.column}: {d.severity.name}[{d.id}]: {d.message}"

/-- The check at a node, if its receiver is a cancellation token. -/
def Check.flagged? (oracle : Oracle) (c : Cursor) : Option Check :=
  match Check.ofNode c with
  | .error _ => none
  | .ok check =>
    if (oracle check.receiver).any (·.name = tokenType) then some check else none

namespace Tree

/-- The checks that the rule flags, in pre-order. -/
def flagged (t : Tree) (oracle : Oracle) : List Check :=
  t.cursor.nodes.filterMap (Check.flagged? oracle)

def diagnostic (t : Tree) (lines : Text.LineIndex) (severity : Severity) (check : Check) :
    Diagnostic :=
  let span := check.statement.span
  { id := Rule.useThrowIfCancelled.id
    message := Rule.useThrowIfCancelled.message
    severity
    location :=
      { file := t.file, span, start := lines.position span.start, stop := lines.position span.stop } }

def detect (t : Tree) (oracle : Oracle) (severity : Severity) : List Diagnostic :=
  let lines := Text.LineIndex.ofText t.source
  (t.flagged oracle).map (t.diagnostic lines severity)

end Tree
end CancellationLint
