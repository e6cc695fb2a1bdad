import CancellationLint.Concrete.Basic
import CancellationLint.Text.Cut
import CancellationLint.Text.LastLine
import CancellationLint.Text.Span

/-! # Validation of a changed text

A changed text is refused if the grammar finds faults in it that the old text had not. Offsets move
when a text changes, so faults are compared by the text they cover. -/

namespace CancellationLint

/-- A place where the grammar found an error or something missing. The column counts bytes. -/
structure Fault where
  span : Span
  line : Nat
  column : Nat
  context : String
  deriving DecidableEq, Repr

inductive ValidationError where
  | introduced (faults : List Fault)
  | noTree
  deriving DecidableEq, Repr

def ValidationError.message : ValidationError → String
  | .introduced faults => s!"fix introduced {faults.length} syntax error(s)"
  | .noTree => "failed to parse source code"

namespace Concrete

mutual

/-- The nodes that are errors or missing, in pre-order. Only nodes with an error are entered. -/
def faulty : Concrete → List ConcreteHead
  | .node h children =>
    (if h.error || h.missing then [h] else []) ++ if h.hasError then faultyOf children else []

def faultyOf : List Concrete → List ConcreteHead
  | [] => []
  | c :: rest => c.faulty ++ faultyOf rest

end

/-- The faulty nodes by their start; of two with the same start the outer one comes first. -/
def faults (c : Concrete) : List ConcreteHead :=
  c.faulty.mergeSort fun a b => a.start ≤ b.start

end Concrete

namespace Validation

/-- How many bytes of context are shown on either side of a fault. -/
def contextSize : Nat := 20

def covered (source : String) (h : ConcreteHead) : String :=
  (Text.slice? source h.start h.stop).getD ""

/-- The text around a fault on one line; none if it would start or end inside a character. -/
def context (source : String) (h : ConcreteHead) : String :=
  let start := h.start - contextSize
  let stop := min (h.stop + contextSize) source.utf8ByteSize
  let around := (Text.slice? source start stop).getD ""
  String.ofList (around.toList.flatMap fun c => if c = '\n' then ['\\', 'n'] else [c])

def fault (source : String) (h : ConcreteHead) : Fault :=
  let before := ((Text.slice? source 0 h.start).getD "").toList
  { span := { start := h.start, stop := h.stop }
    line := before.count '\n' + 1
    column := Text.size (Text.splitLastLine before).2 + 1
    context := context source h }

/-- The faults that are left when each text of `known` accounts for one fault that covers it. -/
def unaccounted (source : String) (known : List String) : List ConcreteHead → List ConcreteHead
  | [] => []
  | h :: rest =>
    let text := covered source h
    if text ∈ known then unaccounted source (known.erase text) rest
    else h :: unaccounted source known rest

end Validation

/-- Refuses `edited` if it has faults that `before` does not account for. -/
def validateEdit (grammar : Grammar) (before edited : String) : Except ValidationError Unit :=
  match grammar before, grammar edited with
  | some old, some new =>
    let known := old.faults.map (Validation.covered before)
    match Validation.unaccounted edited known new.faults with
    | [] => .ok ()
    | introduced => .error (.introduced (introduced.map (Validation.fault edited)))
  | _, _ => .error .noTree

end CancellationLint
