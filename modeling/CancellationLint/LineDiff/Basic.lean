import CancellationLint.Text.Span

/-! # Differences of two texts, line by line

A difference is a list of runs of lines: lines that are kept, deleted, inserted or replaced. A run
says where it is in both texts, also when it has lines of only one of them. -/

namespace CancellationLint.LineDiff

/-- The lines of a text, each with its line end: a line feed, a carriage return, or both. -/
def lines : List Char → List (List Char)
  | [] => []
  | '\r' :: '\n' :: rest => ['\r', '\n'] :: lines rest
  | '\r' :: rest => ['\r'] :: lines rest
  | '\n' :: rest => ['\n'] :: lines rest
  | c :: rest =>
    match lines rest with
    | [] => [[c]]
    | line :: others => (c :: line) :: others

inductive Tag where
  | keep
  | delete
  | insert
  | replace
  deriving DecidableEq, Repr

/-- `oldSize` lines of the old text from `old` on, against `newSize` of the new one from `new` on. -/
structure Run where
  tag : Tag
  old : Nat
  oldSize : Nat
  new : Nat
  newSize : Nat
  deriving DecidableEq, Repr

namespace Run

def keep (old new size : Nat) : Run := ⟨.keep, old, size, new, size⟩

def delete (old size new : Nat) : Run := ⟨.delete, old, size, new, 0⟩

def insert (old new size : Nat) : Run := ⟨.insert, old, 0, new, size⟩

def isEmpty (r : Run) : Bool := r.oldSize = 0 && r.newSize = 0

/-- The run with another number of lines on the sides where it has any. -/
def resize (f : Nat → Nat) (r : Run) : Run :=
  match r.tag with
  | .delete => { r with oldSize := f r.oldSize }
  | .insert => { r with newSize := f r.newSize }
  | _ => { r with oldSize := f r.oldSize, newSize := f r.newSize }

def move (f : Nat → Nat) (r : Run) : Run := { r with old := f r.old, new := f r.new }

/-- One run for two of a tag that follow each other. -/
def append (r next : Run) : Run :=
  { r with oldSize := r.oldSize + next.oldSize, newSize := r.newSize + next.newSize }

end Run

/-- The number of lines, at most `limit`, that agree from `i` and `j` on. -/
def commonStart (a b : Array String) : (limit i j : Nat) → Nat
  | 0, _, _ => 0
  | limit + 1, i, j => if a[i]? = b[j]? then commonStart a b limit (i + 1) (j + 1) + 1 else 0

/-- The number of lines, at most `limit`, that agree before `i` and `j`. -/
def commonEnd (a b : Array String) : (limit i j : Nat) → Nat
  | 0, _, _ => 0
  | limit + 1, i, j =>
    if a[i - 1]? = b[j - 1]? then commonEnd a b limit (i - 1) (j - 1) + 1 else 0

end CancellationLint.LineDiff
