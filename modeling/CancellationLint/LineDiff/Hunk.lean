import CancellationLint.LineDiff.Slide

/-! # Hunks

Changes are shown with some kept lines around them; changes with more kept lines than that between
them are shown apart. -/

namespace CancellationLint.LineDiff

/-- How many kept lines are shown before and after a change. -/
def context : Nat := 3

/-- The first `context` lines of a kept run. -/
def Run.head (r : Run) : Run := r.resize (min context)

/-- The last `context` lines of a kept run. -/
def Run.last (r : Run) : Run := (r.move (· + (r.oldSize - context))).resize (min context)

/-- The first run with nothing but context before a change. -/
def trimFirst : List Run → List Run
  | r :: rest => (if r.tag = .keep then r.last else r) :: rest
  | [] => []

/-- The last run with nothing but context after a change. -/
def trimLast : List Run → List Run
  | [] => []
  | [r] => [if r.tag = .keep then r.head else r]
  | r :: rest => r :: trimLast rest

/-- Splits the runs where many lines are kept; `pending` are the runs of the hunk so far. -/
def groupFrom (pending : List Run) : List Run → List (List Run)
  | [] => if pending.any fun r => r.tag ≠ .keep then [pending] else []
  | r :: rest =>
    if r.tag = .keep && r.oldSize > 2 * context then
      (pending ++ [r.head]) :: groupFrom [r.last] rest
    else groupFrom (pending ++ [r]) rest

def hunks (rs : List Run) : List (List Run) := groupFrom [] (trimLast (trimFirst rs))

/-- A range of lines, counted from one. The size is left out if it is one, and an empty range is
named by the line before it. -/
def rangeText (start stop : Nat) : String :=
  match stop - start with
  | 0 => s!"{start},0"
  | 1 => s!"{start + 1}"
  | size => s!"{start + 1},{size}"

/-- The ranges that the runs of a hunk span. -/
def header (hunk : List Run) : String :=
  match hunk.head?, hunk.getLast? with
  | some first, some last =>
    let old := rangeText first.old (last.old + last.oldSize)
    let new := rangeText first.new (last.new + last.newSize)
    s!"@@ -{old} +{new} @@"
  | _, _ => ""

/-- A line with its mark; it always gets a line end. -/
def lineText (mark line : String) : String :=
  match line.toList.getLast? with
  | some '\n' | some '\r' => mark ++ line
  | _ => mark ++ line ++ "\n"

def linesText (mark : String) (all : Array String) (start size : Nat) : String :=
  String.join ((all.extract start (start + size)).toList.map (lineText mark))

/-- The lines of a run; of a replacement first what goes, then what comes. -/
def runText (a b : Array String) (r : Run) : String :=
  match r.tag with
  | .keep => linesText " " a r.old r.oldSize
  | _ => linesText "-" a r.old r.oldSize ++ linesText "+" b r.new r.newSize

def hunkText (a b : Array String) (hunk : List Run) : String :=
  header hunk ++ "\n" ++ String.join (hunk.map (runText a b))

/-- All hunks of two texts. -/
def text (old new : String) : String :=
  let a := ((lines old.toList).map String.ofList).toArray
  let b := ((lines new.toList).map String.ofList).toArray
  String.join ((hunks (join (slide a b (runs a b)))).map (hunkText a b))

end CancellationLint.LineDiff
