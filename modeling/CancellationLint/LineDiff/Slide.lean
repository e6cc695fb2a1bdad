import CancellationLint.LineDiff.Search

/-! # Sliding changes together

Inserted lines that equal the kept lines next to them can be taken to stand before or after those.
An insertion is slid up and then down as far as it goes. A deletion passes insertions, but no kept
lines. Both join changes of their kind that they meet. Then a deletion and an insertion in one place
become a replacement. -/

namespace CancellationLint.LineDiff

/-- A run among others; those before it come nearest first. -/
structure Focus where
  before : List Run
  run : Run
  after : List Run
  deriving Repr

section Slide

variable (a b : Array String)

/-- The number of inserted lines that equal the last of the kept lines before them. -/
def slackUp (kept r : Run) : Nat :=
  if r.tag = .insert then
    commonEnd a b (min kept.oldSize r.newSize) (kept.old + kept.oldSize) (r.new + r.newSize)
  else 0

/-- The number of inserted lines that equal the first of the kept lines after them. -/
def slackDown (kept r : Run) : Nat :=
  if r.tag = .insert then commonStart a b (min kept.oldSize r.newSize) kept.old r.new else 0

/-- Moves a change up. A step uses up kept lines or a run, so `fuel` may be the number of both. -/
def slideUp : Nat → Focus → Focus
  | 0, f => f
  | fuel + 1, f =>
    match f.before with
    | [] => f
    | p :: before =>
      if p.tag = .keep then
        let s := slackUp a b p f.run
        if s = 0 then
          if p.isEmpty then slideUp fuel { f with before } else f
        else
          let shrunk := p.resize (· - s)
          slideUp fuel
            { before := if shrunk.isEmpty then before else shrunk :: before
              run := f.run.move (· - s)
              after :=
                match f.after with
                | next :: after =>
                  if next.tag = .keep then (next.move (· - s)).resize (· + s) :: after
                  else .keep (p.old + p.oldSize - s) (f.run.new + f.run.newSize - s) s :: f.after
                | [] => [.keep (p.old + p.oldSize - s) (f.run.new + f.run.newSize - s) s] }
      else if p.tag = f.run.tag then slideUp fuel { before, run := p.append f.run, after := f.after }
      else slideUp fuel { before, run := f.run, after := p :: f.after }

/-- Moves a change down. -/
def slideDown : Nat → Focus → Focus
  | 0, f => f
  | fuel + 1, f =>
    match f.after with
    | [] => f
    | n :: after =>
      if n.tag = .keep then
        let s := slackDown a b n f.run
        if s = 0 then
          if n.isEmpty then slideDown fuel { f with after } else f
        else
          let shrunk := (n.move (· + s)).resize (· - s)
          slideDown fuel
            { before :=
                match f.before with
                | previous :: before =>
                  if previous.tag = .keep then previous.resize (· + s) :: before
                  else .keep n.old f.run.new s :: f.before
                | [] => [.keep n.old f.run.new s]
              run := f.run.move (· + s)
              after := if shrunk.isEmpty then after else shrunk :: after }
      else if n.tag = f.run.tag then
        slideDown fuel { before := f.before, run := f.run.append n, after }
      else slideDown fuel { before := n :: f.before, run := f.run, after }

/-- Slides every change of a tag, from the first to the last. -/
def slideAll (tag : Tag) (steps : Nat) : Nat → List Run → List Run → List Run
  | fuel + 1, before, run :: after =>
    if run.tag = tag then
      let f := slideDown a b steps (slideUp a b steps { before, run, after })
      slideAll tag steps fuel (f.run :: f.before) f.after
    else slideAll tag steps fuel (run :: before) after
  | _, before, after => before.reverse ++ after

/-- Deletions are slid first, then insertions. -/
def slide (rs : List Run) : List Run :=
  let steps := 4 * (a.size + b.size) + 4
  slideAll a b .insert steps steps [] (slideAll a b .delete steps steps [] rs)

end Slide

/-- The change that deletions and insertions in one place make up. -/
def combine : Option Run → Option Run → List Run
  | some d, some i => [⟨.replace, d.old, d.oldSize, i.new, i.newSize⟩]
  | deleted, inserted => deleted.toList ++ inserted.toList

def extend (r : Option Run) (next : Run) : Run := (r.map (·.append next)).getD next

/-- Joins kept runs, and the changes between two of them; the pending ones are given. -/
def joinFrom (kept deleted inserted : Option Run) : List Run → List Run
  | [] => kept.toList ++ combine deleted inserted
  | run :: rest =>
    match run.tag with
    | .delete => kept.toList ++ joinFrom none (some (extend deleted run)) inserted rest
    | .insert => kept.toList ++ joinFrom none deleted (some (extend inserted run)) rest
    | _ => combine deleted inserted ++ joinFrom (some (extend kept run)) none none rest

def join (rs : List Run) : List Run := joinFrom none none none rs

end CancellationLint.LineDiff
