import CancellationLint.LineDiff.Basic

/-! # The search for a short difference

The texts span a grid: a step to the right deletes a line, a step down inserts one, and a diagonal
step keeps one. Paths grow from both corners until they meet, and the two halves are solved by
themselves. -/

namespace CancellationLint.LineDiff

/-- A part of each of the two texts. -/
structure Region where
  old : Span
  new : Span
  deriving DecidableEq, Repr

def Region.width (r : Region) : Nat := r.old.stop - r.old.start

def Region.height (r : Region) : Nat := r.new.stop - r.new.start

/-- How far the paths reach on each diagonal. -/
structure Frontier where
  /-- The place of diagonal 0. -/
  middle : Nat
  reach : Array Nat
  deriving Repr

namespace Frontier

def ofLimit (limit : Nat) : Frontier :=
  { middle := limit + 1, reach := Array.replicate (2 * limit + 3) 0 }

def get (f : Frontier) (k : Int) : Nat := f.reach.getD (k + f.middle).toNat 0

def set (f : Frontier) (k : Int) (x : Nat) : Frontier :=
  { f with reach := f.reach.setIfInBounds (k + f.middle).toNat x }

/-- Where a path with `d` changes enters diagonal `k`: from the neighbour that reaches further. -/
def entry (f : Frontier) (d : Nat) (k : Int) : Nat :=
  if k = -d || (k ≠ d && f.get (k - 1) < f.get (k + 1)) then f.get (k + 1) else f.get (k - 1) + 1

end Frontier

/-- The diagonals that `d` changes lead to. -/
def diagonals (d : Nat) : List Int := (List.range (d + 1)).map fun i : Nat => (d : Int) - 2 * i

section Meeting

variable (a b : Array String) (r : Region)

/-- The diagonal of the far corner. -/
def Region.corner : Int := (r.width : Int) - r.height

/-- Lets the paths from the near corner grow by one change, until one meets a path of `others`. -/
def forward (d : Nat) (others : Frontier) : List Int → Frontier → Frontier × Option (Nat × Nat)
  | [], f => (f, none)
  | k :: ks, f =>
    let x := f.entry d k
    let y := ((x : Int) - k).toNat
    let kept := commonStart a b (min (r.width - x) (r.height - y)) (r.old.start + x) (r.new.start + y)
    let f := f.set k (x + kept)
    if r.corner % 2 ≠ 0 && (k - r.corner).natAbs < d
        && x + kept + others.get (r.corner - k) ≥ r.width then
      (f, some (r.old.start + x, r.new.start + y))
    else forward d others ks f

/-- Lets the paths from the far corner grow by one change, until one meets a path of `others`. -/
def backward (d : Nat) (others : Frontier) : List Int → Frontier → Frontier × Option (Nat × Nat)
  | [], f => (f, none)
  | k :: ks, f =>
    let x := f.entry d k
    let y := ((x : Int) - k).toNat
    let kept := commonEnd a b (min (r.width - x) (r.height - y)) (r.old.stop - x) (r.new.stop - y)
    let f := f.set k (x + kept)
    if r.corner % 2 = 0 && (k - r.corner).natAbs ≤ d
        && x + kept + others.get (r.corner - k) ≥ r.width then
      (f, some (r.old.stop - (x + kept), r.new.stop - (y + kept)))
    else backward d others ks f

/-- Paths with `d` changes from each corner, then with one more, up to `rounds` times. -/
def meetingFrom : (rounds d : Nat) → Frontier → Frontier → Option (Nat × Nat)
  | 0, _, _, _ => none
  | rounds + 1, d, f, g =>
    match forward a b r d g (diagonals d) f with
    | (_, some p) => some p
    | (f, none) =>
      match backward a b r d f (diagonals d) g with
      | (_, some p) => some p
      | (g, none) => meetingFrom rounds (d + 1) f g

/-- A place on a shortest path through the region. -/
def meeting? : Option (Nat × Nat) :=
  let limit := (r.width + r.height + 1) / 2 + 1
  meetingFrom a b r limit 0 (.ofLimit limit) (.ofLimit limit)

end Meeting

/-- The runs of a region. What the parts have in common at their ends is kept; the rest is split
where the paths meet. Each split gives smaller regions, so `fuel` need not exceed their size. -/
def runsOf (a b : Array String) : Nat → Region → List Run
  | fuel, r =>
    let before := commonStart a b (min r.width r.height) r.old.start r.new.start
    let inner : Region :=
      { old := { r.old with start := r.old.start + before }
        new := { r.new with start := r.new.start + before } }
    let after := commonEnd a b (min inner.width inner.height) r.old.stop r.new.stop
    let inner : Region :=
      { old := { inner.old with stop := r.old.stop - after }
        new := { inner.new with stop := r.new.stop - after } }
    let deleted := Run.delete inner.old.start inner.width inner.new.start
    let inserted := Run.insert inner.old.start inner.new.start inner.height
    let changed :=
      if inner.width = 0 && inner.height = 0 then []
      else if inner.height = 0 then [deleted]
      else if inner.width = 0 then [inserted]
      else
        match fuel, meeting? a b inner with
        | fuel + 1, some (x, y) =>
          runsOf a b fuel { old := ⟨inner.old.start, x⟩, new := ⟨inner.new.start, y⟩ } ++
            runsOf a b fuel { old := ⟨x, inner.old.stop⟩, new := ⟨y, inner.new.stop⟩ }
        | _, _ => [deleted, inserted]
    (if before > 0 then [Run.keep r.old.start r.new.start before] else []) ++ changed ++
      if after > 0 then [Run.keep inner.old.stop inner.new.stop after] else []

/-- The runs of two texts. -/
def runs (a b : Array String) : List Run :=
  runsOf a b (a.size + b.size) { old := ⟨0, a.size⟩, new := ⟨0, b.size⟩ }

end CancellationLint.LineDiff
