import CancellationLint.Detection
import CancellationLint.Fix.Basic
import CancellationLint.Runs

/-! # Fixing a whole file

All fixes are planned on the same tree. A fix replaces one node by one node, so a path stays right
while other statements are replaced. Of two fixes one inside the other the outer one is applied. -/

namespace CancellationLint

/-- `applied` are the fixes that went into `tree`, in document order; `conflicts` are those inside
of an applied one. -/
structure FixAll where
  tree : Tree
  applied : List Fix
  conflicts : List Fix
  deriving Repr

namespace FixAll

/-- The fixes of the statements around the offsets. The `i`-th fix gets the `i`-th label below. -/
def planAll (l : Label) (t : Tree) (i : Nat) : List Nat → Except FixError (List Fix)
  | [] => .ok []
  | offset :: rest =>
    (t.locate offset).bind fun target =>
      (Fix.plan (l.sub i) t target).bind fun fix =>
        (planAll l t (i + 1) rest).map (fix :: ·)

/-- Of fixes in a row with the same path, the first. -/
def dropRepeats (fixes : List Fix) : List Fix := dropRuns Fix.path fixes

/-- In the order of paths, each path once. -/
def arrange (fixes : List Fix) : List Fix :=
  dropRepeats (fixes.mergeSort fun a b => a.path.le b.path)

/-- Parts the fixes that none of `outer` encloses, nor one taken before, from the others. -/
def settle (outer : List Fix) : List Fix → List Fix × List Fix
  | [] => ([], [])
  | fix :: rest =>
    if outer.any (·.encloses fix) then
      let parts := settle outer rest
      (parts.1, fix :: parts.2)
    else
      let parts := settle (outer ++ [fix]) rest
      (fix :: parts.1, parts.2)

def applyAll (l : Label) (i : Nat) (t : Tree) : List Fix → Except FixError Tree
  | [] => .ok t
  | fix :: rest => (fix.apply (l.sub i) t).bind fun t => applyAll l (i + 1) t rest

end FixAll

/-- Fixes the statements that the diagnostics point at. The order of the diagnostics does not
matter, but the first one that cannot be fixed decides the error. -/
def Tree.fixAll (t : Tree) (l : Label) (diagnostics : List Diagnostic) : Except FixError FixAll :=
  (FixAll.planAll (l.sub 0) t 0 (diagnostics.map (·.location.span.start))).bind fun fixes =>
    let parts := FixAll.settle [] (FixAll.arrange fixes)
    (FixAll.applyAll (l.sub 1) 0 t parts.1).map fun tree =>
      { tree, applied := parts.1, conflicts := parts.2 }

end CancellationLint
