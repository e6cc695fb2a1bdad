import CancellationLint.Element.Basic

/-! # Paths

A path gives the child to take at each node on the way down. -/

namespace CancellationLint

abbrev Path := List Nat

/-- The order of the document: a path comes before those that lead on from its end, and before those
that part from it to the right. -/
def Path.le : Path → Path → Bool
  | [], _ => true
  | _ :: _, [] => false
  | i :: p, j :: q => i < j || i = j && Path.le p q

namespace Element

/-- The element at the end of the path. -/
def at? : Path → Element → Option Element
  | [], e => some e
  | _ :: _, .token _ => none
  | i :: path, .node _ children => children[i]?.bind (at? path)

/-- The element with the one at the end of the path replaced by `new`. Only the nodes on the way are
built anew. -/
def put? (l : Label) (new : Element) : Path → Element → Option Element
  | [], _ => some new
  | _ :: _, .token _ => none
  | i :: path, .node h children =>
    children[i]?.bind fun old =>
      (put? (l.sub 0) new path old).map fun child =>
        let children := children.set i child
        .node (h.swap l old children) children

end Element
end CancellationLint
