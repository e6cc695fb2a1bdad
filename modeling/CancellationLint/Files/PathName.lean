/-! # Names of files

A path name is kept as it was written; `a/./b` and `a/b` print differently. Compared and ordered
are its parts, in which repeated slashes, a slash at the end, and single dots other than a first one
do not count. -/

namespace CancellationLint

structure PathName where
  text : String
  deriving DecidableEq, Repr, Inhabited

namespace PathName

inductive Part where
  | root
  | here
  | up
  | name (text : String)
  deriving DecidableEq, Repr, Inhabited

/-- A text between slashes; an empty one and a single dot are dropped. -/
def Part.ofSegment? (segment : List Char) : Option Part :=
  if segment = [] || segment = ['.'] then none
  else if segment = ['.', '.'] then some .up
  else some (.name (String.ofList segment))

/-- The texts between slashes, the one begun in `current` (reversed) included. -/
def segmentsFrom (current : List Char) : List Char → List (List Char)
  | [] => [current.reverse]
  | '/' :: rest => current.reverse :: segmentsFrom [] rest
  | c :: rest => segmentsFrom (c :: current) rest

def segments (p : PathName) : List (List Char) := segmentsFrom [] p.text.toList

def isAbsolute (p : PathName) : Bool := p.text.startsWith "/"

/-- What a slash or a single dot in front counts for. -/
def leading : List (List Char) → List Part
  | [] :: _ :: _ => [.root]
  | ['.'] :: _ => [.here]
  | _ => []

def parts (p : PathName) : List Part :=
  leading p.segments ++ p.segments.filterMap Part.ofSegment?

/-- The rank of the kinds of parts in the order. -/
def Part.rank : Part → Nat
  | .root => 0
  | .here => 1
  | .up => 2
  | .name _ => 3

/-- Names are ordered by their bytes in UTF-8, which is the order of their code points. -/
def Part.compare (a b : Part) : Ordering :=
  match a, b with
  | .name s, .name t => compareOfLessAndEq s t
  | a, b => compareOfLessAndEq a.rank b.rank

def compareParts : List Part → List Part → Ordering
  | [], [] => .eq
  | [], _ :: _ => .lt
  | _ :: _, [] => .gt
  | a :: as, b :: bs => (a.compare b).then (compareParts as bs)

/-- The order of path names goes part by part. -/
def compare (a b : PathName) : Ordering := compareParts a.parts b.parts

/-- Whether two path names have the same parts. -/
def same (a b : PathName) : Bool := a.parts = b.parts

/-- `other` seen from `base`; an absolute name stands for itself. -/
def join (base other : PathName) : PathName :=
  if other.isAbsolute then other
  else if base.text = "" || base.text.toList.getLast? = some '/' then
    { text := base.text ++ other.text }
  else { text := base.text ++ "/" ++ other.text }

/-- What follows the last dot of a name; a dot in front does not count. -/
def extensionOf? (name : List Char) : Option (List Char) :=
  let tail := name.reverse.takeWhile (· ≠ '.')
  let front := name.reverse.dropWhile (· ≠ '.')
  match front with
  | [] | ['.'] => none
  | _ => some tail.reverse

/-- The extension of the last part, if that is a name. -/
def extension? (p : PathName) : Option String :=
  match p.parts.getLast? with
  | some (.name s) => (extensionOf? s.toList).map String.ofList
  | _ => none

/-- The absolute name with the given names as its parts. -/
def ofNames (names : List String) : PathName := { text := "/" ++ "/".intercalate names }

end PathName
end CancellationLint
