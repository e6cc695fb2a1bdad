import CancellationLint.Text.Cut

/-! # Lines and columns

Both are counted from one. A line ends after its line feed, and columns count characters. -/

namespace CancellationLint.Text

structure Position where
  line : Nat
  column : Nat
  deriving DecidableEq, Repr, Inhabited

/-- A text with the offsets at which its lines start. -/
structure LineIndex where
  text : String
  starts : List Nat
  deriving Repr, Inhabited

/-- The offsets right after the line feeds of `cs`, which starts at `offset`. -/
def startsAfter (offset : Nat) : List Char → List Nat
  | [] => []
  | c :: cs =>
    let next := offset + c.utf8Size
    if c = '\n' then next :: startsAfter next cs else startsAfter next cs

def LineIndex.ofText (text : String) : LineIndex :=
  { text, starts := 0 :: startsAfter 0 text.toList }

/-- The position of an offset; one beyond the end counts as the end. Inside a character there is no
column in characters, and the bytes since the start of the line are counted instead. -/
def LineIndex.position (index : LineIndex) (offset : Nat) : Position :=
  let offset := min offset index.text.utf8ByteSize
  let upTo := index.starts.takeWhile (· ≤ offset)
  let start := upTo.getLast?.getD 0
  let column := match slice? index.text start offset with
    | some part => part.length
    | none => offset - start
  { line := upTo.length, column := column + 1 }

end CancellationLint.Text
