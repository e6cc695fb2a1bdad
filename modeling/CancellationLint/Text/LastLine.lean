/-! # The last line of a text -/

namespace CancellationLint.Text

/-- The text up to and with its last line feed, and what follows. -/
def splitLastLine (cs : List Char) : List Char × List Char :=
  ((cs.reverse.dropWhile (· ≠ '\n')).reverse, (cs.reverse.takeWhile (· ≠ '\n')).reverse)

end CancellationLint.Text
