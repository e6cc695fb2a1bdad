/-! # Ranges of code points

The properties of characters that the library needs are tables of closed ranges. -/

namespace CancellationLint.Text

/-- The code points from the first to the second, both included. -/
abbrev CodeRange := Nat × Nat

def inRanges (ranges : List CodeRange) (c : Char) : Bool :=
  ranges.any fun r => r.1 ≤ c.toNat && c.toNat ≤ r.2

end CancellationLint.Text
