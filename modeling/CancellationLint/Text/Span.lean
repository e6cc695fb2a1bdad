/-! # Spans of bytes -/

namespace CancellationLint

/-- The bytes from `start` up to, but without, `stop`. -/
structure Span where
  start : Nat
  stop : Nat
  deriving DecidableEq, Repr, Inhabited

def Span.contains (s : Span) (offset : Nat) : Bool := s.start ≤ offset && offset < s.stop

end CancellationLint
