import CancellationLint.Text.CodeRange

/-! # Blanks

The characters with the Unicode property White_Space. -/

namespace CancellationLint.Text

def blankRanges : List CodeRange :=
  [(0x9, 0xD), (0x20, 0x20), (0x85, 0x85), (0xA0, 0xA0), (0x1680, 0x1680), (0x2000, 0x200A),
    (0x2028, 0x2029), (0x202F, 0x202F), (0x205F, 0x205F), (0x3000, 0x3000)]

def isBlank (c : Char) : Bool := inRanges blankRanges c

/-- Without the blanks at either end. -/
def trim (cs : List Char) : List Char :=
  ((cs.dropWhile isBlank).reverse.dropWhile isBlank).reverse

/-- Without any blanks. -/
def compact (cs : List Char) : List Char := cs.filter fun c => !isBlank c

end CancellationLint.Text
