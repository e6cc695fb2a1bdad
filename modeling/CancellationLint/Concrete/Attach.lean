import CancellationLint.Concrete.Basic
import CancellationLint.Element.Basic
import CancellationLint.Text.Cut

/-! # Attaching trivia to tokens

The text between two tokens is divided between them: the first line break that is not inside a block
comment ends the trailing trivia of the token before, and the rest leads the token after. -/

namespace CancellationLint.Concrete

/-- Where a scan of trivia stands. -/
inductive Scan where
  | plain
  | blockComment
  | lineComment
  deriving DecidableEq, Repr

/-- Divides trivia after the first line feed outside block comments. A line comment hides the start
of a block comment, and a block comment that is never closed takes all of the rest. -/
def splitTrivia : Scan → List Char → List Char × List Char
  | _, [] => ([], [])
  | .plain, '\n' :: rest => (['\n'], rest)
  | .plain, '/' :: '*' :: rest =>
    let parts := splitTrivia .blockComment rest
    ('/' :: '*' :: parts.1, parts.2)
  | .plain, '/' :: '/' :: rest =>
    let parts := splitTrivia .lineComment rest
    ('/' :: '/' :: parts.1, parts.2)
  | .blockComment, '*' :: '/' :: rest =>
    let parts := splitTrivia .plain rest
    ('*' :: '/' :: parts.1, parts.2)
  | .lineComment, '\n' :: rest => (['\n'], rest)
  | scan, c :: rest =>
    let parts := splitTrivia scan rest
    (c :: parts.1, parts.2)

/-- The trailing trivia of the token before, and the leading trivia of the one after. Before the
first token all trivia is leading. -/
def shareTrivia (previous : Option Token) (gap : List Char) : List Token × String :=
  match previous with
  | none => ([], String.ofList gap)
  | some token =>
    let parts := splitTrivia .plain gap
    ([{ token with trailing := String.ofList parts.1 }], String.ofList parts.2)

/-- Turns leaves into tokens. `rest` is the text from `offset` on, and `previous` the token that
ends there, whose trailing trivia is not known yet. The result is without labels; it ends with the
token for the end of the file. There is none if a leaf ends inside a character or beyond the text. -/
def attach (previous : Option Token) (offset : Nat) (rest : List Char) :
    List ConcreteHead → Option (List Token)
  | [] =>
    let shared := shareTrivia previous rest
    some (shared.1 ++ [{ label := [], kind := .endOfFile, text := "", leading := shared.2 }])
  | leaf :: leaves =>
    -- A leaf that overlaps the one before starts where that one ended.
    let start := max leaf.start offset
    let stop := max leaf.stop start
    (Text.cutChars (start - offset) rest).bind fun gap =>
      (Text.cutChars (stop - start) gap.2).bind fun covered =>
        let shared := shareTrivia previous gap.1
        let token : Token :=
          { label := [], kind := Kind.ofName leaf.kind, leading := shared.2, missing := leaf.missing
            text := if leaf.missing then "" else String.ofList covered.1 }
        (attach (some token) stop covered.2 leaves).map (shared.1 ++ ·)

end CancellationLint.Concrete
