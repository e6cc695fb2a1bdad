import CancellationLint.Concrete.Attach
import CancellationLint.Tree

/-! # From concrete trees to syntax trees

The syntax tree has one token for each leaf and a last one for the end of the file. No text is
lost: the tree prints as the text it was built from. -/

namespace CancellationLint

namespace Concrete

/-- Sets the mark that the grammar gave. -/
def marked (mark : Bool) (e : Element) : Element :=
  if mark then e.markError e.label else e

mutual

/-- The element for a node, made from the first of the tokens, and the tokens that are left. Trivia
gives no element. -/
def assemble (l : Label) (tokens : List Token) : Concrete → Option Element × List Token
  | .node h children =>
    if h.isTrivia then (none, tokens)
    else if children.isEmpty then
      match tokens with
      | [] => (none, [])
      | token :: rest => (some (.token { token with label := l }), rest)
    else
      let built := assembleAll l 0 tokens children
      let node := Element.make l (Kind.ofName h.kind) built.1
      (some (marked (h.error || h.missing) node), built.2)

/-- The `i`-th node gets the `i`-th label below `l`. -/
def assembleAll (l : Label) (i : Nat) (tokens : List Token) :
    List Concrete → List Element × List Token
  | [] => ([], tokens)
  | c :: rest =>
    let first := assemble (l.sub i) tokens c
    let others := assembleAll l (i + 1) first.2 rest
    (first.1.toList ++ others.1, others.2)

end

/-- The root of the syntax tree. -/
def build? (l : Label) (source : String) : Concrete → Option Element
  | .node h children =>
    (attach none 0 source.toList (leavesOf children)).map fun tokens =>
      let built := assembleAll l 0 tokens children
      let last := built.2.map fun t => Element.token { t with label := l.sub children.length }
      marked h.error (Element.make l (Kind.ofName h.kind) (built.1 ++ last))

end Concrete

/-- Reads a text; there is no tree if the grammar gives none, or one that does not fit the text. -/
def Tree.parse? (grammar : Grammar) (l : Label) (source : String) : Option Tree :=
  (grammar source).bind fun c => (c.build? l source).map fun root => { root }

end CancellationLint
