import CancellationLint.Text.LastLine
import CancellationLint.Tree

/-! # Layout of replaced statements

Only the nodes that ask for it are touched: their first line is indented as asked, and the request is
dropped. What is inside such a node stays as it is. -/

namespace CancellationLint

namespace Layout

/-- Leading trivia with another indentation; line breaks and comments before the last line stay. -/
def reindent (leading indent : String) : String :=
  String.ofList (Text.splitLastLine leading.toList).1 ++ indent

/-- A node with a request, in its new layout. -/
def settleNode (l : Label) (request : Reformat) (e : Element) : Element :=
  match request.indent with
  | some indent => (e.withLeading (l.sub 0) (reindent e.leading indent)).withReformat l none
  | none => e.withReformat l none

/-- The node `h` after each child with a replacement gave way to it, one after the other; `before`
are the children already dealt with. -/
def swapEach (l : Label) (h : Head) (before : List Element) :
    List Element → List (Option Element) → Element
  | child :: rest, new :: news =>
    match new with
    | some new => swapEach l (h.swap l child (before ++ new :: rest)) (before ++ [new]) rest news
    | none => swapEach l h (before ++ [child]) rest news
  | rest, _ => .node h (before ++ rest)

mutual

/-- The element in its new layout, or nothing if no node in it asks for one. -/
def format? (l : Label) : Element → Option Element
  | .token _ => none
  | .node h children =>
    match h.reformat with
    | some request => some (settleNode l request (.node h children))
    | none =>
      let news := formatEach l 0 children
      if news.any Option.isSome then some (swapEach l h [] children news) else none

/-- For the `i`-th element the `i`-th label below is used. -/
def formatEach (l : Label) (i : Nat) : List Element → List (Option Element)
  | [] => []
  | e :: rest => format? (l.sub i) e :: formatEach l (i + 1) rest

end

end Layout

/-- The tree in its new layout. If no node asks for one, it is the very same tree. -/
def Tree.format (t : Tree) (l : Label) : Tree :=
  match Layout.format? l t.root with
  | some root => { t with root }
  | none => t

end CancellationLint
