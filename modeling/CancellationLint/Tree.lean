import CancellationLint.Cursor.Tokens
import CancellationLint.Files.PathName

/-! # Syntax trees

A tree is a root together with the name of the file it was read from. Trees are never changed: an
edit gives a new tree that shares with the old one whatever is not on the way to the edited place. -/

namespace CancellationLint

structure Tree where
  root : Element
  file : PathName := { text := "" }
  deriving Repr, Inhabited

namespace Tree

def cursor (t : Tree) : Cursor := Cursor.ofRoot t.root

/-- The text that the tree was read from, or that it stands for after edits. -/
def source (t : Tree) : String := t.root.fullText

def hasErrors (t : Tree) : Bool := t.root.hasError

/-- Whether the cursor was obtained from the root of this tree. -/
def contains (t : Tree) (c : Cursor) : Bool := c.root.element.label = t.root.label

def at? (t : Tree) (path : Path) : Option Element := t.root.at? path

/-- The tree with the element at the path replaced. The root itself is not replaced this way. -/
def replaceAt? (t : Tree) (l : Label) (path : Path) (new : Element) : Option Tree :=
  if path = [] then none else (Element.put? l new path t.root).map fun root => { t with root }

/-- File and width, as shown to a reader. -/
def describe (t : Tree) : String :=
  "SyntaxTree \x7b path: " ++ Text.quoted t.file.text ++ ", width: " ++ toString t.root.width ++
    " \x7d"

end Tree
end CancellationLint
