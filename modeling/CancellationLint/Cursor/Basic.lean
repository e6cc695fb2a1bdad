import CancellationLint.Element.Path
import CancellationLint.Element.Trivia
import CancellationLint.Text.Quoted
import CancellationLint.Text.Span

/-! # Elements in their place

A cursor is an element of a tree together with the offset at which its full text starts and the
nodes above it. Spans are given with the outer trivia (full) or without it. -/

namespace CancellationLint

/-- A node above an element, where its full text starts, and which of its children leads down. -/
structure Frame where
  node : Element
  offset : Nat
  index : Nat
  deriving Repr, Inhabited

/-- The nodes above are listed from the innermost to the root. -/
structure Cursor where
  element : Element
  offset : Nat
  above : List Frame
  deriving Repr, Inhabited

namespace Cursor

def ofRoot (root : Element) : Cursor := { element := root, offset := 0, above := [] }

def kind (c : Cursor) : Kind := c.element.kind

def isNode (c : Cursor) : Bool := c.element.isNode

/-- The text without the outer trivia. -/
def text (c : Cursor) : String := c.element.text

def hasError (c : Cursor) : Bool := c.element.hasError

/-- The position among the children of the parent. -/
def index (c : Cursor) : Nat := (c.above.head?.map Frame.index).getD 0

def path (c : Cursor) : Path := (c.above.map Frame.index).reverse

def fullSpan (c : Cursor) : Span := { start := c.offset, stop := c.offset + c.element.width }

def span (c : Cursor) : Span :=
  match c.element with
  | .token t =>
    let start := c.offset + t.leading.utf8ByteSize
    { start, stop := start + t.text.utf8ByteSize }
  | .node h children =>
    let e := Element.node h children
    let start := c.offset + e.leading.utf8ByteSize
    { start, stop := max (c.offset + e.width - e.trailing.utf8ByteSize) start }

/-- The same object at the same offset. -/
def same (a b : Cursor) : Bool := a.element.label = b.element.label && a.offset = b.offset

/-! ## Down -/

/-- The frame of the child at `index`, put above those of the parent. -/
def frames (parent : Cursor) (index : Nat) : List Frame :=
  { node := parent.element, offset := parent.offset, index } :: parent.above

/-- Cursors on consecutive children, the first of which has the given index and offset. -/
def childrenFrom (parent : Cursor) : Nat → Nat → List Element → List Cursor
  | _, _, [] => []
  | index, offset, e :: rest =>
    { element := e, offset, above := parent.frames index } ::
      childrenFrom parent (index + 1) (offset + e.width) rest

/-- The children, tokens included. -/
def children (c : Cursor) : List Cursor := c.childrenFrom 0 c.offset c.element.children

def childNodes (c : Cursor) : List Cursor := c.children.filter isNode

def childAt? (c : Cursor) (index : Nat) : Option Cursor :=
  c.element.children[index]?.map fun e =>
    { element := e, offset := c.offset + Element.widthOf (c.element.children.take index),
      above := c.frames index }

/-- The cursor at the end of a path from here. -/
def at? : Path → Cursor → Option Cursor
  | [], c => some c
  | index :: path, c => (c.childAt? index).bind (at? path)

mutual

/-- The nodes of an element in pre-order, given where the element stands. -/
def nodesFrom (offset : Nat) (above : List Frame) : Element → List Cursor
  | .token _ => []
  | .node h children =>
    { element := .node h children, offset, above } ::
      nodesAmong { element := .node h children, offset, above } 0 offset children

def nodesAmong (parent : Cursor) : Nat → Nat → List Element → List Cursor
  | _, _, [] => []
  | index, offset, e :: rest =>
    nodesFrom offset (parent.frames index) e ++
      nodesAmong parent (index + 1) (offset + e.width) rest

end

/-- This node and the nodes in it, in pre-order. -/
def nodes (c : Cursor) : List Cursor := nodesFrom c.offset c.above c.element

/-! ## Up -/

/-- The cursors on the nodes of the frames. -/
def onFrames : List Frame → List Cursor
  | [] => []
  | f :: above => { element := f.node, offset := f.offset, above } :: onFrames above

def parent? (c : Cursor) : Option Cursor := (onFrames c.above).head?

/-- The enclosing nodes from the innermost to the root. A node encloses itself. -/
def enclosing (c : Cursor) : List Cursor :=
  if c.isNode then c :: onFrames c.above else onFrames c.above

def root (c : Cursor) : Cursor := (onFrames c.above).getLast?.getD c

/-- Kind and span, and the text of a token, as shown to a reader. -/
def describe (c : Cursor) : String :=
  let place := s!"{c.kind.name}@{c.span.start}..{c.span.stop}"
  if c.isNode then place else place ++ " " ++ Text.quoted c.text

end Cursor
end CancellationLint
