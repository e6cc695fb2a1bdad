import CancellationLint.Kind

/-! # Tokens and nodes

A syntax tree is built from tokens, which hold all of the text, and nodes, which hold tokens and
nodes in order. The text around a token (blanks, comments, directives) is its leading and trailing
trivia, so a tree prints as the text it was read from.

Elements do not know where they stand, so an edited tree can share with the old one whatever the
edit left alone. Two elements with equal contents may still be different objects: each object bears
a label of its own. -/

namespace CancellationLint

/-- Names one object. Whoever builds objects is given a label that no object bears yet, and may use
it and every label below it. -/
abbrev Label := List Nat

/-- The `i`-th label right below `l`. -/
def Label.sub (l : Label) (i : Nat) : Label := i :: l

/-- Asks the layout pass to indent the first line of a node: by `indent`, or, when the node does not
start a line, not at all. -/
structure Reformat where
  indent : Option String
  deriving DecidableEq, Repr, Inhabited

/-- A leaf. A missing token is one that the grammar had to make up; it has no text. -/
structure Token where
  label : Label
  kind : Kind
  text : String
  leading : String := ""
  trailing : String := ""
  missing : Bool := false
  deriving DecidableEq, Repr, Inhabited

/-- What a node holds besides its children. The width counts the bytes of the node's full text, and
`hasError` says that the node, or something in it, is in error; both are stored when the node is
built. -/
structure Head where
  label : Label
  kind : Kind
  width : Nat
  hasError : Bool
  reformat : Option Reformat := none
  deriving DecidableEq, Repr, Inhabited

inductive Element where
  | token (token : Token)
  | node (head : Head) (children : List Element)
  deriving Repr, Inhabited

namespace Token

/-- The text with the trivia on both sides. -/
def fullText (t : Token) : String := t.leading ++ t.text ++ t.trailing

def width (t : Token) : Nat :=
  t.leading.utf8ByteSize + t.text.utf8ByteSize + t.trailing.utf8ByteSize

/-- Equal but for the label. -/
def alike (a b : Token) : Bool :=
  a.kind = b.kind && a.text = b.text && a.leading = b.leading && a.trailing = b.trailing &&
    a.missing = b.missing

end Token

namespace Head

def alike (a b : Head) : Bool :=
  a.kind = b.kind && a.width = b.width && a.hasError = b.hasError && a.reformat = b.reformat

end Head

namespace Element

def label : Element → Label
  | .token t => t.label
  | .node h _ => h.label

def kind : Element → Kind
  | .token t => t.kind
  | .node h _ => h.kind

/-- Bytes of the full text. -/
def width : Element → Nat
  | .token t => t.width
  | .node h _ => h.width

def hasError : Element → Bool
  | .token t => t.missing
  | .node h _ => h.hasError

def reformat : Element → Option Reformat
  | .token _ => none
  | .node h _ => h.reformat

def children : Element → List Element
  | .token _ => []
  | .node _ children => children

def isNode : Element → Bool
  | .token _ => false
  | .node _ _ => true

mutual

/-- The tokens in document order. -/
def tokens : Element → List Token
  | .token t => [t]
  | .node _ children => tokensOf children

def tokensOf : List Element → List Token
  | [] => []
  | e :: rest => e.tokens ++ tokensOf rest

end

mutual

def hasTokens : Element → Bool
  | .token _ => true
  | .node _ children => anyTokens children

def anyTokens : List Element → Bool
  | [] => false
  | e :: rest => e.hasTokens || anyTokens rest

end

/-- The text with the trivia of every token. -/
def fullText (e : Element) : String := String.join (e.tokens.map Token.fullText)

mutual

/-- Equal in all but the labels. -/
def alike : Element → Element → Bool
  | .token a, .token b => a.alike b
  | .node g as, .node h bs => g.alike h && allAlike as bs
  | _, _ => false

def allAlike : List Element → List Element → Bool
  | [], [] => true
  | a :: as, b :: bs => a.alike b && allAlike as bs
  | _, _ => false

end

/-! ## Building nodes -/

def widthOf : List Element → Nat
  | [] => 0
  | e :: rest => e.width + widthOf rest

def make (l : Label) (kind : Kind) (children : List Element) : Element :=
  .node
    { label := l, kind, width := widthOf children,
      hasError := kind = .error || children.any hasError }
    children

/-- The node with another request for its layout, as a new object. -/
def withReformat (l : Label) (reformat : Option Reformat) : Element → Element
  | .token t => .token { t with label := l }
  | .node h children => .node { h with label := l, reformat } children

/-- The node marked as being in error whatever it holds, as a new object. -/
def markError (l : Label) : Element → Element
  | .token t => .token { t with label := l }
  | .node h children => .node { h with label := l, hasError := true } children

end Element

/-- The head of the node after its child `old` gave way to another; `children` are those after the
swap. A mark on the node itself survives: it shows as an error that `old` does not account for. -/
def Head.swap (h : Head) (l : Label) (old : Element) (children : List Element) : Head :=
  { h with
    label := l
    width := Element.widthOf children
    hasError := h.kind = .error || children.any Element.hasError || (h.hasError && !old.hasError) }

end CancellationLint
