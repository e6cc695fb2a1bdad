/-! # Concrete trees

What a grammar makes of a text: nodes with a kind and a span of bytes. A leaf stands for the text it
covers; what no leaf covers is blank space. Some nodes are extra (comments, directives), some were
made up by the grammar (missing), and some cover text that the grammar could not make sense of
(errors). -/

namespace CancellationLint

/-- `hasError` is set if the node itself, or a node in it, is an error or missing. -/
structure ConcreteHead where
  kind : String
  start : Nat
  stop : Nat
  extra : Bool
  missing : Bool
  error : Bool
  hasError : Bool
  deriving DecidableEq, Repr, Inhabited

inductive Concrete where
  | node (head : ConcreteHead) (children : List Concrete)
  deriving Repr, Inhabited

/-- A grammar gives the concrete tree of a text, or nothing if it has to give up. -/
abbrev Grammar := String → Option Concrete

namespace Concrete

def head : Concrete → ConcreteHead
  | .node h _ => h

def children : Concrete → List Concrete
  | .node _ children => children

end Concrete

/-- Extra nodes are trivia unless there is an error in them. -/
def ConcreteHead.isTrivia (h : ConcreteHead) : Bool := h.extra && !h.hasError

namespace Concrete

mutual

/-- The leaves that become tokens, in order. -/
def leaves : Concrete → List ConcreteHead
  | .node h children =>
    if h.isTrivia then [] else if children.isEmpty then [h] else leavesOf children

def leavesOf : List Concrete → List ConcreteHead
  | [] => []
  | c :: rest => c.leaves ++ leavesOf rest

end

end Concrete
end CancellationLint
