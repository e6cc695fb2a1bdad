import CancellationLint.Concrete.Basic

/-! # Concrete trees as rows

A concrete tree can be given as a list in pre-order, each node with the number of its children. Its
flags are one number: 1 for extra, 2 for missing, 4 for an error, 8 for a node with an error. -/

namespace CancellationLint

structure ConcreteRow where
  head : ConcreteHead
  children : Nat
  deriving DecidableEq, Repr

/-- The head with the flags that a number stands for. -/
def ConcreteHead.ofFlags (kind : String) (start stop flags : Nat) : ConcreteHead :=
  { kind, start, stop, extra := flags.testBit 0, missing := flags.testBit 1
    error := flags.testBit 2, hasError := flags.testBit 3 }

namespace Concrete

/-- Puts a row in front of the trees after it, the first of which become its children. -/
def ofRow? (row : ConcreteRow) (trees : List Concrete) : Option (List Concrete) :=
  let children := trees.take row.children
  if children.length = row.children then some (.node row.head children :: trees.drop row.children)
  else none

/-- The trees that rows stand for. -/
def forest? : List ConcreteRow → Option (List Concrete)
  | [] => some []
  | row :: rest => (forest? rest).bind (ofRow? row)

/-- The tree that rows stand for. -/
def ofRows? (rows : List ConcreteRow) : Option Concrete :=
  match forest? rows with
  | some [tree] => some tree
  | _ => none

end Concrete
end CancellationLint
