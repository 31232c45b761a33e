import VarCensus.Location

/-!
# Syntax trees

The grammar family is read from a syntax tree. A node has a kind, the field under which its parent holds
it (if any), the range of the source it covers, and marks that tell named nodes from punctuation and faults
from sound code. Within one parent each field occurs at most once, so "the child in field `f`" is the first
one with that field.

A node is identified by its `Path`: the child numbers on the way to it from the root, the last one first.
Two nodes of one tree never have the same path, whatever their kinds and ranges.
-/

namespace VarCensus

/-- What a node says about itself. -/
structure Label where
  kind : String
  /-- The field of the parent that holds the node; empty if none does. -/
  field : String
  named : Bool
  /-- The node stands for text that could not be understood. -/
  isError : Bool
  /-- The node stands for something that should be there and is not. -/
  isMissing : Bool
  /-- There is a fault at the node or below it. -/
  hasError : Bool
  start : Nat
  stop : Nat
deriving DecidableEq, Repr, Inhabited

/-- The text that a node covers. -/
def Label.text (label : Label) (src : Source) : String :=
  src.slice label.start label.stop

/-- A syntax tree. -/
inductive Tree where
  | node (label : Label) (children : List Tree)
deriving Repr, Inhabited

/-- The child numbers from a node up to the root. -/
abbrev TreePath := List Nat

namespace Tree

def label : Tree → Label
  | .node label _ => label

def children : Tree → List Tree
  | .node _ children => children

/-- The child in a field. -/
def child? (tree : Tree) (field : String) : Option Tree :=
  tree.children.find? (·.label.field == field)

/-- The children of a node with their numbers. -/
def numberedChildren (tree : Tree) : List (Nat × Tree) :=
  (List.range tree.children.length).zip tree.children

/-- The child in a field, with its number. -/
def numberedChild? (tree : Tree) (field : String) : Option (Nat × Tree) :=
  tree.numberedChildren.find? (·.2.label.field == field)

/-! ## Reading a tree off its nodes -/

/-- Takes one node, with its depth, in front of the trees that follow it: those that lie deeper become its
children. -/
def attach (node : Nat × Label) (following : List (Nat × Tree)) : List (Nat × Tree) :=
  let below := following.takeWhile (node.1 < ·.1)
  (node.1, .node node.2 (below.map (·.2))) :: following.drop below.length

/-- The tree whose nodes are listed with their depths, every node before what lies below it. -/
def ofPreorder? (nodes : List (Nat × Label)) : Option Tree :=
  ((nodes.foldr attach []).head?).map (·.2)

/-! ## Faults -/

mutual

/-- The first fault of a tree, every node before what lies below it; only children that admit a fault
are entered. -/
def firstFault? : Tree → Option Label
  | .node label children =>
    if label.isError || label.isMissing then some label else firstFaultAmong? children

/-- The first fault of several trees. -/
def firstFaultAmong? : List Tree → Option Label
  | [] => none
  | tree :: more =>
    let here := if tree.label.hasError || tree.label.isMissing then firstFault? tree else none
    match here with
    | some fault => some fault
    | none => firstFaultAmong? more

end

end Tree
end VarCensus
