import VarCensus.Tree

/-!
# Patterns

A parameter or the left side of a declaration may be a pattern with several names in it. `patternSites`
lists the nodes that a pattern binds, in the order of the source. `isDestructuredWrite` asks the converse
from inside: whether a node, given the labels around it, is such a target of an assignment.
-/

namespace VarCensus

/-- A node by its path, with its label. -/
structure Site where
  path : TreePath
  label : Label
deriving DecidableEq, Repr

namespace Tree

/-- Whether nodes of this kind are names that a pattern binds. -/
def isTargetKind (kind : String) : Bool :=
  kind == "identifier" || kind == "shorthand_property_identifier_pattern"

/-- Whether all named children of nodes of this kind are patterns. -/
def isCollectionKind (kind : String) : Bool :=
  kind == "object_pattern" || kind == "array_pattern" || kind == "rest_pattern"

/-- The field that holds the pattern inside a node of this kind. -/
def patternField? (kind : String) : Option String :=
  if kind == "assignment_pattern" || kind == "object_assignment_pattern" then some "left"
  else if kind == "pair_pattern" then some "value"
  else if kind == "required_parameter" || kind == "optional_parameter" then some "pattern"
  else none

mutual

/-- The nodes that a pattern at a path binds. -/
def patternSites (path : TreePath) : Tree → List Site
  | .node label children =>
    if isTargetKind label.kind then [⟨path, label⟩]
    else if isCollectionKind label.kind then namedSites path 0 children
    else match patternField? label.kind with
      | some field => fieldSites path field 0 children
      | none => []

/-- The nodes that the named ones among the children from number `i` on bind. -/
def namedSites (path : TreePath) (i : Nat) : List Tree → List Site
  | [] => []
  | tree :: more =>
    (if tree.label.named then patternSites (i :: path) tree else []) ++ namedSites path (i + 1) more

/-- The nodes that the child in a field, among the children from number `i` on, binds. -/
def fieldSites (path : TreePath) (field : String) (i : Nat) : List Tree → List Site
  | [] => []
  | tree :: more =>
    if tree.label.field == field then patternSites (i :: path) tree else fieldSites path field (i + 1) more

end

/-- Whether a pattern of this kind passes being written to on to the child with the given field. -/
def passesWrite (kind field : String) : Bool :=
  isCollectionKind kind || (kind == "pair_pattern" && field == "value") ||
    ((kind == "assignment_pattern" || kind == "object_assignment_pattern") && field == "left")

/-- Whether writing to the pattern `child` is what the innermost of the labels around it does. `inside` is
set when `child` is not the node that was asked about but a pattern around it. -/
def isWrittenBy (inside : Bool) (child : Label) : List Label → Bool
  | [] => false
  | parent :: outer =>
    if passesWrite parent.kind child.field then isWrittenBy true parent outer
    else if parent.kind == "assignment_expression" || parent.kind == "for_in_statement" then
      inside && child.field == "left"
    else false

/-- Whether a node, with the labels around it from the inside out, is a target inside a pattern on the left
of an assignment. -/
def isDestructuredWrite (label : Label) (ancestors : List Label) : Bool :=
  isWrittenBy false label ancestors

end Tree
end VarCensus
