import VarCensus.Text.Upper
import VarCensus.Scope.Resolver
import VarCensus.Tree.Survey

/-!
# Reads of a syntax tree

The second pass over a tree lists the places where a variable is read, in the order of the source, each
with the scope it stands in. An identifier reads a variable unless it binds a name, is only written to,
belongs to the plumbing of modules, or is the name of a plain markup tag.
-/

namespace VarCensus

/-- A place where a name is read. -/
structure Read where
  scope : Scope.ScopeId
  name : String
  place : Location
deriving DecidableEq, Repr

namespace Tree

/-- Whether a name opens with an upper-case letter. -/
def isCapitalised (name : String) : Bool :=
  (name.toList.head?).any Text.isUpper

/-- Whether an identifier that binds nothing reads a variable, as far as its parent tells. -/
def readsUnder (src : Source) (parent label : Label) : Bool :=
  if parent.kind == "assignment_expression" || parent.kind == "augmented_assignment_expression" ||
      parent.kind == "for_in_statement" then label.field != "left"
  else if parent.kind == "export_specifier" then label.field != "alias"
  else if parent.kind == "import_specifier" || parent.kind == "import_clause" ||
      parent.kind == "namespace_import" then false
  else if parent.kind == "jsx_closing_element" then false
  else if parent.kind == "jsx_opening_element" || parent.kind == "jsx_self_closing_element" then
    label.field != "name" || isCapitalised (label.text src)
  else true

/-- Whether the identifier at a path, with the labels around it from the inside out, reads a variable. -/
def isRead (src : Source) (sites : List TreePath) (path : TreePath) (ancestors : List Label)
    (label : Label) : Bool :=
  !sites.contains path &&
    match ancestors with
    | [] => true
    | parent :: _ => !isDestructuredWrite label ancestors && readsUnder src parent label

def isIdentifierKind (kind : String) : Bool :=
  kind == "identifier" || kind == "shorthand_property_identifier"

mutual

/-- The reads of a tree at a path, below the given labels and in a scope. -/
def reads (src : Source) (gathered : Survey) (path : TreePath) (ancestors : List Label)
    (scope : Scope.ScopeId) : Tree → List Read
  | .node label children =>
    let scope := (gathered.opened.lookup path).getD scope
    if isIdentifierKind label.kind then
      if isRead src gathered.sites path ancestors label then
        [⟨scope, label.text src, place label src⟩]
      else []
    else readsAll src gathered path (label :: ancestors) scope 0 children

/-- The reads of the named ones among the children from number `i` on. -/
def readsAll (src : Source) (gathered : Survey) (path : TreePath) (ancestors : List Label)
    (scope : Scope.ScopeId) (i : Nat) : List Tree → List Read
  | [] => []
  | tree :: more =>
    (if tree.label.named then reads src gathered (i :: path) ancestors scope tree else []) ++
      readsAll src gathered path ancestors scope (i + 1) more

end

/-- The reads of a whole tree. -/
def readsOf (src : Source) (gathered : Survey) (tree : Tree) : List Read :=
  reads src gathered [] [] Scope.Graph.root tree

/-- Notes each read with the binding it means. -/
def resolveReads (graph : Scope.Graph) (reads : List Read) : Scope.Graph :=
  (reads.foldl (fun resolver read => (resolver.recordReference read.scope read.name read.place).2)
    (Scope.Resolver.ofGraph graph)).graph

/-- Gives each record the places that read its binding. -/
def attachReads (graph : Scope.Graph) (records : List Record) : List Record :=
  records.mapIdx fun i record =>
    match graph.bindings.find? (·.declarations.contains i) with
    | some binding => { record with reads := binding.references }
    | none => record

/-- The variables that a tree without faults declares. -/
def recordsOf (src : Source) (tree : Tree) : List Record :=
  let gathered := surveyOf src tree
  let graph := resolveReads gathered.graph (readsOf src gathered tree)
  Record.sortByPlace (attachReads graph gathered.records.toList)

end Tree
end VarCensus
