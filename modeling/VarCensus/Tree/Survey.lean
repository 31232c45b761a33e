import VarCensus.Record
import VarCensus.Scope.Graph
import VarCensus.Tree.Pattern
import VarCensus.Tree.Value

/-!
# Scopes and declarations of a syntax tree

The first pass over a tree. It opens a scope for every node that has one, binds every name that a
declaration, a parameter, an import or a pattern introduces, and makes a record of each declared variable
whose target is a plain name.

A declaration with `var` rises to the enclosing function; every other one stays in the innermost scope. The
body of a function or of a catch clause is no scope of its own: it shares the one of its owner.
-/

namespace VarCensus

/-- What the first pass gathers. -/
structure Survey where
  graph : Scope.Graph
  /-- The scope that each node with a scope of its own opened. -/
  opened : List (TreePath × Scope.ScopeId)
  /-- The nodes that bind a name. -/
  sites : List TreePath
  records : Array Record

namespace Tree

/-- The location of a node. -/
def place (label : Label) (src : Source) : Location :=
  Location.atOffset src label.start

/-! ## Which nodes open a scope -/

def isFunctionDeclarationKind (kind : String) : Bool :=
  kind == "function_declaration" || kind == "generator_function_declaration"

/-- Nodes whose body shares their scope. -/
def ownsBody (kind : String) : Bool :=
  isFunctionDeclarationKind kind || isFunctionKind kind || kind == "method_definition" ||
    kind == "class_static_block" || kind == "catch_clause"

/-- Nodes that open the scope of a function. -/
def opensFunctionScope (kind : String) : Bool :=
  isFunctionDeclarationKind kind || isFunctionKind kind || kind == "method_definition" ||
    kind == "function_signature" || kind == "method_signature" || kind == "abstract_method_signature" ||
    kind == "call_signature" || kind == "construct_signature" || kind == "function_type" ||
    kind == "class_static_block"

def opensClassScope (kind : String) : Bool :=
  kind == "class" || kind == "class_declaration" || kind == "abstract_class_declaration"

def opensBlockScope (kind : String) : Bool :=
  kind == "for_statement" || kind == "for_in_statement" || kind == "catch_clause" ||
    kind == "switch_statement"

/-- Whether a node is the body of a parent that shares its scope with it. -/
def isOwnedBody (parent : Option Label) (label : Label) : Bool :=
  label.field == "body" && parent.any fun p => ownsBody p.kind

/-- The kind of scope that a node below the given parent opens, if it opens one. -/
def scopeKind? (parent : Option Label) (label : Label) : Option Scope.Kind :=
  if !label.named then none
  else if opensFunctionScope label.kind then some .function
  else if opensClassScope label.kind then some .classBody
  else if label.kind == "statement_block" then
    if isOwnedBody parent label then none else some .block
  else if opensBlockScope label.kind then some .block
  else none

/-! ## Which names a scope brings with it -/

/-- The child in a field, as a site. -/
def fieldSite? (path : TreePath) (tree : Tree) (field : String) : Option Site :=
  (tree.numberedChild? field).map fun (i, child) => ⟨i :: path, child.label⟩

/-- The names that the child in a field binds as a pattern. -/
def fieldPattern (path : TreePath) (tree : Tree) (field : String) : List Site :=
  fieldSites path field 0 tree.children

/-- Declarations whose own name belongs to the scope around them. -/
def namesOutside (kind : String) : Bool :=
  isFunctionDeclarationKind kind || kind == "function_signature" || kind == "class_declaration" ||
    kind == "abstract_class_declaration"

/-- Expressions whose own name is known only inside them. -/
def namesInside (kind : String) : Bool :=
  kind == "function_expression" || kind == "function" || kind == "generator_function" || kind == "class"

/-- The names that the opener of a scope binds in the scope around it. -/
def outerSites (path : TreePath) (tree : Tree) : List Site :=
  if namesOutside tree.label.kind then (fieldSite? path tree "name").toList else []

/-- The names that the opener of a scope binds in that scope: its own, where only the inside knows it, and
its parameters. -/
def innerSites (path : TreePath) (tree : Tree) : List Site :=
  let kind := tree.label.kind
  let own := if namesInside kind then (fieldSite? path tree "name").toList else []
  let single := if kind == "catch_clause" || kind == "arrow_function" then fieldPattern path tree "parameter"
    else []
  let listed := match tree.numberedChild? "parameters" with
    | some (i, parameters) => namedSites (i :: path) 0 parameters.children
    | none => []
  own ++ single ++ listed

/-- The names that an import node binds. -/
def importSites (path : TreePath) (tree : Tree) : List Site :=
  let kind := tree.label.kind
  if kind == "import_specifier" then
    if (tree.child? "alias").isSome then fieldPattern path tree "alias" else fieldPattern path tree "name"
  else if kind == "import_clause" || kind == "namespace_import" then
    tree.numberedChildren.filterMap fun (i, child) =>
      if child.label.named && child.label.kind == "identifier" then some ⟨i :: path, child.label⟩ else none
  else []

/-! ## The pass -/

/-- The survey before the first node. -/
def emptySurvey : Survey :=
  ⟨.empty, [], [], #[]⟩

/-- Binds the name at a site. -/
def bindSite (src : Source) (scope : Scope.ScopeId) (survey : Survey) (site : Site) : Survey :=
  { survey with
    sites := site.path :: survey.sites
    graph := (survey.graph.bind scope (site.label.text src) none).2 }

/-- Binds the names at several sites. -/
def bindSites (src : Source) (scope : Scope.ScopeId) (survey : Survey) (sites : List Site) : Survey :=
  sites.foldl (bindSite src scope) survey

/-- Makes a record of the variable at a site and binds its name. -/
def recordSite (src : Source) (scope : Scope.ScopeId) (survey : Survey) (site : Site) (kind : Kind)
    (value : String) : Survey :=
  let name := site.label.text src
  { survey with
    records := survey.records.push ⟨name, value, kind, [], place site.label src⟩
    sites := site.path :: survey.sites
    graph := (survey.graph.bind scope name (some survey.records.size)).2 }

/-- Opens the scope of a node and binds the names that come with it. -/
def openScope (src : Source) (path : TreePath) (tree : Tree) (outer : Scope.ScopeId) (kind : Scope.Kind)
    (survey : Survey) : Scope.ScopeId × Survey :=
  let (inner, graph) := survey.graph.addScope outer kind
  let survey := { survey with graph := graph, opened := (path, inner) :: survey.opened }
  let survey := bindSites src outer survey (outerSites path tree)
  (inner, bindSites src inner survey (innerSites path tree))

/-- The scope in which a declaration is bound that stands in the given one. -/
def declarationScope (survey : Survey) (rises : Bool) (scope : Scope.ScopeId) : Scope.ScopeId :=
  if rises then survey.graph.hoistingScope scope else scope

/-- Declares the variables of one declarator. -/
def declareVariable (src : Source) (path : TreePath) (parent : Option Label) (tree : Tree)
    (scope : Scope.ScopeId) (survey : Survey) : Survey :=
  match fieldSite? path tree "name" with
  | none => survey
  | some target =>
    let scope := declarationScope survey (parent.any (·.kind == "variable_declaration")) scope
    if target.label.kind == "identifier" then
      let (kind, value) := match tree.child? "value" with
        | some value => valueOf src value
        | none => (.uninitialized, noValue)
      recordSite src scope survey target kind value
    else bindSites src scope survey (fieldPattern path tree "name")

/-- Declares the variables of a loop over the members of something. -/
def declareLoopVariable (src : Source) (path : TreePath) (tree : Tree) (scope : Scope.ScopeId)
    (survey : Survey) : Survey :=
  match tree.child? "kind", fieldSite? path tree "left" with
  | some keyword, some target =>
    let scope := declarationScope survey (keyword.label.kind == "var") scope
    if target.label.kind == "identifier" then recordSite src scope survey target .uninitialized noValue
    else bindSites src scope survey (fieldPattern path tree "left")
  | _, _ => survey

/-- Declares what one node declares by itself. -/
def declareNode (src : Source) (path : TreePath) (parent : Option Label) (tree : Tree)
    (scope : Scope.ScopeId) (survey : Survey) : Survey :=
  if tree.label.kind == "variable_declarator" then declareVariable src path parent tree scope survey
  else if tree.label.kind == "for_in_statement" then declareLoopVariable src path tree scope survey
  else bindSites src Scope.Graph.root survey (importSites path tree)

/-- The scope that holds for the inside of a node, opened if the node has one of its own. -/
def enter (src : Source) (path : TreePath) (parent : Option Label) (tree : Tree) (scope : Scope.ScopeId)
    (survey : Survey) : Scope.ScopeId × Survey :=
  match scopeKind? parent tree.label with
  | some kind => openScope src path tree scope kind survey
  | none => (scope, survey)

mutual

/-- Surveys a tree at a path, below a parent and in a scope. -/
def survey (src : Source) (path : TreePath) (parent : Option Label) (scope : Scope.ScopeId)
    (gathered : Survey) : Tree → Survey
  | .node label children =>
    let (scope, gathered) := enter src path parent (.node label children) scope gathered
    let gathered := declareNode src path parent (.node label children) scope gathered
    surveyAll src path label scope gathered 0 children

/-- Surveys the named ones among the children from number `i` on. -/
def surveyAll (src : Source) (path : TreePath) (parent : Label) (scope : Scope.ScopeId)
    (gathered : Survey) (i : Nat) : List Tree → Survey
  | [] => gathered
  | tree :: more =>
    let gathered := if tree.label.named then survey src (i :: path) (some parent) scope gathered tree
      else gathered
    surveyAll src path parent scope gathered (i + 1) more

end

/-- The survey of a whole tree. -/
def surveyOf (src : Source) (tree : Tree) : Survey :=
  survey src [] none Scope.Graph.root emptySurvey tree

end Tree
end VarCensus
