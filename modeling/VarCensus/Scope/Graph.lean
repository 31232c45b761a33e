import Std.Data.HashMap
import VarCensus.Location

/-!
# Scope graphs

The scopes of a source and the names bound in them. Scopes are numbered in the order in which they are
opened; number zero is the module itself. A binding collects the declarations that gave rise to it and the
places that turned out to read it, so declaring a name twice in one scope adds to one binding.

A scope may name any number as its parent. `scopeChain` follows parents outward for as many steps as there
are scopes, and one more: a chain without a loop visits every opened scope at most once and can only end in
one that was never opened.
-/

namespace VarCensus
namespace Scope

/-- The number of a scope. -/
abbrev ScopeId := Nat

/-- The number of a binding. -/
abbrev BindingId := Nat

/-- What opened a scope. -/
inductive Kind where
  | wholeModule
  | classBody
  | function
  | block
deriving DecidableEq, Repr

/-- Whether declarations that rise to the enclosing function stop at a scope of this kind. -/
def Kind.hoists : Kind → Bool
  | .wholeModule => true
  | .function => true
  | .classBody => false
  | .block => false

/-- An opened scope. -/
structure Node where
  /-- The scope around it; the module has none. -/
  parent : Option ScopeId
  kind : Kind
deriving DecidableEq, Repr

/-- A name bound in a scope. -/
structure Binding where
  name : String
  scope : ScopeId
  /-- The numbers of the records that declare it; parameters, imports and the like have none. -/
  declarations : List Nat
  /-- The places that read it, in the order in which they were added. -/
  references : List Location
deriving DecidableEq, Repr

/-- Scopes with their bindings. -/
structure Graph where
  scopes : Array Node
  bindings : Array Binding
  /-- The binding of a name in a scope. -/
  definitions : Std.HashMap (ScopeId × String) BindingId

namespace Graph

/-- The number of the module scope. -/
def root : ScopeId := 0

/-- The graph with nothing but the module scope. -/
def empty : Graph :=
  ⟨#[⟨none, .wholeModule⟩], #[], ∅⟩

/-- Opens a scope. -/
def addScope (g : Graph) (parent : ScopeId) (kind : Kind) : ScopeId × Graph :=
  (g.scopes.size, { g with scopes := g.scopes.push ⟨some parent, kind⟩ })

/-- The scope around a scope. -/
def parent? (g : Graph) (scope : ScopeId) : Option ScopeId :=
  g.scopes[scope]?.bind (·.parent)

/-- The kind of a scope. -/
def kind? (g : Graph) (scope : ScopeId) : Option Kind :=
  g.scopes[scope]?.map (·.kind)

/-- The binding of a name in this very scope. -/
def lookupLocal? (g : Graph) (scope : ScopeId) (name : String) : Option BindingId :=
  g.definitions[(scope, name)]?

/-- Adds a declaration to a binding. -/
def addDeclaration (g : Graph) (binding : BindingId) (declaration : Nat) : Graph :=
  { g with bindings := g.bindings.modify binding fun b =>
      { b with declarations := b.declarations ++ [declaration] } }

/-- The binding of a name in a scope, made if there is none yet. -/
def ensure (g : Graph) (scope : ScopeId) (name : String) : BindingId × Graph :=
  match g.lookupLocal? scope name with
  | some id => (id, g)
  | none =>
    (g.bindings.size,
      { g with
        bindings := g.bindings.push ⟨name, scope, [], []⟩
        definitions := g.definitions.insert (scope, name) g.bindings.size })

/-- Binds a name in a scope, for a record if one declares it. -/
def bind (g : Graph) (scope : ScopeId) (name : String) (declaration : Option Nat) : BindingId × Graph :=
  let (id, g) := g.ensure scope name
  match declaration with
  | some declaration => (id, g.addDeclaration id declaration)
  | none => (id, g)

/-- Adds a place that reads a binding; a number without a binding is passed over. -/
def addReference (g : Graph) (binding : BindingId) (place : Location) : Graph :=
  { g with bindings := g.bindings.modify binding fun b => { b with references := b.references ++ [place] } }

/-- The first scopes outward from a scope, as many as the first argument allows. -/
def chainFrom (g : Graph) : Nat → ScopeId → List ScopeId
  | 0, _ => []
  | steps + 1, scope =>
    scope :: match g.parent? scope with
      | some outer => g.chainFrom steps outer
      | none => []

/-- The scopes from a scope outward, itself first. -/
def scopeChain (g : Graph) (scope : ScopeId) : List ScopeId :=
  g.chainFrom (g.scopes.size + 1) scope

/-- The nearest scope, from a scope outward, where declarations that rise stop. -/
def hoistingScope (g : Graph) (scope : ScopeId) : ScopeId :=
  ((g.scopeChain scope).find? fun s => (g.kind? s).any Kind.hoists).getD root

/-- The binding of a name in the nearest scope that binds it, going outward at most so many scopes. -/
def lookupFrom? (g : Graph) (name : String) : Nat → ScopeId → Option BindingId
  | 0, _ => none
  | steps + 1, scope =>
    match g.lookupLocal? scope name with
    | some id => some id
    | none =>
      match g.parent? scope with
      | some outer => g.lookupFrom? name steps outer
      | none => none

/-- The binding that a name means when it is read in a scope. -/
def lookup? (g : Graph) (scope : ScopeId) (name : String) : Option BindingId :=
  g.lookupFrom? name (g.scopes.size + 1) scope

/-- A binding by its number. -/
def binding? (g : Graph) (id : BindingId) : Option Binding :=
  g.bindings[id]?

end Graph
end Scope
end VarCensus
