import VarCensus.Scope.Graph

/-!
# Resolving names

A resolver answers, for a name read in a scope, which binding it means: the one in the nearest scope
outward that binds it. It remembers every answer, which is sound because a resolver adds references to
bindings and never a scope or a binding.
-/

namespace VarCensus
namespace Scope

/-- A scope graph with the answers given so far. -/
structure Resolver where
  graph : Graph
  answers : Std.HashMap (ScopeId × String) (Option BindingId)

namespace Resolver

/-- A resolver that has not answered yet. -/
def ofGraph (graph : Graph) : Resolver :=
  ⟨graph, ∅⟩

/-- The binding that a name means in a scope. -/
def resolve (r : Resolver) (scope : ScopeId) (name : String) : Option BindingId × Resolver :=
  match r.answers[(scope, name)]? with
  | some answer => (answer, r)
  | none =>
    let answer := r.graph.lookup? scope name
    (answer, { r with answers := r.answers.insert (scope, name) answer })

/-- Resolves a name and notes the place as one that reads the binding. -/
def recordReference (r : Resolver) (scope : ScopeId) (name : String) (place : Location) :
    Option BindingId × Resolver :=
  match r.resolve scope name with
  | (none, r) => (none, r)
  | (some binding, r) => (some binding, { r with graph := r.graph.addReference binding place })

end Resolver
end Scope
end VarCensus
