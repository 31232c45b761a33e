import VarCensus.Scope.Resolver
import VarCensus.Proofs.ScopeRuns

/-!
# A resolver answers as its graph does

A resolver keeps the answers it has given and adds references to bindings as it goes. Neither can change what
a name means: lookups depend on the scopes and on the table of definitions, and a resolver touches neither.
`Serves g r` is the invariant of a resolver `r` that was made for the graph `g`: same scopes, same table, and
every remembered answer is the one that `g` gives. It carries over from one query to the next, and so to any
list of them.
-/

namespace VarCensus
namespace Scope

/-! ## What a lookup depends on -/

theorem Graph.lookupFrom?_congr {g g' : Graph} (hs : g'.scopes = g.scopes)
    (hd : g'.definitions = g.definitions) (name : String) :
    ∀ (steps : Nat) (scope : ScopeId), g'.lookupFrom? name steps scope = g.lookupFrom? name steps scope := by
  intro steps
  induction steps with
  | zero => intro scope; rfl
  | succ n ih =>
    intro scope
    simp only [lookupFrom?, lookupLocal?, parent?, hs, hd, ih]

theorem Graph.lookup?_congr {g g' : Graph} (hs : g'.scopes = g.scopes)
    (hd : g'.definitions = g.definitions) (scope : ScopeId) (name : String) :
    g'.lookup? scope name = g.lookup? scope name := by
  unfold lookup?
  rw [hs]
  exact lookupFrom?_congr hs hd name _ scope

/-! ## The invariant -/

/-- The resolver stands for the graph it was made from. -/
structure Resolver.Serves (g : Graph) (r : Resolver) : Prop where
  scopes : r.graph.scopes = g.scopes
  definitions : r.graph.definitions = g.definitions
  answers : ∀ scope name answer, r.answers[(scope, name)]? = some answer → answer = g.lookup? scope name

namespace Resolver

theorem serves_ofGraph (g : Graph) : Serves g (ofGraph g) where
  scopes := rfl
  definitions := rfl
  answers := by
    intro scope name answer h
    simp [ofGraph] at h

theorem graph_resolve (r : Resolver) (scope : ScopeId) (name : String) :
    (r.resolve scope name).2.graph = r.graph := by
  unfold resolve
  split <;> rfl

/-- **Remembered or looked up, the answer is the graph's.** -/
theorem Serves.resolve_fst {g : Graph} {r : Resolver} (h : Serves g r) (scope : ScopeId) (name : String) :
    (r.resolve scope name).1 = g.lookup? scope name := by
  unfold resolve
  split
  · next answer ha => exact h.answers scope name answer ha
  · exact Graph.lookup?_congr h.scopes h.definitions scope name

theorem Serves.resolve {g : Graph} {r : Resolver} (h : Serves g r) (scope : ScopeId) (name : String) :
    Serves g (r.resolve scope name).2 := by
  refine ⟨?_, ?_, ?_⟩
  · rw [graph_resolve]; exact h.scopes
  · rw [graph_resolve]; exact h.definitions
  · intro s n answer ha
    unfold Resolver.resolve at ha
    split at ha
    · exact h.answers s n answer ha
    · simp only [Std.HashMap.getElem?_insert] at ha
      split at ha
      · next hk =>
        simp only [beq_iff_eq, Prod.mk.injEq] at hk
        obtain ⟨rfl, rfl⟩ := hk
        cases ha
        exact Graph.lookup?_congr h.scopes h.definitions scope name
      · exact h.answers s n answer ha

/-- Noting a read adds its place to the binding that the graph names, and to none if it names none. -/
theorem Serves.graph_recordReference {g : Graph} {r : Resolver} (h : Serves g r) (scope : ScopeId)
    (name : String) (place : Location) :
    (r.recordReference scope name place).2.graph =
      match g.lookup? scope name with
      | none => r.graph
      | some id => r.graph.addReference id place := by
  have hfst := h.resolve_fst scope name
  have hgraph := graph_resolve r scope name
  unfold recordReference
  cases hr : r.resolve scope name with
  | mk answer r' =>
    rw [hr] at hfst hgraph
    simp only at hfst hgraph
    rw [← hfst]
    cases answer with
    | none => exact hgraph
    | some id => simp only [hgraph]

theorem Serves.recordReference {g : Graph} {r : Resolver} (h : Serves g r) (scope : ScopeId)
    (name : String) (place : Location) : Serves g (r.recordReference scope name place).2 := by
  have hres := h.resolve scope name
  unfold Resolver.recordReference
  cases hr : r.resolve scope name with
  | mk answer r' =>
    rw [hr] at hres
    cases answer with
    | none => exact hres
    | some id => exact ⟨hres.scopes, hres.definitions, hres.answers⟩

/-! ## One query after the other -/

end Resolver

/-- A name read in a scope, with the place if the read is to be noted. -/
structure Query where
  scope : ScopeId
  name : String
  place : Option Location
deriving DecidableEq, Repr

/-- The place to be noted with a binding, if a query means it. -/
def Query.notedOn? (g : Graph) (id : BindingId) (query : Query) : Option Location :=
  if g.lookup? query.scope query.name = some id then query.place else none

namespace Resolver

def answer (r : Resolver) (query : Query) : Option BindingId × Resolver :=
  match query.place with
  | some place => r.recordReference query.scope query.name place
  | none => r.resolve query.scope query.name

/-- The answers to queries, and the resolver after the last one. -/
def answerAll (r : Resolver) : List Query → List (Option BindingId) × Resolver
  | [] => ([], r)
  | query :: more =>
    ((r.answer query).1 :: ((r.answer query).2.answerAll more).1, ((r.answer query).2.answerAll more).2)

theorem recordReference_fst (r : Resolver) (scope : ScopeId) (name : String) (place : Location) :
    (r.recordReference scope name place).1 = (r.resolve scope name).1 := by
  unfold recordReference
  cases r.resolve scope name with
  | mk answer r' => cases answer <;> rfl

theorem Serves.answer_fst {g : Graph} {r : Resolver} (h : Serves g r) (query : Query) :
    (r.answer query).1 = g.lookup? query.scope query.name := by
  rw [← h.resolve_fst query.scope query.name]
  unfold Resolver.answer
  cases query.place with
  | none => rfl
  | some place => exact recordReference_fst r query.scope query.name place

theorem Serves.answer {g : Graph} {r : Resolver} (h : Serves g r) (query : Query) :
    Serves g (r.answer query).2 := by
  unfold Resolver.answer
  cases query.place with
  | none => exact h.resolve query.scope query.name
  | some place => exact h.recordReference query.scope query.name place

/-- A query adds its place, if it has one, to the binding it means, and leaves all others alone. -/
theorem Serves.bindings_answer {g : Graph} {r : Resolver} (h : Serves g r) (query : Query) (id : BindingId) :
    (r.answer query).2.graph.bindings[id]? = (r.graph.bindings[id]?).map fun b =>
      { b with references := b.references ++ (query.notedOn? g id).toList } := by
  unfold Resolver.answer Query.notedOn?
  cases query.place with
  | none => simp [graph_resolve]
  | some place =>
    simp only [h.graph_recordReference query.scope query.name place]
    cases hl : g.lookup? query.scope query.name with
    | none => simp
    | some k =>
      by_cases hk : k = id
      · simp [Graph.getElem?_addReference, hk]
      · simp [Graph.getElem?_addReference, hk]

theorem Serves.answerAll_fst {g : Graph} {queries : List Query} : ∀ {r : Resolver}, Serves g r →
    (r.answerAll queries).1 = queries.map fun query => g.lookup? query.scope query.name := by
  induction queries with
  | nil => intro r _; rfl
  | cons query more ih =>
    intro r h
    simp only [Resolver.answerAll, List.map_cons, h.answer_fst query, ih (h.answer query)]

theorem Serves.answerAll {g : Graph} {queries : List Query} : ∀ {r : Resolver}, Serves g r →
    Serves g (r.answerAll queries).2 := by
  induction queries with
  | nil => intro r h; exact h
  | cons query more ih => intro r h; exact ih (h.answer query)

/-- After a run of queries each binding has, behind its old references, the places of the queries that mean it,
in the order of the queries. -/
theorem Serves.bindings_answerAll {g : Graph} (queries : List Query) (id : BindingId) : ∀ {r : Resolver},
    Serves g r → (r.answerAll queries).2.graph.bindings[id]? = (r.graph.bindings[id]?).map fun b =>
      { b with references := b.references ++ queries.filterMap (·.notedOn? g id) } := by
  induction queries with
  | nil => intro r _; simp [Resolver.answerAll]
  | cons query more ih =>
    intro r h
    rw [Resolver.answerAll, ih (h.answer query), h.bindings_answer query id, Option.map_map]
    congr 1
    funext b
    cases hnoted : query.notedOn? g id with
    | none => simp [hnoted]
    | some place => simp [hnoted]

/-- What a resolver for `g` has answered to queries, and the graph it leaves behind. -/
structure Resolved (g : Graph) (queries : List Query) (answers : List (Option BindingId)) (after : Graph) :
    Prop where
  answers : answers = queries.map fun query => g.lookup? query.scope query.name
  /-- Every binding keeps its name, scope, declarations and references; behind these come the places of the
  queries that mean it. -/
  bindings : ∀ id : BindingId, after.bindings[id]? = (g.bindings[id]?).map fun b =>
    { b with references := b.references ++ queries.filterMap (·.notedOn? g id) }
  /-- A query that is answered has its place noted: no answer names a binding that is not there. -/
  noted : ∀ query ∈ queries, ∀ id place, g.lookup? query.scope query.name = some id → query.place = some place →
    ∃ b, after.bindings[id]? = some b ∧ place ∈ b.references
  /-- Scopes stay as they are, with their kinds and parents. -/
  scopes : after.scopes = g.scopes
  definitions : after.definitions = g.definitions

/-- **A resolver answers as its graph does, and no read is lost**, in any graph that a lawful run makes and for
any queries. -/
theorem answerAll_resolved (g : Graph) (hmade : g.Made) (queries : List Query) :
    Resolved g queries ((ofGraph g).answerAll queries).1 ((ofGraph g).answerAll queries).2.graph := by
  have h := serves_ofGraph g
  have hbindings (id : BindingId) : ((ofGraph g).answerAll queries).2.graph.bindings[id]? =
      (g.bindings[id]?).map fun b =>
        { b with references := b.references ++ queries.filterMap (·.notedOn? g id) } :=
    Serves.bindings_answerAll queries id h
  refine ⟨h.answerAll_fst, hbindings, ?_, h.answerAll.scopes, h.answerAll.definitions⟩
  intro query hquery id place hl hplace
  obtain ⟨b, hb⟩ := hmade.exists_binding hl
  have hnoted : query.notedOn? g id = some place := by simp [Query.notedOn?, hl, hplace]
  refine ⟨{ b with references := b.references ++ queries.filterMap (·.notedOn? g id) }, ?_, ?_⟩
  · rw [hbindings id, hb]
    rfl
  · exact List.mem_append_right _ (List.mem_filterMap.mpr ⟨query, hquery, hnoted⟩)

/-- Reads of a name in a block and around it, one of them asked for twice, and of a name that is bound nowhere. -/
def shadowedReads : List Query :=
  [⟨2, "x", some ⟨1, 9, 8⟩⟩, ⟨1, "x", some ⟨2, 1, 12⟩⟩, ⟨2, "x", none⟩, ⟨2, "y", some ⟨3, 1, 20⟩⟩]

theorem answerAll_resolved_shadowedReads :
    (Session.run Session.boundTwice).graph.Made ∧
    Resolved (Session.run Session.boundTwice).graph shadowedReads
      ((ofGraph (Session.run Session.boundTwice).graph).answerAll shadowedReads).1
      ((ofGraph (Session.run Session.boundTwice).graph).answerAll shadowedReads).2.graph :=
  have hmade : (Session.run Session.boundTwice).graph.Made := ⟨_, Session.lawful_boundTwice, rfl⟩
  ⟨hmade, answerAll_resolved _ hmade shadowedReads⟩

end Resolver
end Scope
end VarCensus
