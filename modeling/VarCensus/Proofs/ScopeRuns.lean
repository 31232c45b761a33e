import Mathlib.Data.List.Chain
import VarCensus.Proofs.ScopeGraph
import VarCensus.Tree.Survey

/-!
# Whole runs on a scope graph

Three operations make a graph: a scope is opened, a name is bound, a read is noted. A `Session` is a graph
together with the numbers of the scopes that were handed out on the way, and a run is `Lawful` if every scope is
opened inside one that was handed out before. Nothing in the types asks for that, and a graph that was made
otherwise may go round in circles.

`Kept` is what each operation keeps, `Coherent` what it comes to for the tables and for the walks outward. The
last section shows that the first pass over a tree only makes lawful runs.
-/

namespace VarCensus
namespace Scope

/-- One operation on a scope graph. -/
inductive Operation where
  | addScope (parent : ScopeId) (kind : Kind)
  | bind (scope : ScopeId) (name : String) (declaration : Option Nat)
  | addReference (binding : BindingId) (place : Location)
deriving DecidableEq, Repr

/-- The record that an operation makes a declaration of a name in a scope. -/
def Operation.declared? (scope : ScopeId) (name : String) : Operation → Option Nat
  | .bind s n declaration => if s = scope ∧ n = name then declaration else none
  | .addScope _ _ => none
  | .addReference _ _ => none

theorem Operation.filterMap_declared?_concat (done : List Operation) (operation : Operation) (scope : ScopeId)
    (name : String) : (done ++ [operation]).filterMap (·.declared? scope name) =
      done.filterMap (·.declared? scope name) ++ (operation.declared? scope name).toList := by
  rw [List.filterMap_append, List.filterMap_cons, List.filterMap_nil]
  cases operation.declared? scope name <;> rfl

/-- A graph with the numbers of the scopes handed out so far, the latest first. -/
structure Session where
  graph : Graph
  opened : List ScopeId

namespace Session

/-- Before the first operation there is the module, and its number is known. -/
def start : Session :=
  ⟨.empty, [Graph.root]⟩

def step (s : Session) : Operation → Session
  | .addScope parent kind =>
    ⟨(s.graph.addScope parent kind).2, (s.graph.addScope parent kind).1 :: s.opened⟩
  | .bind scope name declaration => ⟨(s.graph.bind scope name declaration).2, s.opened⟩
  | .addReference binding place => ⟨s.graph.addReference binding place, s.opened⟩

/-- The session after some operations. -/
def run (operations : List Operation) : Session :=
  operations.foldl step start

/-- An operation may come next: a scope is only opened inside one that was handed out. -/
def Admits (s : Session) : Operation → Prop
  | .addScope parent _ => parent ∈ s.opened
  | .bind _ _ _ => True
  | .addReference _ _ => True

/-- Each of the operations may come when its turn is. -/
def Lawful : Session → List Operation → Prop
  | _, [] => True
  | s, operation :: more => s.Admits operation ∧ Lawful (s.step operation) more

theorem lawful_append {operations more : List Operation} : ∀ {s : Session},
    s.Lawful (operations ++ more) ↔ s.Lawful operations ∧ (operations.foldl step s).Lawful more := by
  induction operations with
  | nil => intro s; simp [Lawful]
  | cons operation rest ih =>
    intro s
    simp only [List.cons_append, Lawful, List.foldl_cons, ih, and_assoc]

end Session

/-! ## The declarations of a name -/

namespace Graph

/-- The records that declare a name in a scope, in the order in which they were added. -/
def declarationsOf (g : Graph) (scope : ScopeId) (name : String) : List Nat :=
  ((g.lookupLocal? scope name).bind fun id => g.bindings[id]?).elim [] (·.declarations)

theorem Linked.declarationsOf_eq {g : Graph} (h : g.Linked) {id : BindingId} {b : Binding}
    (hb : g.bindings[id]? = some b) : g.declarationsOf b.scope b.name = b.declarations := by
  have hlocal := (h b.scope b.name id).mpr ⟨b, hb, rfl, rfl⟩
  simp [declarationsOf, hlocal, hb]

theorem Linked.declarationsOf_ensure {g : Graph} (h : g.Linked) (scope : ScopeId) (name : String)
    (s : ScopeId) (n : String) : (g.ensure scope name).2.declarationsOf s n = g.declarationsOf s n := by
  rcases g.ensure_cases scope name with ⟨hg, -⟩ | ⟨hnone, hid, hb⟩
  · rw [hg]
  · unfold declarationsOf
    rw [lookupLocal?_ensure]
    by_cases hk : s = scope ∧ n = name
    · -- the fresh binding has no declarations, as little as a name without a binding
      obtain ⟨rfl, rfl⟩ := hk
      simp [hid, hb, hnone]
    · rw [if_neg hk]
      cases hl : g.lookupLocal? s n with
      | none => rfl
      | some id =>
        obtain ⟨b, hb', -⟩ := (h s n id).mp hl
        simp [hb', getElem?_ensure_of scope name hb']

/-- Binding a name for a record puts the record behind those that declared it before. -/
theorem Linked.declarationsOf_bind {g : Graph} (h : g.Linked) (scope : ScopeId) (name : String)
    (d : Option Nat) (s : ScopeId) (n : String) :
    (g.bind scope name d).2.declarationsOf s n =
      g.declarationsOf s n ++ (if scope = s ∧ name = n then d else none).toList := by
  cases d with
  | none => simp [bind_none, h.declarationsOf_ensure]
  | some i =>
    rw [← h.declarationsOf_ensure scope name s n, bind_some]
    have hg := h.ensure scope name
    have hid : (g.ensure scope name).2.lookupLocal? scope name = some (g.ensure scope name).1 := by
      simp [lookupLocal?_ensure]
    generalize (g.ensure scope name).2 = g', (g.ensure scope name).1 = id at hg hid
    have hsame : (g'.addDeclaration id i).lookupLocal? s n = g'.lookupLocal? s n := rfl
    unfold declarationsOf
    rw [hsame]
    cases hl : g'.lookupLocal? s n with
    | none =>
      have hk : ¬ (scope = s ∧ name = n) := by
        rintro ⟨rfl, rfl⟩
        rw [hl] at hid
        cases hid
      simp [hk]
    | some j =>
      obtain ⟨b, hb, hs, hn⟩ := (hg s n j).mp hl
      obtain ⟨b₀, hb₀, hs₀, hn₀⟩ := (hg scope name id).mp hid
      by_cases hj : id = j
      · subst hj
        rw [hb] at hb₀
        cases hb₀
        simp [getElem?_addDeclaration, hb, hs.symm.trans hs₀, hn.symm.trans hn₀]
      · have hk : ¬ (scope = s ∧ name = n) := by
          rintro ⟨rfl, rfl⟩
          rw [hl] at hid
          exact hj (Option.some.inj hid).symm
        simp [getElem?_addDeclaration, hb, hj, hk]

/-- Binding a name that is bound already changes nothing but the declarations of its binding. -/
theorem bind_of_lookupLocal? {g : Graph} {scope : ScopeId} {name : String} {id : BindingId}
    (h : g.lookupLocal? scope name = some id) (d : Option Nat) :
    g.bind scope name d = (id, { g with bindings := g.bindings.modify id fun b =>
      { b with declarations := b.declarations ++ d.toList } }) := by
  have he : g.ensure scope name = (id, g) := by simp [ensure, h]
  cases d with
  | none =>
    have hsame : (g.bindings.modify id fun b => { b with declarations := b.declarations ++ [] }) = g.bindings := by
      apply Array.ext_getElem?
      intro j
      by_cases hj : id = j
      · simp [Array.getElem?_modify, hj]
      · simp [Array.getElem?_modify, hj]
    simp only [bind, he, Option.toList_none, hsame]
  | some i => simp only [bind, he, addDeclaration, Option.toList_some]

end Graph

/-! ## What each operation keeps -/

namespace Session

/-- What holds after every operation of a lawful run. -/
structure Kept (done : List Operation) (s : Session) : Prop where
  linked : s.graph.Linked
  rooted : s.graph.scopes[Graph.root]? = some ⟨none, .wholeModule⟩
  /-- Every other scope lies in one that was opened earlier. -/
  nested : ∀ (id : ScopeId) (node : Node), s.graph.scopes[id]? = some node → id ≠ Graph.root →
    ∃ outer : Nat, node.parent = some outer ∧ outer < id
  numbered : s.opened = (List.range s.graph.scopes.size).reverse
  declared : ∀ scope name, s.graph.declarationsOf scope name = done.filterMap (·.declared? scope name)

theorem kept_start : start.Kept [] where
  linked := Graph.linked_empty
  rooted := rfl
  nested := by
    intro id node hn hid
    have hlt := (Array.getElem?_eq_some_iff.mp hn).1
    simp only [start, Graph.empty, List.size_toArray, List.length_singleton, Nat.lt_one_iff] at hlt
    exact absurd hlt hid
  numbered := rfl
  declared := by
    intro scope name
    simp [Graph.declarationsOf, Graph.lookupLocal?, start, Graph.empty]

theorem Kept.mem_opened {done : List Operation} {s : Session} (h : s.Kept done) {scope : ScopeId} :
    scope ∈ s.opened ↔ scope < s.graph.scopes.size := by
  simp [h.numbered]

theorem Kept.addScope {done : List Operation} {s : Session} (h : s.Kept done) {parent : ScopeId}
    (hp : parent ∈ s.opened) (kind : Kind) :
    (s.step (.addScope parent kind)).Kept (done ++ [.addScope parent kind]) where
  linked := h.linked
  rooted := s.graph.extends_addScope parent kind _ _ h.rooted
  nested := by
    intro id node hn hid
    simp only [step, Graph.addScope, Array.getElem?_push] at hn
    split at hn
    · next hsize =>
      cases hn
      exact ⟨parent, rfl, hsize ▸ h.mem_opened.mp hp⟩
    · exact h.nested id node hn hid
  numbered := by
    simp [step, Graph.addScope, h.numbered, List.range_succ]
  declared := by
    intro scope name
    rw [Operation.filterMap_declared?_concat, ← h.declared scope name]
    exact (List.append_nil _).symm

theorem Kept.bind {done : List Operation} {s : Session} (h : s.Kept done) (scope : ScopeId) (name : String)
    (d : Option Nat) : (s.step (.bind scope name d)).Kept (done ++ [.bind scope name d]) where
  linked := h.linked.bind scope name d
  rooted := by simpa [step] using h.rooted
  nested := by simpa [step] using h.nested
  numbered := by simpa [step] using h.numbered
  declared := by
    intro s' n'
    rw [Operation.filterMap_declared?_concat, ← h.declared s' n']
    exact h.linked.declarationsOf_bind scope name d s' n'

theorem Kept.addReference {done : List Operation} {s : Session} (h : s.Kept done) (id : BindingId)
    (place : Location) : (s.step (.addReference id place)).Kept (done ++ [.addReference id place]) where
  linked := h.linked.addReference id place
  rooted := h.rooted
  nested := h.nested
  numbered := h.numbered
  declared := by
    intro scope name
    rw [Operation.filterMap_declared?_concat, ← h.declared scope name]
    have hsame : (s.graph.addReference id place).lookupLocal? scope name = s.graph.lookupLocal? scope name := rfl
    simp only [step, Graph.declarationsOf, hsame, Operation.declared?, Option.toList_none, List.append_nil]
    cases hl : s.graph.lookupLocal? scope name with
    | none => rfl
    | some j =>
      obtain ⟨b, hb, -⟩ := (h.linked scope name j).mp hl
      by_cases hj : id = j
      · simp [Graph.getElem?_addReference, hb, hj]
      · simp [Graph.getElem?_addReference, hb, hj]

theorem Kept.step {done : List Operation} {s : Session} (h : s.Kept done) {operation : Operation}
    (ha : s.Admits operation) : (s.step operation).Kept (done ++ [operation]) := by
  cases operation with
  | addScope parent kind => exact h.addScope ha kind
  | bind scope name d => exact h.bind scope name d
  | addReference id place => exact h.addReference id place

theorem Kept.foldl {operations : List Operation} : ∀ {done : List Operation} {s : Session}, s.Kept done →
    s.Lawful operations → (operations.foldl Session.step s).Kept (done ++ operations) := by
  induction operations with
  | nil =>
    intro done s h _
    simpa using h
  | cons operation more ih =>
    intro done s h hlawful
    simpa using ih (h.step hlawful.1) hlawful.2

theorem kept_run {operations : List Operation} (h : start.Lawful operations) :
    (run operations).Kept operations :=
  kept_start.foldl h

end Session

/-! ## Walking outward -/

namespace Graph

/-- The scopes from a scope outward to the module, each with the next one around it. -/
structure Outward (g : Graph) (scope : ScopeId) (ids : List ScopeId) : Prop where
  first : ids.head? = some scope
  around : ids.IsChain fun inner outer => g.parent? inner = some outer
  decreasing : ids.Pairwise fun inner outer : Nat => outer < inner
  nodup : ids.Nodup
  last : ids.getLast? = some root

theorem Chain.isChain {g : Graph} {scope : ScopeId} {ids : List ScopeId} (h : g.Chain scope ids) :
    ids.IsChain fun inner outer : Nat => g.parent? inner = some outer ∧ outer < inner := by
  induction h with
  | top => simp
  | up hp hlt hrest ih =>
    obtain ⟨rest, rfl⟩ := hrest.eq_cons
    exact List.isChain_cons_cons.mpr ⟨⟨hp, hlt⟩, ih⟩

theorem Chain.outward {g : Graph} {scope : ScopeId} {ids : List ScopeId} (h : g.Chain scope ids)
    (hlast : ids.getLast? = some root) : g.Outward scope ids := by
  have hdecreasing : ids.Pairwise fun inner outer : Nat => outer < inner :=
    (h.isChain.imp fun _ _ hstep => hstep.2).pairwise
  refine ⟨?_, h.isChain.imp fun _ _ hstep => hstep.1, hdecreasing, hdecreasing.imp fun hlt => ?_, hlast⟩
  · obtain ⟨rest, rfl⟩ := h.eq_cons
    rfl
  · exact (Nat.ne_of_lt hlt).symm

theorem any_hoists_iff {kind : Option Kind} :
    kind.any Kind.hoists = true ↔ kind = some .wholeModule ∨ kind = some .function := by
  rcases kind with _ | (_ | _ | _ | _) <;> simp [Kind.hoists]

end Graph

namespace Session

theorem Kept.exists_chain {done : List Operation} {s : Session} (h : s.Kept done) :
    ∀ {scope : Nat}, scope < s.graph.scopes.size →
      ∃ ids, s.graph.Chain scope ids ∧ ids.getLast? = some Graph.root := by
  intro scope
  -- the scope around a scope has a smaller number
  induction scope using Nat.strongRecOn with
  | _ scope ih =>
    intro hlt
    have hn : s.graph.scopes[scope]? = some s.graph.scopes[scope] := Array.getElem?_eq_getElem hlt
    by_cases hroot : scope = Graph.root
    · subst hroot
      exact ⟨[Graph.root], .top (by simp [Graph.parent?, h.rooted]), rfl⟩
    · obtain ⟨outer, hp, houter⟩ := h.nested scope _ hn hroot
      obtain ⟨ids, hchain, hlast⟩ := ih outer houter (Nat.lt_trans houter hlt)
      refine ⟨scope :: ids, .up (by simp [Graph.parent?, hn, hp]) houter hchain, ?_⟩
      obtain ⟨rest, rfl⟩ := hchain.eq_cons
      rw [List.getLast?_cons_cons]
      exact hlast

/-- The walk from an opened scope is the chain of the scopes around it. -/
theorem Kept.chain_scopeChain {done : List Operation} {s : Session} (h : s.Kept done) {scope : ScopeId}
    (hs : scope ∈ s.opened) : s.graph.Chain scope (s.graph.scopeChain scope) ∧
      (s.graph.scopeChain scope).getLast? = some Graph.root := by
  have hlt := h.mem_opened.mp hs
  obtain ⟨ids, hchain, hlast⟩ := h.exists_chain hlt
  rw [hchain.scopeChain hlt]
  exact ⟨hchain, hlast⟩

theorem Kept.lookup? {done : List Operation} {s : Session} (h : s.Kept done) (scope : ScopeId) (name : String) :
    s.graph.lookup? scope name = (s.graph.scopeChain scope).findSome? (s.graph.lookupLocal? · name) := by
  by_cases hs : scope ∈ s.opened
  · exact (h.chain_scopeChain hs).1.lookup? (h.mem_opened.mp hs) name
  · -- nothing lies around a scope that was never opened
    have hnone : s.graph.scopes[scope]? = none :=
      Array.getElem?_eq_none (Nat.le_of_not_lt fun hlt => hs (h.mem_opened.mpr hlt))
    have htop : s.graph.Chain scope [scope] := .top (by simp [Graph.parent?, hnone])
    have hchain : s.graph.scopeChain scope = [scope] := htop.chainFrom (by simp)
    rw [hchain]
    exact htop.lookupFrom? name (by simp)

theorem Kept.hoistingScope {done : List Operation} {s : Session} (h : s.Kept done) {scope : ScopeId}
    (hs : scope ∈ s.opened) :
    (s.graph.scopeChain scope).find? (fun id =>
      s.graph.kind? id = some .wholeModule ∨ s.graph.kind? id = some .function) =
        some (s.graph.hoistingScope scope) := by
  obtain ⟨hchain, hlast⟩ := h.chain_scopeChain hs
  have hkind : s.graph.kind? Graph.root = some .wholeModule := by simp [Graph.kind?, h.rooted]
  simp only [← Graph.any_hoists_iff, Bool.decide_eq_true, Graph.hoistingScope]
  -- the module takes what rises, so the search finds something
  cases hfind : (s.graph.scopeChain scope).find? fun id => (s.graph.kind? id).any Kind.hoists with
  | some id => rfl
  | none =>
    have := List.find?_eq_none.mp hfind Graph.root (List.mem_of_getLast? hlast)
    rw [hkind] at this
    exact absurd rfl this

/-! ## Coherence -/

/-- What is true of the tables of a graph, and of the walks through it, after some operations. -/
structure Coherent (done : List Operation) (s : Session) : Prop where
  /-- The scopes have the numbers from zero on, in the order in which they were opened. -/
  numbered : s.opened = (List.range s.graph.scopes.size).reverse
  /-- The table of definitions and the bindings say the same. -/
  linked : ∀ scope name id, s.graph.definitions[(scope, name)]? = some id ↔
    ∃ b : Binding, s.graph.bindings[id]? = some b ∧ b.scope = scope ∧ b.name = name
  /-- No two bindings share scope and name. -/
  apart : ∀ (i j : BindingId) (a b : Binding), s.graph.bindings[i]? = some a → s.graph.bindings[j]? = some b →
    a.scope = b.scope → a.name = b.name → i = j
  /-- Binding a bound name once more only adds to its declarations. -/
  rebound : ∀ scope name id declaration, s.graph.definitions[(scope, name)]? = some id →
    s.graph.bind scope name declaration = (id, { s.graph with bindings := s.graph.bindings.modify id fun b =>
      { b with declarations := b.declarations ++ declaration.toList } })
  /-- The declarations of a binding are those given for its scope and name, in the order in which they were. -/
  declared : ∀ (id : BindingId) (b : Binding), s.graph.bindings[id]? = some b →
    b.declarations = done.filterMap (·.declared? b.scope b.name)
  outward : ∀ scope ∈ s.opened, s.graph.Outward scope (s.graph.scopeChain scope)
  /-- A name means its binding in the first scope outward that has one. -/
  lookup : ∀ scope name, s.graph.lookup? scope name =
    (s.graph.scopeChain scope).findSome? (s.graph.lookupLocal? · name)
  /-- Declarations that rise stop at the first module or function outward. -/
  hoisting : ∀ scope ∈ s.opened, (s.graph.scopeChain scope).find? (fun id =>
    s.graph.kind? id = some .wholeModule ∨ s.graph.kind? id = some .function) =
      some (s.graph.hoistingScope scope)

/-- **A scope graph stays coherent**, whatever scopes are opened, names bound and reads noted, and in whatever
order, as long as each scope is opened inside one that was handed out before. -/
theorem run_coherent (operations : List Operation) (hlawful : start.Lawful operations) :
    (run operations).Coherent operations := by
  have h := kept_run hlawful
  refine ⟨h.numbered, h.linked, fun i j a b ha hb hs hn => h.linked.unique ha hb hs hn, ?_, ?_, ?_, h.lookup?,
    fun scope hs => h.hoistingScope hs⟩
  · intro scope name id declaration hlocal
    exact Graph.bind_of_lookupLocal? hlocal declaration
  · intro id b hb
    rw [← h.declared b.scope b.name, h.linked.declarationsOf_eq hb]
  · intro scope hs
    obtain ⟨hchain, hlast⟩ := h.chain_scopeChain hs
    exact hchain.outward hlast

/-- A function with a block in it; a name bound outside, in the block, and outside again. -/
def boundTwice : List Operation :=
  [.addScope 0 .function, .bind 0 "x" (some 0), .addScope 1 .block, .bind 2 "x" (some 1), .bind 0 "x" (some 2),
    .addReference 1 ⟨1, 1, 0⟩]

theorem lawful_boundTwice : start.Lawful boundTwice := by
  simp [boundTwice, Lawful, Admits, start, step, Graph.addScope, Graph.empty, Graph.root]

theorem run_coherent_boundTwice : start.Lawful boundTwice ∧ (run boundTwice).Coherent boundTwice :=
  ⟨lawful_boundTwice, run_coherent boundTwice lawful_boundTwice⟩

end Session

/-! ## The first pass over a tree -/

namespace Graph

/-- The graph of a lawful run. -/
def Made (g : Graph) : Prop :=
  ∃ operations, Session.start.Lawful operations ∧ (Session.run operations).graph = g

/-- Whatever a name means is a binding that is there. -/
theorem Made.exists_binding {g : Graph} (h : g.Made) {scope : ScopeId} {name : String} {id : BindingId}
    (hl : g.lookup? scope name = some id) : ∃ b, g.bindings[id]? = some b := by
  obtain ⟨operations, hlawful, rfl⟩ := h
  have hkept := Session.kept_run hlawful
  rw [hkept.lookup?] at hl
  obtain ⟨outer, -, hlocal⟩ := List.exists_of_findSome?_eq_some hl
  obtain ⟨b, hb, -⟩ := (hkept.linked outer name id).mp hlocal
  exact ⟨b, hb⟩

/-- Whatever run made the first graph, some run makes the second, and the scopes of the first remain. -/
structure Leads (g g' : Graph) : Prop where
  made : g.Made → g'.Made
  size_le : g.scopes.size ≤ g'.scopes.size

theorem Leads.refl (g : Graph) : g.Leads g :=
  ⟨id, Nat.le_refl _⟩

theorem Leads.trans {g g' g'' : Graph} (h : g.Leads g') (h' : g'.Leads g'') : g.Leads g'' :=
  ⟨fun hg => h'.made (h.made hg), Nat.le_trans h.size_le h'.size_le⟩

theorem made_step {operations : List Operation} (h : Session.start.Lawful operations) (operation : Operation)
    (ha : (Session.run operations).Admits operation) : ((Session.run operations).step operation).graph.Made :=
  ⟨operations ++ [operation], Session.lawful_append.mpr ⟨h, ha, trivial⟩, by simp [Session.run]⟩

theorem leads_addScope {g : Graph} {parent : ScopeId} (hp : parent < g.scopes.size) (kind : Kind) :
    g.Leads (g.addScope parent kind).2 where
  made := by
    rintro ⟨operations, h, rfl⟩
    exact made_step h (.addScope parent kind) ((Session.kept_run h).mem_opened.mpr hp)
  size_le := by simp [addScope]

theorem leads_bind (g : Graph) (scope : ScopeId) (name : String) (d : Option Nat) :
    g.Leads (g.bind scope name d).2 where
  made := by
    rintro ⟨operations, h, rfl⟩
    exact made_step h (.bind scope name d) trivial
  size_le := by simp

end Graph
end Scope

namespace Tree

open Scope

theorem leads_bindSites (src : Source) (scope : ScopeId) (sites : List Site) : ∀ (gathered : Survey),
    gathered.graph.Leads (bindSites src scope gathered sites).graph := by
  induction sites with
  | nil => intro gathered; exact .refl _
  | cons site more ih => intro gathered; exact (Graph.leads_bind _ _ _ _).trans (ih (bindSite src scope gathered site))

theorem leads_declareNode (src : Source) (path : TreePath) (parent : Option Label) (tree : Tree)
    (scope : ScopeId) (gathered : Survey) :
    gathered.graph.Leads (declareNode src path parent tree scope gathered).graph := by
  unfold declareNode
  split
  · unfold declareVariable
    split
    · exact .refl _
    · dsimp only
      split
      · exact Graph.leads_bind _ _ _ _
      · exact leads_bindSites src _ _ gathered
  · split
    · unfold declareLoopVariable
      split
      · dsimp only
        split
        · exact Graph.leads_bind _ _ _ _
        · exact leads_bindSites src _ _ gathered
      · exact .refl _
    · exact leads_bindSites src _ _ gathered

/-- A scope that a node opens lies in the one it stands in. -/
theorem leads_enter (src : Source) (path : TreePath) (parent : Option Label) (tree : Tree) {scope : ScopeId}
    {gathered : Survey} (hs : scope < gathered.graph.scopes.size) :
    gathered.graph.Leads (enter src path parent tree scope gathered).2.graph ∧
      (enter src path parent tree scope gathered).1 <
        (enter src path parent tree scope gathered).2.graph.scopes.size := by
  unfold enter
  split
  · next kind _ =>
    have hopen := Graph.leads_addScope hs kind
    have hbind := (leads_bindSites src scope (outerSites path tree) ⟨(gathered.graph.addScope scope kind).2,
      (path, gathered.graph.scopes.size) :: gathered.opened, gathered.sites, gathered.records⟩).trans
        (leads_bindSites src gathered.graph.scopes.size (innerSites path tree) _)
    refine ⟨hopen.trans hbind, Nat.lt_of_lt_of_le ?_ hbind.size_le⟩
    simp [Graph.addScope, openScope]
  · exact ⟨.refl _, hs⟩

mutual

theorem leads_survey (src : Source) : ∀ (tree : Tree) (path : TreePath) (parent : Option Label) {scope : ScopeId}
    {gathered : Survey}, scope < gathered.graph.scopes.size →
      gathered.graph.Leads (survey src path parent scope gathered tree).graph
  | .node label children, path, parent, scope, gathered, hs => by
    rw [survey]
    obtain ⟨henter, hinner⟩ := leads_enter src path parent (.node label children) hs
    have hdeclare := leads_declareNode src path parent (.node label children)
      (enter src path parent (.node label children) scope gathered).1
      (enter src path parent (.node label children) scope gathered).2
    exact (henter.trans hdeclare).trans
      (leads_surveyAll src children path label 0 (Nat.lt_of_lt_of_le hinner hdeclare.size_le))

theorem leads_surveyAll (src : Source) : ∀ (children : List Tree) (path : TreePath) (parent : Label) (i : Nat)
    {scope : ScopeId} {gathered : Survey}, scope < gathered.graph.scopes.size →
      gathered.graph.Leads (surveyAll src path parent scope gathered i children).graph
  | [], path, parent, i, scope, gathered, _ => by
    rw [surveyAll]
    exact .refl _
  | tree :: more, path, parent, i, scope, gathered, hs => by
    rw [surveyAll]
    split
    · have htree := leads_survey src tree (i :: path) (some parent) hs
      exact htree.trans (leads_surveyAll src more path parent (i + 1) (Nat.lt_of_lt_of_le hs htree.size_le))
    · exact leads_surveyAll src more path parent (i + 1) hs

end

/-- **The first pass opens every scope inside one that it was handed before**: the graph of a tree is the graph
of a lawful run. -/
theorem made_surveyOf (src : Source) (tree : Tree) : (surveyOf src tree).graph.Made := by
  have hleads : emptySurvey.graph.Leads (surveyOf src tree).graph :=
    leads_survey src tree [] none Nat.zero_lt_one
  exact hleads.made ⟨[], trivial, rfl⟩

end Tree
end VarCensus
