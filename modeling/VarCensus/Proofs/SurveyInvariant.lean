import Mathlib.Data.List.Forall2
import VarCensus.Proofs.LexicalScope
import VarCensus.Proofs.ScopeGraph

/-!
# What the first pass over a tree has gathered

The survey numbers scopes as it opens them, looks them up by number, and lets declarations rise along chains
of numbers. This module says what a survey means at every moment of the pass. `Agrees src s done` relates
the survey `s` to the list `done` of the names introduced so far, in the order of the pass: the graph defines
exactly those names in exactly those scopes, and the records are the recorded ones among them, with the same
numbers. `Encloses s scopes id` ties the number of a scope to the scopes that the tree shows around a place.

Both are kept by every step of the pass (`Agrees.add`, `Agrees.withScope`, `Encloses.mono`), hence by the
pass over a node, hence, along the tree, by the whole pass (`surveyed_survey`).
-/

namespace VarCensus
namespace Survey

open Scope (ScopeId Graph)

/-! ## Owners and numbers -/

/-- The number that stands for a scope. -/
def ScopeOf (s : Survey) : Owner → ScopeId → Prop
  | .wholeModule, id => id = Graph.root
  | .opener path, id => (path, id) ∈ s.opened

/-- The numbers of scopes are in order: zero is the module, and openers and numbers above zero belong to
each other. -/
structure Numbered (s : Survey) : Prop where
  top : s.graph.scopes[Graph.root]? = some ⟨none, .wholeModule⟩
  bounds : ∀ (path : TreePath) (id : Nat), (path, id) ∈ s.opened → 0 < id ∧ id < s.graph.scopes.size
  one : ∀ path id id', (path, id) ∈ s.opened → (path, id') ∈ s.opened → id = id'
  apart : ∀ path path' id, (path, id) ∈ s.opened → (path', id) ∈ s.opened → path = path'

theorem scopeOf_congr {s s' : Survey} (h : s'.opened = s.opened) (owner : Owner) (id : ScopeId) :
    s'.ScopeOf owner id ↔ s.ScopeOf owner id := by
  cases owner with
  | wholeModule => exact Iff.rfl
  | opener path => simp only [ScopeOf, h]

theorem Numbered.congr {s s' : Survey} (h : s.Numbered) (hs : s'.graph.scopes = s.graph.scopes)
    (ho : s'.opened = s.opened) : s'.Numbered where
  top := by rw [hs]; exact h.top
  bounds := by rw [hs, ho]; exact h.bounds
  one := by rw [ho]; exact h.one
  apart := by rw [ho]; exact h.apart

theorem Numbered.id_eq {s : Survey} (h : s.Numbered) {owner : Owner} {id id' : ScopeId}
    (hi : s.ScopeOf owner id) (hi' : s.ScopeOf owner id') : id = id' := by
  cases owner with
  | wholeModule => exact hi.trans hi'.symm
  | opener path => exact h.one path id id' hi hi'

theorem Numbered.owner_eq {s : Survey} (h : s.Numbered) {owner owner' : Owner} {id : ScopeId}
    (hi : s.ScopeOf owner id) (hi' : s.ScopeOf owner' id) : owner = owner' := by
  cases owner with
  | wholeModule =>
    cases owner' with
    | wholeModule => rfl
    | opener path =>
      have := (h.bounds path id hi').1
      rw [show id = 0 from hi] at this
      exact absurd this (Nat.lt_irrefl 0)
  | opener path =>
    cases owner' with
    | wholeModule =>
      have := (h.bounds path id hi).1
      rw [show id = 0 from hi'] at this
      exact absurd this (Nat.lt_irrefl 0)
    | opener path' => rw [h.apart path path' id hi hi']

/-! ## The scopes around a place, by number -/

/-- The scope with the number `id` is the first of the given scopes, and its chain runs through them. -/
def Encloses (s : Survey) (scopes : List Enclosure) (id : ScopeId) : Prop :=
  ∃ ids, s.graph.Chain id ids ∧
    List.Forall₂ (fun e i => s.ScopeOf e.owner i ∧ s.graph.kind? i = some e.kind) scopes ids

/-- The scopes of the first survey are scopes of the second, with the same numbers and owners. -/
structure Grows (s s' : Survey) : Prop where
  graph : s.graph.Extends s'.graph
  opened : ∀ entry ∈ s.opened, entry ∈ s'.opened

theorem Grows.trans {s s' s'' : Survey} (h : s.Grows s') (h' : s'.Grows s'') : s.Grows s'' :=
  ⟨h.graph.trans h'.graph, fun entry he => h'.opened entry (h.opened entry he)⟩

theorem grows_of_eq {s s' : Survey} (hs : s'.graph.scopes = s.graph.scopes)
    (ho : s'.opened = s.opened) : s.Grows s' :=
  ⟨fun id node hn => by rw [hs]; exact hn, fun entry he => by rw [ho]; exact he⟩

theorem Grows.scopeOf {s s' : Survey} (h : s.Grows s') {owner : Owner} {id : ScopeId}
    (hi : s.ScopeOf owner id) : s'.ScopeOf owner id := by
  cases owner with
  | wholeModule => exact hi
  | opener path => exact h.opened _ hi

theorem Encloses.mono {s s' : Survey} (hg : s.Grows s') {scopes : List Enclosure} {id : ScopeId}
    (h : s.Encloses scopes id) : s'.Encloses scopes id := by
  obtain ⟨ids, hc, hf⟩ := h
  have hkinds : ∀ i ∈ ids, (s.graph.kind? i).isSome := by
    clear hc
    induction hf with
    | nil => simp
    | cons hr _ ih =>
      intro i hi
      rcases List.mem_cons.mp hi with rfl | hi
      · rw [hr.2]
        rfl
      · exact ih i hi
  exact ⟨ids, hc.mono hg.graph hkinds,
    hf.imp fun _ _ hr => ⟨hg.scopeOf hr.1, hg.graph.kind? hr.2⟩⟩

theorem Encloses.scopeOf_innermost {s : Survey} {scopes : List Enclosure} {id : ScopeId}
    (h : s.Encloses scopes id) : s.ScopeOf (Spot.innermost scopes) id := by
  obtain ⟨ids, hc, hf⟩ := h
  obtain ⟨rest, rfl⟩ := hc.eq_cons
  cases hf with
  | cons hr _ => exact hr.1

theorem Encloses.lt_size {s : Survey} {scopes : List Enclosure} {id : Nat}
    (h : s.Encloses scopes id) : id < s.graph.scopes.size := by
  obtain ⟨ids, hc, hf⟩ := h
  obtain ⟨rest, rfl⟩ := hc.eq_cons
  cases hf with
  | cons hr _ =>
    obtain ⟨node, hn, -⟩ := Option.map_eq_some_iff.mp hr.2
    exact (Array.getElem?_eq_some_iff.mp hn).1

theorem Encloses.id_eq {s : Survey} (hn : s.Numbered) {scopes : List Enclosure} {id id' : ScopeId}
    (h : s.Encloses scopes id) (h' : s.Encloses scopes id') : id = id' :=
  hn.id_eq h.scopeOf_innermost h'.scopeOf_innermost

/-- Rising along numbers comes to the same scope as rising along the tree. -/
theorem Encloses.scopeOf_risen {s : Survey} {scopes : List Enclosure} {id : ScopeId}
    (h : s.Encloses scopes id) : s.ScopeOf (Spot.risen scopes) (s.graph.hoistingScope id) := by
  have hlt := h.lt_size
  obtain ⟨ids, hc, hf⟩ := h
  rw [hc.hoistingScope hlt]
  clear hc hlt
  unfold Spot.risen
  induction hf with
  | nil => rfl
  | @cons e i scopes ids hr _ ih =>
    have hk : (s.graph.kind? i).any Scope.Kind.hoists = e.kind.hoists := by rw [hr.2]; rfl
    by_cases hh : e.kind.hoists
    · simp only [List.find?_cons, hk, hh]
      exact hr.1
    · simp only [List.find?_cons, hk, hh]
      exact ih

/-! ## The invariant -/

/-- A record as the pass leaves it: name and place of its binder, and no reads yet. -/
def RecordOf (src : Source) (r : Record) (b : Binder) : Prop :=
  r.name = b.name src ∧ r.declaredAt = Tree.place b.site.label src ∧ r.reads = []

/-- The survey after the names in `done` have been introduced, in this order. -/
structure Agrees (src : Source) (s : Survey) (done : List Binder) : Prop where
  numbered : s.Numbered
  linked : s.graph.Linked
  unread : s.graph.Unread
  owned : ∀ b ∈ done, ∃ id, s.ScopeOf b.owner id
  defined : ∀ id name, (s.graph.lookupLocal? id name).isSome ↔
    ∃ b ∈ done, s.ScopeOf b.owner id ∧ b.name src = name
  declares : ∀ i id name, s.graph.Declares i id name ↔
    ∃ b, (done.filter (·.recorded))[i]? = some b ∧ s.ScopeOf b.owner id ∧ b.name src = name
  records : List.Forall₂ (RecordOf src) s.records.toList (done.filter (·.recorded))

theorem agrees_emptySurvey (src : Source) : Tree.emptySurvey.Agrees src [] where
  numbered :=
    ⟨rfl, by intro path id h; simp [Tree.emptySurvey] at h,
      by intro path id id' h; simp [Tree.emptySurvey] at h,
      by intro path path' id h; simp [Tree.emptySurvey] at h⟩
  linked := Graph.linked_empty
  unread := Graph.unread_empty
  owned := by simp
  defined := by simp [Tree.emptySurvey, Graph.empty, Graph.lookupLocal?]
  declares := by
    intro i id name
    constructor
    · intro h
      exact absurd h (Graph.not_declares_empty i id name)
    · rintro ⟨b, hb, -⟩
      simp at hb
  records := by simp [Tree.emptySurvey]

/-- One more name in a scope that is there. -/
theorem Agrees.add {src : Source} {s s' : Survey} {done : List Binder} (h : s.Agrees src done)
    {b : Binder} {id : ScopeId} (hid : s.ScopeOf b.owner id) (ho : s'.opened = s.opened)
    (hg : s'.graph =
      (s.graph.bind id (b.name src) (if b.recorded then some s.records.size else none)).2)
    (hr : List.Forall₂ (RecordOf src) s'.records.toList ((done ++ [b]).filter (·.recorded))) :
    s'.Agrees src (done ++ [b]) := by
  have hsize : s.records.size = (done.filter (·.recorded)).length := by
    have := h.records.length_eq
    simpa using this
  have hname (i : ScopeId) : s.ScopeOf b.owner i ↔ i = id :=
    ⟨fun hi => h.numbered.id_eq hi hid, fun hi => hi ▸ hid⟩
  refine ⟨h.numbered.congr (by rw [hg, Graph.scopes_bind]) ho, ?_, ?_, ?_, ?_, ?_, hr⟩
  · rw [hg]
    exact h.linked.bind _ _ _
  · rw [hg]
    exact h.unread.bind _ _ _
  · intro c hc
    simp only [scopeOf_congr ho]
    rcases List.mem_append.mp hc with hc | hc
    · exact h.owned c hc
    · rw [List.mem_singleton.mp hc]
      exact ⟨id, hid⟩
  · intro i name
    rw [hg, Graph.lookupLocal?_bind_isSome, h.defined i name]
    simp only [scopeOf_congr ho, List.mem_append, List.mem_singleton, or_and_right, exists_or,
      exists_eq_left, hname]
    rw [eq_comm (a := name)]
  · intro i scope name
    rw [hg, h.linked.declares_bind, h.declares i scope name]
    simp only [scopeOf_congr ho, List.filter_append]
    cases hb : b.recorded with
    | false => simp [hb]
    | true =>
      simp only [List.filter_cons, hb, ↓reduceIte, List.filter_nil, Option.some.injEq, hsize]
      constructor
      · rintro (⟨c, hc, hs, hn⟩ | ⟨rfl, rfl, rfl⟩)
        · have hlt := (List.getElem?_eq_some_iff.mp hc).1
          exact ⟨c, by rw [List.getElem?_append_left hlt]; exact hc, hs, hn⟩
        · exact ⟨b, by simp, hid, rfl⟩
      · rintro ⟨c, hc, hs, hn⟩
        -- the new record comes last, so a number is an old one or the new one
        rcases Nat.lt_trichotomy i (done.filter (·.recorded)).length with hlt | rfl | hgt
        · rw [List.getElem?_append_left hlt] at hc
          exact Or.inl ⟨c, hc, hs, hn⟩
        · simp only [List.getElem?_concat_length, Option.some.injEq] at hc
          subst hc
          exact Or.inr ⟨rfl, (hname scope).mp hs, hn.symm⟩
        · rw [List.getElem?_eq_none (by simp; omega)] at hc
          cases hc

theorem Agrees.bindSite {src : Source} {s : Survey} {done : List Binder} (h : s.Agrees src done)
    {owner : Owner} {id : ScopeId} (hid : s.ScopeOf owner id) (site : Site) :
    (Tree.bindSite src id s site).Agrees src (done ++ [⟨owner, site, false⟩]) :=
  h.add (b := ⟨owner, site, false⟩) hid rfl rfl (by
    simp only [List.filter_append, List.filter_cons, Bool.false_eq_true, ↓reduceIte, List.filter_nil,
      List.append_nil]
    exact h.records)

theorem Agrees.recordSite {src : Source} {s : Survey} {done : List Binder} (h : s.Agrees src done)
    {owner : Owner} {id : ScopeId} (hid : s.ScopeOf owner id) (site : Site) (kind : Kind)
    (value : String) :
    (Tree.recordSite src id s site kind value).Agrees src (done ++ [⟨owner, site, true⟩]) :=
  h.add (b := ⟨owner, site, true⟩) hid rfl rfl (by
    simp only [Tree.recordSite, Array.toList_push, List.filter_append, List.filter_cons, ↓reduceIte,
      List.filter_nil]
    exact List.rel_append h.records (.cons ⟨rfl, rfl, rfl⟩ .nil))

theorem Agrees.bindSites {src : Source} {s : Survey} {done : List Binder} (h : s.Agrees src done)
    {owner : Owner} {id : ScopeId} (hid : s.ScopeOf owner id) (sites : List Site) :
    (Tree.bindSites src id s sites).Agrees src (done ++ sites.map (⟨owner, ·, false⟩)) := by
  induction sites generalizing s done with
  | nil => simpa [Tree.bindSites] using h
  | cons site more ih =>
    have hstep := ih (h.bindSite hid site) ((scopeOf_congr rfl owner id).mpr hid)
    simpa [Tree.bindSites] using hstep

theorem opened_bindSites (src : Source) (id : ScopeId) (s : Survey) (sites : List Site) :
    (Tree.bindSites src id s sites).opened = s.opened := by
  induction sites generalizing s with
  | nil => rfl
  | cons site more ih => exact (ih (Tree.bindSite src id s site)).trans rfl

theorem scopes_bindSites (src : Source) (id : ScopeId) (s : Survey) (sites : List Site) :
    (Tree.bindSites src id s sites).graph.scopes = s.graph.scopes := by
  induction sites generalizing s with
  | nil => rfl
  | cons site more ih => exact (ih (Tree.bindSite src id s site)).trans (Graph.scopes_bind ..)

/-! ## Opening a scope -/

/-- The survey with one more scope, opened by the node at a path. -/
def withScope (s : Survey) (path : TreePath) (outer : ScopeId) (kind : Scope.Kind) : Survey :=
  { s with
    graph := (s.graph.addScope outer kind).2
    opened := (path, s.graph.scopes.size) :: s.opened }

theorem openScope_eq (src : Source) (path : TreePath) (tree : Tree) (outer : ScopeId) (kind : Scope.Kind)
    (s : Survey) :
    Tree.openScope src path tree outer kind s =
      (s.graph.scopes.size, Tree.bindSites src s.graph.scopes.size
        (Tree.bindSites src outer (s.withScope path outer kind) (Tree.outerSites path tree))
        (Tree.innerSites path tree)) := rfl

theorem grows_withScope (s : Survey) (path : TreePath) (outer : ScopeId) (kind : Scope.Kind) :
    s.Grows (s.withScope path outer kind) :=
  ⟨Graph.extends_addScope s.graph outer kind, fun _ he => List.mem_cons_of_mem _ he⟩

theorem Numbered.withScope {s : Survey} (h : s.Numbered) {path : TreePath} (outer : ScopeId)
    (kind : Scope.Kind) (hfresh : ∀ id, (path, id) ∉ s.opened) :
    (s.withScope path outer kind).Numbered where
  top := Graph.extends_addScope s.graph outer kind _ _ h.top
  bounds := by
    intro p id hp
    simp only [Survey.withScope, Graph.addScope, Array.size_push]
    have hpos : 0 < s.graph.scopes.size := (Array.getElem?_eq_some_iff.mp h.top).1
    rcases List.mem_cons.mp hp with heq | hp
    · cases heq
      omega
    · have := h.bounds p id hp
      omega
  one := by
    intro p id id' hp hp'
    rcases List.mem_cons.mp hp with heq | hp
    · rcases List.mem_cons.mp hp' with heq' | hp'
      · cases heq
        cases heq'
        rfl
      · cases heq
        exact absurd hp' (hfresh id')
    · rcases List.mem_cons.mp hp' with heq' | hp'
      · cases heq'
        exact absurd hp (hfresh id)
      · exact h.one p id id' hp hp'
  apart := by
    intro p p' id hp hp'
    -- the new number is above all old ones
    rcases List.mem_cons.mp hp with heq | hp
    · rcases List.mem_cons.mp hp' with heq' | hp'
      · cases heq
        cases heq'
        rfl
      · cases heq
        exact absurd (h.bounds p' _ hp').2 (Nat.lt_irrefl _)
    · rcases List.mem_cons.mp hp' with heq' | hp'
      · cases heq'
        exact absurd (h.bounds p _ hp).2 (Nat.lt_irrefl _)
      · exact h.apart p p' id hp hp'

theorem Agrees.withScope {src : Source} {s : Survey} {done : List Binder} (h : s.Agrees src done)
    {path : TreePath} (outer : ScopeId) (kind : Scope.Kind) (hfresh : ∀ id, (path, id) ∉ s.opened) :
    (s.withScope path outer kind).Agrees src done := by
  -- a name introduced before cannot belong to the scope opened now
  have hold {b : Binder} (hb : b ∈ done) (id : ScopeId) :
      (s.withScope path outer kind).ScopeOf b.owner id ↔ s.ScopeOf b.owner id := by
    refine ⟨fun hi => ?_, (grows_withScope s path outer kind).scopeOf⟩
    obtain ⟨id', hid'⟩ := h.owned b hb
    rw [(h.numbered.withScope outer kind hfresh).id_eq hi ((grows_withScope s path outer kind).scopeOf hid')]
    exact hid'
  refine ⟨h.numbered.withScope outer kind hfresh, h.linked, h.unread, ?_, ?_, ?_, h.records⟩
  · intro b hb
    obtain ⟨id, hid⟩ := h.owned b hb
    exact ⟨id, (hold hb id).mpr hid⟩
  · intro id name
    refine (h.defined id name).trans ?_
    refine exists_congr fun b => and_congr_right fun hb => ?_
    rw [hold hb id]
  · intro i id name
    refine (h.declares i id name).trans ?_
    refine exists_congr fun b => and_congr_right fun hb => ?_
    rw [hold (List.mem_filter.mp (List.mem_of_getElem? hb)).1 id]

theorem Encloses.withScope {s : Survey} {scopes : List Enclosure} {outer : Nat}
    (h : s.Encloses scopes outer) (path : TreePath) (kind : Scope.Kind) :
    (s.withScope path outer kind).Encloses (⟨.opener path, kind⟩ :: scopes) s.graph.scopes.size := by
  have hlt := h.lt_size
  obtain ⟨ids, hc, hf⟩ := h.mono (grows_withScope s path outer kind)
  have hnew : (s.withScope path outer kind).graph.scopes[s.graph.scopes.size]? = some ⟨some outer, kind⟩ := by
    simp [Survey.withScope, Graph.addScope]
  refine ⟨s.graph.scopes.size :: ids, .up ?_ hlt hc, .cons ⟨List.mem_cons_self, ?_⟩ hf⟩
  · simp only [Graph.parent?, hnew, Option.bind_some]
  · simp only [Graph.kind?, hnew, Option.map_some]

end Survey
end VarCensus
