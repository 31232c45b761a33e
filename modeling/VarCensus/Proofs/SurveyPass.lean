import VarCensus.Proofs.SurveyInvariant

/-!
# The first pass keeps its invariant

One node is met in two steps: its scope is opened, if it has one, and then what it declares is declared. Each
step adds to the survey exactly the binders that the node has by `Spot.binders`. `Surveyed` says this of a
stretch of the pass, with what later lookups need beside it: every node of the stretch has its scope in the
graph, and no path got a scope that is not the path of such a node.

The induction is along the tree and, below a node, along its children from a number on. What makes it go
through is freshness: while the children from number `i` on are still ahead, no path through any of them has
a scope yet.
-/

namespace VarCensus
namespace Survey

open Scope (ScopeId Graph)

/-! ## A stretch of the pass -/

/-- The survey goes from `s` to `s'` by visiting the nodes `spots`, when `done` had been introduced before. -/
structure Surveyed (src : Source) (s s' : Survey) (done : List Binder) (spots : List Spot) : Prop where
  agrees : s'.Agrees src (done ++ spots.flatMap Spot.binders)
  grows : s.Grows s'
  placed : ∀ t ∈ spots, ∃ id, s'.Encloses t.scopes id
  accounted : ∀ path id, (path, id) ∈ s'.opened → (path, id) ∈ s.opened ∨
    ∃ t ∈ spots, t.path = path ∧ t.opens?.isSome

theorem Surveyed.trans {src : Source} {s s' s'' : Survey} {done : List Binder} {front back : List Spot}
    (h : Surveyed src s s' done front)
    (h' : Surveyed src s' s'' (done ++ front.flatMap Spot.binders) back) :
    Surveyed src s s'' done (front ++ back) := by
  refine ⟨?_, h.grows.trans h'.grows, ?_, ?_⟩
  · have := h'.agrees
    rwa [List.append_assoc, ← List.flatMap_append] at this
  · intro t ht
    rcases List.mem_append.mp ht with ht | ht
    · obtain ⟨id, hid⟩ := h.placed t ht
      exact ⟨id, hid.mono h'.grows⟩
    · exact h'.placed t ht
  · intro path id hp
    rcases h'.accounted path id hp with hp | ⟨t, ht, htp⟩
    · rcases h.accounted path id hp with hp | ⟨t, ht, htp⟩
      · exact Or.inl hp
      · exact Or.inr ⟨t, List.mem_append.mpr (Or.inl ht), htp⟩
    · exact Or.inr ⟨t, List.mem_append.mpr (Or.inr ht), htp⟩

theorem Surveyed.nil {src : Source} {s : Survey} {done : List Binder} (h : s.Agrees src done) :
    Surveyed src s s done [] where
  agrees := by rw [List.flatMap_nil, List.append_nil]; exact h
  grows := grows_of_eq rfl rfl
  placed := by simp
  accounted := fun _ _ hp => Or.inl hp

/-! ## Entering a node -/

theorem enter_eq (src : Source) (t : Spot) (scope : ScopeId) (s : Survey) :
    Tree.enter src t.path t.ancestors.head? t.tree scope s =
      match t.opens? with
      | some kind => Tree.openScope src t.path t.tree scope kind s
      | none => (scope, s) := rfl

/-- The scope for the inside of a node is the one that the tree shows, and opening it introduces the names
that come with it. -/
theorem enter_spec {src : Source} {s : Survey} {done : List Binder} (h : s.Agrees src done) (t : Spot)
    {scope : ScopeId} (hin : s.Encloses t.outerScopes scope) (hfresh : ∀ id, (t.path, id) ∉ s.opened) :
    let entered := Tree.enter src t.path t.ancestors.head? t.tree scope s
    entered.2.Agrees src (done ++ t.openerBinders) ∧ s.Grows entered.2 ∧
      entered.2.Encloses t.scopes entered.1 ∧
      ∀ path id, (path, id) ∈ entered.2.opened →
        (path, id) ∈ s.opened ∨ t.path = path ∧ t.opens?.isSome := by
  rw [Spot.scopes_eq, enter_eq]
  unfold Spot.openerBinders
  cases hk : t.opens? with
  | none =>
    refine ⟨?_, grows_of_eq rfl rfl, hin, fun path id hp => Or.inl hp⟩
    rw [List.append_nil]
    exact h
  | some kind =>
    simp only [openScope_eq]
    -- the new scope comes first, then the names it gives to the scope around it, then those it keeps
    have hg := grows_withScope s t.path scope kind
    have hwith := h.withScope scope kind hfresh
    have houter : (s.withScope t.path scope kind).ScopeOf (Spot.innermost t.outerScopes) scope :=
      hg.scopeOf hin.scopeOf_innermost
    have h1 := hwith.bindSites houter (Tree.outerSites t.path t.tree)
    have ho1 := opened_bindSites src scope (s.withScope t.path scope kind) (Tree.outerSites t.path t.tree)
    have hs1 := scopes_bindSites src scope (s.withScope t.path scope kind) (Tree.outerSites t.path t.tree)
    have hinner : (Tree.bindSites src scope (s.withScope t.path scope kind)
        (Tree.outerSites t.path t.tree)).ScopeOf (.opener t.path) s.graph.scopes.size := by
      rw [scopeOf_congr ho1]
      exact List.mem_cons_self
    have h2 := h1.bindSites hinner (Tree.innerSites t.path t.tree)
    have ho2 := opened_bindSites src s.graph.scopes.size (Tree.bindSites src scope
      (s.withScope t.path scope kind) (Tree.outerSites t.path t.tree)) (Tree.innerSites t.path t.tree)
    have hs2 := scopes_bindSites src s.graph.scopes.size (Tree.bindSites src scope
      (s.withScope t.path scope kind) (Tree.outerSites t.path t.tree)) (Tree.innerSites t.path t.tree)
    have hall := grows_of_eq (hs2.trans hs1) (ho2.trans ho1)
    refine ⟨?_, hg.trans hall, (hin.withScope t.path kind).mono hall, ?_⟩
    · rw [List.append_assoc] at h2
      exact h2
    · intro path id hp
      rw [ho2.trans ho1] at hp
      rcases List.mem_cons.mp hp with heq | hp
      · cases heq
        exact Or.inr ⟨rfl, rfl⟩
      · exact Or.inl hp

/-! ## Declaring what a node declares -/

/-- Declarations open no scope. -/
def Keeps (s s' : Survey) : Prop :=
  s'.graph.scopes = s.graph.scopes ∧ s'.opened = s.opened

theorem keeps_bindSites (src : Source) (id : ScopeId) (s : Survey) (sites : List Site) :
    s.Keeps (Tree.bindSites src id s sites) :=
  ⟨scopes_bindSites src id s sites, opened_bindSites src id s sites⟩

theorem keeps_recordSite (src : Source) (id : ScopeId) (s : Survey) (site : Site) (kind : Kind)
    (value : String) : s.Keeps (Tree.recordSite src id s site kind value) :=
  ⟨Graph.scopes_bind .., rfl⟩

/-- The scope that a declaration goes to by its number is the one it goes to by the tree. -/
theorem Encloses.scopeOf_declarationScope {s : Survey} {scopes : List Enclosure} {id : ScopeId}
    (h : s.Encloses scopes id) (rises : Bool) :
    s.ScopeOf (if rises then Spot.risen scopes else Spot.innermost scopes)
      (Tree.declarationScope s rises id) := by
  cases rises with
  | true => exact h.scopeOf_risen
  | false => exact h.scopeOf_innermost

theorem declareVariable_spec {src : Source} {s : Survey} {done : List Binder} (h : s.Agrees src done)
    (t : Spot) {scope : ScopeId} (hin : s.Encloses t.scopes scope) :
    let s' := Tree.declareVariable src t.path t.ancestors.head? t.tree scope s
    s'.Agrees src (done ++
      t.targetBinders (t.ancestors.head?.any (·.kind == "variable_declaration")) "name") ∧ s.Keeps s' := by
  have hid := hin.scopeOf_declarationScope (t.ancestors.head?.any (·.kind == "variable_declaration"))
  unfold Tree.declareVariable Spot.targetBinders
  cases Tree.fieldSite? t.path t.tree "name" with
  | none => exact ⟨by simpa using h, rfl, rfl⟩
  | some target =>
    simp only
    split
    · exact ⟨h.recordSite hid target _ _, keeps_recordSite ..⟩
    · exact ⟨h.bindSites hid _, keeps_bindSites ..⟩

theorem declareLoopVariable_spec {src : Source} {s : Survey} {done : List Binder} (h : s.Agrees src done)
    (t : Spot) {scope : ScopeId} (hin : s.Encloses t.scopes scope) :
    let s' := Tree.declareLoopVariable src t.path t.tree scope s
    s'.Agrees src (done ++ match t.tree.child? "kind" with
      | some keyword => t.targetBinders (keyword.label.kind == "var") "left"
      | none => []) ∧ s.Keeps s' := by
  unfold Tree.declareLoopVariable
  cases t.tree.child? "kind" with
  | none => exact ⟨by simpa using h, rfl, rfl⟩
  | some keyword =>
    have hid := hin.scopeOf_declarationScope (keyword.label.kind == "var")
    unfold Spot.targetBinders
    cases Tree.fieldSite? t.path t.tree "left" with
    | none => exact ⟨by simpa using h, rfl, rfl⟩
    | some target =>
      simp only
      split
      · exact ⟨h.recordSite hid target _ _, keeps_recordSite ..⟩
      · exact ⟨h.bindSites hid _, keeps_bindSites ..⟩

/-- Declarators import nothing. -/
theorem imports_eq_nil {t : Spot}
    (h : t.tree.label.kind = "variable_declarator" ∨ t.tree.label.kind = "for_in_statement") :
    t.imports = [] := by
  unfold Spot.imports Tree.importSites
  rcases h with h | h <;> simp [h]

theorem declareNode_spec {src : Source} {s : Survey} {done : List Binder} (h : s.Agrees src done)
    (t : Spot) {scope : ScopeId} (hin : s.Encloses t.scopes scope) :
    let s' := Tree.declareNode src t.path t.ancestors.head? t.tree scope s
    s'.Agrees src (done ++ (t.declarators ++ t.imports)) ∧ s.Keeps s' := by
  unfold Tree.declareNode Spot.declarators
  split
  · next hk =>
    rw [imports_eq_nil (Or.inl (beq_iff_eq.mp hk)), List.append_nil]
    exact declareVariable_spec h t hin
  · split
    · next hk =>
      rw [imports_eq_nil (Or.inr (beq_iff_eq.mp hk)), List.append_nil]
      exact declareLoopVariable_spec h t hin
    · rw [List.nil_append]
      have hroot : s.ScopeOf .wholeModule Graph.root := rfl
      exact ⟨h.bindSites hroot _, keeps_bindSites ..⟩

/-! ## The whole pass -/

/-- No path through the given one has a scope yet. -/
def Fresh (s : Survey) (path : TreePath) : Prop :=
  ∀ p id, (p, id) ∈ s.opened → ¬ path <:+ p

/-- One node: its scope, and then what it declares. -/
theorem surveyed_node {src : Source} {s : Survey} {done : List Binder} (h : s.Agrees src done) (t : Spot)
    {scope : ScopeId} (hin : s.Encloses t.outerScopes scope) (hfresh : s.Fresh t.path) :
    let entered := Tree.enter src t.path t.ancestors.head? t.tree scope s
    let s' := Tree.declareNode src t.path t.ancestors.head? t.tree entered.1 entered.2
    Surveyed src s s' done [t] ∧ s'.Encloses t.scopes entered.1 := by
  intro entered s'
  obtain ⟨h1, hg1, hin1, honly⟩ := enter_spec h t hin fun id hp => hfresh _ _ hp (List.suffix_refl _)
  obtain ⟨h2, hs, ho⟩ := declareNode_spec h1 t hin1
  have hg2 : entered.2.Grows s' := grows_of_eq hs ho
  refine ⟨⟨?_, hg1.trans hg2, ?_, ?_⟩, hin1.mono hg2⟩
  · rw [List.append_assoc] at h2
    simpa [Spot.binders] using h2
  · intro u hu
    rw [List.mem_singleton.mp hu]
    exact ⟨entered.1, hin1.mono hg2⟩
  · intro path id hp
    rw [show s'.opened = entered.2.opened from ho] at hp
    rcases honly path id hp with hp | hp
    · exact Or.inl hp
    · exact Or.inr ⟨t, List.mem_singleton.mpr rfl, hp⟩

/-- Everything visited below a path has a path through it. -/
theorem suffix_of_mem_nodesFrom {path : TreePath} {ancestors : List Label} {tree : Tree} {t : Spot}
    (h : t ∈ Spot.nodesFrom Label.named path ancestors tree) : path <:+ t.path := by
  have hr := (Spot.mem_nodesFrom Label.named path ancestors t tree).mp h
  clear h
  induction hr with
  | refl => exact List.suffix_refl _
  | tail _ hc ih =>
    obtain ⟨⟨i, c, -, rfl⟩, -⟩ := hc
    exact ih.trans (List.suffix_cons _ _)

/-- After one child the later ones are as fresh as before. -/
theorem Surveyed.fresh_sibling {src : Source} {s s' : Survey} {done : List Binder} {path : TreePath}
    {ancestors : List Label} {tree : Tree} {i k : Nat}
    (h : Surveyed src s s' done (Spot.nodesFrom Label.named (i :: path) ancestors tree)) (hik : i ≠ k)
    (hfresh : s.Fresh (k :: path)) : s'.Fresh (k :: path) := by
  intro p id hp hsuf
  rcases h.accounted p id hp with hp | ⟨t, ht, rfl, -⟩
  · exact hfresh p id hp hsuf
  · -- two suffixes of one length are the same
    have hsuf' := suffix_of_mem_nodesFrom ht
    have := List.suffix_of_suffix_length_le hsuf' hsuf (by simp)
    have := this.eq_of_length (by simp)
    simp only [List.cons.injEq, and_true] at this
    exact hik this

/-- After a node itself its children are fresh: their paths are longer than its own. -/
theorem Surveyed.fresh_child {src : Source} {s s' : Survey} {done : List Binder} {t : Spot}
    (h : Surveyed src s s' done [t]) (hfresh : s.Fresh t.path) (k : Nat) : s'.Fresh (k :: t.path) := by
  intro p id hp hsuf
  rcases h.accounted p id hp with hp | ⟨u, hu, rfl, -⟩
  · exact hfresh p id hp ((List.suffix_cons _ _).trans hsuf)
  · rw [List.mem_singleton.mp hu] at hsuf
    exact absurd hsuf.length_le (Nat.not_succ_le_self _)

mutual

/-- **The survey of a tree introduces the binders of its visited nodes, in order.** -/
theorem surveyed_survey (src : Source) :
    ∀ (tree : Tree) (path : TreePath) (ancestors : List Label) {scope : ScopeId} {s : Survey}
      {done : List Binder}, s.Agrees src done →
      s.Encloses (Spot.enclosures path.tail ancestors) scope → s.Fresh path →
      Surveyed src s (Tree.survey src path ancestors.head? scope s tree) done
        (Spot.nodesFrom Label.named path ancestors tree)
  | .node label children, path, ancestors, scope, s, done, h, hin, hfresh => by
    obtain ⟨hnode, hin'⟩ := surveyed_node h ⟨path, ancestors, .node label children⟩ hin hfresh
    rw [Tree.survey, Spot.nodesFrom]
    exact hnode.trans (surveyed_surveyAll src children hnode.agrees hin'
      fun k _ => hnode.fresh_child hfresh k)

theorem surveyed_surveyAll (src : Source) :
    ∀ (children : List Tree) {i : Nat} {path : TreePath} {label : Label} {outer : List Label}
      {scope : ScopeId} {s : Survey} {done : List Binder}, s.Agrees src done →
      s.Encloses (Spot.enclosures path (label :: outer)) scope → (∀ k ≥ i, s.Fresh (k :: path)) →
      Surveyed src s (Tree.surveyAll src path label scope s i children) done
        (Spot.nodesAmong Label.named path (label :: outer) i children)
  | [], i, path, label, outer, scope, s, done, h, _, _ => by
    rw [Tree.surveyAll, Spot.nodesAmong]
    exact .nil h
  | tree :: more, i, path, label, outer, scope, s, done, h, hin, hfresh => by
    rw [Tree.surveyAll, Spot.nodesAmong]
    by_cases hn : tree.label.named
    · simp only [hn, ↓reduceIte]
      have hhead : Surveyed src s (Tree.survey src (i :: path) (some label) scope s tree) done
          (Spot.nodesFrom Label.named (i :: path) (label :: outer) tree) :=
        surveyed_survey src tree (i :: path) (label :: outer) h hin (hfresh i (Nat.le_refl i))
      exact hhead.trans (surveyed_surveyAll src more hhead.agrees (hin.mono hhead.grows)
        fun k hk => hhead.fresh_sibling (by omega) (hfresh k (by omega)))
    · simp only [hn, Bool.false_eq_true, ↓reduceIte, List.nil_append]
      exact surveyed_surveyAll src more h hin fun k hk => hfresh k (by omega)

end

/-- The survey of a whole tree, from nothing. -/
theorem surveyed_surveyOf (src : Source) (tree : Tree) :
    Surveyed src Tree.emptySurvey (Tree.surveyOf src tree) [] (Spot.visited tree) := by
  refine surveyed_survey src tree [] [] (agrees_emptySurvey src) ?_ ?_
  · exact ⟨[Graph.root], .top rfl, .cons ⟨rfl, rfl⟩ .nil⟩
  · intro p id hp
    simp [Tree.emptySurvey] at hp

end Survey
end VarCensus
