import VarCensus.Extraction
import VarCensus.Proofs.NameResolver
import VarCensus.Proofs.SurveyPass

/-!
# Reads go to the binding that the tree shows

The second pass walks the tree again. It finds the scope of each node in the table that the first pass left
behind, looks names up outward from there, remembers the answers, and hands the collected places to the
records. The main statement, `extract_reads_lexical`, says that all this comes to the rule of `Tree.Means`: a
read belongs to a record exactly when the record declares the name read, in the innermost scope around the
read that binds that name.

Three facts carry it. The scope number that the walk holds at a node is the one of the node's innermost scope
(`encloses_walked`), a lookup by number follows the rule (`Encloses.lookup?_eq_some_iff`), and the references
of a binding are the places of the reads that were looked up to it (`bindings_resolveReads`).
-/

namespace VarCensus

open Scope (ScopeId BindingId Graph Resolver)

/-! ## Looking up along the tree -/

namespace Survey

/-- A scope binds a name in the tree when the graph defines it there. -/
theorem binds_iff {src : Source} {tree : Tree} {owner : Owner} {id : ScopeId} {name : String}
    (hid : (Tree.surveyOf src tree).ScopeOf owner id) :
    tree.Binds src owner name ↔ ((Tree.surveyOf src tree).graph.lookupLocal? id name).isSome := by
  have h := (surveyed_surveyOf src tree).agrees
  rw [List.nil_append] at h
  rw [h.defined id name]
  constructor
  · rintro ⟨t, ht, b, hb, rfl, hn⟩
    exact ⟨b, List.mem_flatMap.mpr ⟨t, Spot.mem_visited.mpr ht, hb⟩, hid, hn⟩
  · rintro ⟨b, hb, hs, hn⟩
    obtain ⟨t, ht, hbt⟩ := List.mem_flatMap.mp hb
    exact ⟨t, Spot.mem_visited.mp ht, b, hbt, h.numbered.owner_eq hs hid, hn⟩

/-- **Lookup by number follows the tree.** The induction is along the scopes around the place: the graph
stops at the first number that defines the name, the tree at the first owner that binds it. -/
theorem Encloses.lookup?_eq_some_iff {src : Source} {tree : Tree} {scopes : List Enclosure} {id : ScopeId}
    (h : (Tree.surveyOf src tree).Encloses scopes id) (name : String) (k : BindingId) :
    (Tree.surveyOf src tree).graph.lookup? id name = some k ↔
      ∃ owner i, tree.Means src name scopes owner ∧ (Tree.surveyOf src tree).ScopeOf owner i ∧
        (Tree.surveyOf src tree).graph.lookupLocal? i name = some k := by
  have hnum := (surveyed_surveyOf src tree).agrees.numbered
  have hlt := h.lt_size
  obtain ⟨ids, hc, hf⟩ := h
  rw [hc.lookup? hlt name]
  clear hc hlt
  induction hf with
  | nil =>
    simp only [List.findSome?_nil]
    constructor
    · intro hk
      cases hk
    · rintro ⟨owner, i, hm, -⟩
      cases hm
  | @cons e i scopes ids hr _ ih =>
    rw [List.findSome?_cons]
    cases hl : (Tree.surveyOf src tree).graph.lookupLocal? i name with
    | some j =>
      -- the tree cannot pass this scope by either, so the binding found is the one meant
      have hb : tree.Binds src e.owner name := (binds_iff hr.1).mpr (by rw [hl]; rfl)
      simp only [Option.some.injEq]
      constructor
      · rintro rfl
        exact ⟨e.owner, i, .here hb, hr.1, hl⟩
      · rintro ⟨owner, i', hm, hs, hk⟩
        cases hm with
        | here => rw [hnum.id_eq hs hr.1, hl] at hk; exact Option.some.inj hk
        | outward hnot => exact absurd hb hnot
    | none =>
      have hnot : ¬ tree.Binds src e.owner name := by
        rw [binds_iff hr.1, hl]
        simp
      refine Iff.trans ih ?_
      constructor
      · rintro ⟨owner, i', hm, hs⟩
        exact ⟨owner, i', .outward hnot hm, hs⟩
      · rintro ⟨owner, i', hm, hs⟩
        cases hm with
        | here hb => exact absurd hb hnot
        | outward _ hm => exact ⟨owner, i', hm, hs⟩

theorem Numbered.lookup_eq_some_iff {s : Survey} (h : s.Numbered) {path : TreePath} {id : ScopeId} :
    s.opened.lookup path = some id ↔ (path, id) ∈ s.opened := by
  have hmem {i : ScopeId} (hl : s.opened.lookup path = some i) : (path, i) ∈ s.opened := by
    obtain ⟨front, back, heq, -⟩ := List.lookup_eq_some_iff.mp hl
    rw [heq]
    simp
  constructor
  · exact hmem
  · intro hi
    cases hl : s.opened.lookup path with
    | none =>
      have := List.lookup_eq_none_iff.mp hl _ hi
      simp at this
    | some j => rw [h.one path j id (hmem hl) hi]

/-- The scope that the walk goes on with at a node is the innermost one around it. -/
theorem encloses_walked {src : Source} {tree : Tree} {t : Spot} (ht : t.VisitedIn tree) {scope : ScopeId}
    (hin : (Tree.surveyOf src tree).Encloses t.outerScopes scope) :
    (Tree.surveyOf src tree).Encloses t.scopes
      (((Tree.surveyOf src tree).opened.lookup t.path).getD scope) := by
  have hs := surveyed_surveyOf src tree
  have hnum := hs.agrees.numbered
  cases hk : t.opens? with
  | some kind =>
    obtain ⟨id, hid⟩ := hs.placed t (Spot.mem_visited.mpr ht)
    have hmem : (t.path, id) ∈ (Tree.surveyOf src tree).opened := by
      have := hid.scopeOf_innermost
      rw [Spot.scopes_eq, hk] at this
      exact this
    rw [hnum.lookup_eq_some_iff.mpr hmem]
    exact hid
  | none =>
    have hnone : (Tree.surveyOf src tree).opened.lookup t.path = none := by
      cases hl : (Tree.surveyOf src tree).opened.lookup t.path with
      | none => rfl
      | some id =>
        -- whoever opened a scope at this path is this very node
        rcases hs.accounted t.path id (hnum.lookup_eq_some_iff.mp hl) with hp | ⟨u, hu, hup, hopen⟩
        · simp [Tree.emptySurvey] at hp
        · rw [(Spot.mem_visited.mp hu).isIn.eq_of_path ht.isIn hup, hk] at hopen
          cases hopen
    rw [hnone, Spot.scopes_eq, hk]
    exact hin

end Survey

/-! ## The reads of a tree -/

namespace Tree

/-- The read that a node is. -/
def ReadAt (src : Source) (whole : Tree) (t : Spot) (r : Read) : Prop :=
  t.IsReference src whole ∧ (surveyOf src whole).Encloses t.scopes r.scope ∧
    r.name = t.tree.label.text src ∧ r.place = place t.tree.label src

mutual

/-- The reads below a node are those of the nodes that can be walked to from it. -/
theorem mem_reads {src : Source} {whole : Tree} {r : Read} :
    ∀ (tree : Tree) (path : TreePath) (ancestors : List Label) (scope : ScopeId),
      (⟨path, ancestors, tree⟩ : Spot).VisitedIn whole →
      (surveyOf src whole).Encloses (Spot.enclosures path.tail ancestors) scope →
      (r ∈ reads src (surveyOf src whole) path ancestors scope tree ↔
        ∃ t, Relation.ReflTransGen Spot.WalksTo ⟨path, ancestors, tree⟩ t ∧ ReadAt src whole t r)
  | .node label children, path, ancestors, scope, hv, hin => by
    have hin' := Survey.encloses_walked hv hin
    have hnum := (Survey.surveyed_surveyOf src whole).agrees.numbered
    rw [reads]
    by_cases hid : isIdentifierKind label.kind
    · simp only [hid, ↓reduceIte]
      -- the walk ends here
      have hstay (t : Spot) : Relation.ReflTransGen Spot.WalksTo ⟨path, ancestors, .node label children⟩ t ↔
          t = ⟨path, ancestors, .node label children⟩ := by
        constructor
        · intro h
          rcases Relation.ReflTransGen.cases_head h with rfl | ⟨u, ⟨-, hno⟩, -⟩
          · rfl
          · rw [show isIdentifierKind label.kind = false from hno] at hid
            cases hid
        · rintro rfl
          exact Relation.ReflTransGen.refl
      simp only [hstay, exists_eq_left]
      by_cases hr : isRead src (surveyOf src whole).sites path ancestors label
      · simp only [hr, ↓reduceIte, List.mem_singleton]
        constructor
        · rintro rfl
          exact ⟨⟨hid, hr⟩, hin', rfl, rfl⟩
        · rintro ⟨-, hscope, hname, hplace⟩
          obtain ⟨s, n, p⟩ := r
          simp only at hscope hname hplace
          rw [hscope.id_eq hnum hin', hname, hplace]
          rfl
      · simp only [hr, Bool.false_eq_true, ↓reduceIte, List.not_mem_nil, false_iff]
        rintro ⟨⟨-, hr'⟩, -⟩
        exact hr hr'
    · simp only [hid, Bool.false_eq_true, ↓reduceIte]
      rw [mem_readsAll children 0 path label ancestors _ (fun k c hk hn => ?_) hin']
      · constructor
        · rintro ⟨k, c, hk, hn, t, ht, hrt⟩
          rw [Nat.zero_add] at ht
          exact ⟨t, ht.head ⟨⟨⟨k, c, hk, rfl⟩, hn⟩, Bool.eq_false_iff.mpr hid⟩, hrt⟩
        · rintro ⟨t, ht, hrt⟩
          rcases Relation.ReflTransGen.cases_head ht with rfl | ⟨u, ⟨⟨⟨k, c, hk, rfl⟩, hn⟩, -⟩, hu⟩
          · exact absurd hrt.1.1 hid
          · exact ⟨k, c, hk, hn, t, by rw [Nat.zero_add]; exact hu, hrt⟩
      · rw [Nat.zero_add]
        exact hv.tail ⟨⟨k, c, hk, rfl⟩, hn⟩

theorem mem_readsAll {src : Source} {whole : Tree} {r : Read} :
    ∀ (children : List Tree) (i : Nat) (path : TreePath) (label : Label) (outer : List Label)
      (scope : ScopeId),
      (∀ k c, children[k]? = some c → c.label.named = true →
        (⟨(i + k) :: path, label :: outer, c⟩ : Spot).VisitedIn whole) →
      (surveyOf src whole).Encloses (Spot.enclosures path (label :: outer)) scope →
      (r ∈ readsAll src (surveyOf src whole) path (label :: outer) scope i children ↔
        ∃ k c, children[k]? = some c ∧ c.label.named = true ∧
          ∃ t, Relation.ReflTransGen Spot.WalksTo ⟨(i + k) :: path, label :: outer, c⟩ t ∧
            ReadAt src whole t r)
  | [], i, path, label, outer, scope, _, _ => by simp [readsAll]
  | tree :: more, i, path, label, outer, scope, hv, hin => by
    have hmore (k : Nat) (c : Tree) (hk : more[k]? = some c) (hn : c.label.named = true) :
        (⟨(i + 1 + k) :: path, label :: outer, c⟩ : Spot).VisitedIn whole := by
      rw [Nat.add_assoc, Nat.add_comm 1]
      exact hv (k + 1) c hk hn
    rw [readsAll, List.mem_append, mem_readsAll more (i + 1) path label outer scope hmore hin]
    constructor
    · rintro (hhead | ⟨k, c, hk, hn, t, ht, hrt⟩)
      · by_cases hn : tree.label.named
        · rw [if_pos hn, mem_reads tree (i :: path) (label :: outer) scope (hv 0 tree rfl hn) hin] at hhead
          exact ⟨0, tree, rfl, hn, hhead⟩
        · rw [if_neg hn] at hhead
          simp at hhead
      · rw [Nat.add_assoc, Nat.add_comm 1] at ht
        exact ⟨k + 1, c, hk, hn, t, ht, hrt⟩
    · rintro ⟨k, c, hk, hn, hrt⟩
      cases k with
      | zero =>
        simp only [List.getElem?_cons_zero, Option.some.injEq] at hk
        subst hk
        rw [if_pos hn, mem_reads tree (i :: path) (label :: outer) scope (hv 0 tree rfl hn) hin]
        exact Or.inl hrt
      | succ k =>
        refine Or.inr ⟨k, c, hk, hn, ?_⟩
        rw [Nat.add_assoc, Nat.add_comm 1]
        exact hrt

end

theorem mem_readsOf {src : Source} {tree : Tree} {r : Read} :
    r ∈ readsOf src (surveyOf src tree) tree ↔ ∃ t : Spot, t.WalkedIn tree ∧ ReadAt src tree t r :=
  mem_reads tree [] [] Graph.root Relation.ReflTransGen.refl
    (Survey.Encloses.mono (Survey.surveyed_surveyOf src tree).grows
      ⟨[Graph.root], .top rfl, .cons ⟨rfl, rfl⟩ .nil⟩)

/-! ## From reads to records -/

/-- Noting reads one after the other is answering them as queries. -/
theorem foldl_recordReference_eq (reads : List Read) : ∀ (r : Resolver),
    reads.foldl (fun r read => (r.recordReference read.scope read.name read.place).2) r =
      (r.answerAll (reads.map fun read => ⟨read.scope, read.name, some read.place⟩)).2 := by
  induction reads with
  | nil => intro r; rfl
  | cons read more ih => intro r; exact ih (r.recordReference read.scope read.name read.place).2

/-- Once the reads are resolved, each binding has, after its old references, the places of the reads that mean
it, in the order of the reads. -/
theorem bindings_resolveReads (g : Graph) (reads : List Read) (id : BindingId) :
    (resolveReads g reads).bindings[id]? =
      (g.bindings[id]?).map fun b =>
        { b with references := b.references ++
            (reads.filter fun read => g.lookup? read.scope read.name == some id).map (·.place) } := by
  have hplaces : (reads.map fun read => (⟨read.scope, read.name, some read.place⟩ : Scope.Query)).filterMap
      (·.notedOn? g id) = (reads.filter fun read => g.lookup? read.scope read.name == some id).map (·.place) := by
    rw [List.filterMap_map, ← List.filterMap_eq_map, List.filterMap_filter]
    simp [Scope.Query.notedOn?, Function.comp_def]
  rw [resolveReads, foldl_recordReference_eq,
    Resolver.Serves.bindings_answerAll _ id (Resolver.serves_ofGraph g), hplaces]
  rfl

/-- The places that mean a binding. -/
def placesOf (src : Source) (tree : Tree) (id : BindingId) : List Location :=
  ((readsOf src (surveyOf src tree) tree).filter fun read =>
    (surveyOf src tree).graph.lookup? read.scope read.name == some id).map (·.place)

/-- A recorded binder of the tree, with the number of its binding. -/
structure Recorded (src : Source) (tree : Tree) (b : Binder) (id : BindingId) : Prop where
  declared : ∃ t : Spot, t.VisitedIn tree ∧ b ∈ t.declarators
  recorded : b.recorded = true
  bound : ∃ scope, (surveyOf src tree).ScopeOf b.owner scope ∧
    (surveyOf src tree).graph.lookupLocal? scope (b.name src) = some id

/-- One scope and one name are one binding. -/
theorem Recorded.id_eq {src : Source} {tree : Tree} {b b' : Binder} {id id' : BindingId}
    (h : Recorded src tree b id) (h' : Recorded src tree b' id') (howner : b.owner = b'.owner)
    (hname : b.name src = b'.name src) : id = id' := by
  have hnum := (Survey.surveyed_surveyOf src tree).agrees.numbered
  obtain ⟨scope, hscope, hlocal⟩ := h.bound
  obtain ⟨scope', hscope', hlocal'⟩ := h'.bound
  rw [howner] at hscope
  rw [hname, hnum.id_eq hscope hscope', hlocal'] at hlocal
  exact (Option.some.inj hlocal).symm

/-- Only declarators are recorded. -/
theorem mem_declarators_of_recorded {t : Spot} {b : Binder} (hb : b ∈ t.binders)
    (hr : b.recorded = true) : b ∈ t.declarators := by
  unfold Spot.binders Spot.openerBinders Spot.imports at hb
  rcases List.mem_append.mp hb with hb | hb
  · split at hb
    · rcases List.mem_append.mp hb with hb | hb
      · obtain ⟨site, -, rfl⟩ := List.mem_map.mp hb
        cases hr
      · obtain ⟨site, -, rfl⟩ := List.mem_map.mp hb
        cases hr
    · simp at hb
  · rcases List.mem_append.mp hb with hb | hb
    · exact hb
    · obtain ⟨site, -, rfl⟩ := List.mem_map.mp hb
      cases hr

/-- Binders and records have the same numbers: the record of the `i`-th recorded binder. -/
theorem recorded_of_getElem? (src : Source) {tree : Tree} {i : Nat} {b : Binder}
    (hb : (((Spot.visited tree).flatMap Spot.binders).filter (·.recorded))[i]? = some b) :
    ∃ id β, Recorded src tree b id ∧ (surveyOf src tree).graph.bindings[id]? = some β ∧
      β.references = [] ∧ i ∈ β.declarations ∧
      ∀ (j : BindingId) (β' : Scope.Binding), (surveyOf src tree).graph.bindings[j]? = some β' →
        i ∈ β'.declarations → j = id := by
  have h := (Survey.surveyed_surveyOf src tree).agrees
  rw [List.nil_append] at h
  obtain ⟨hmem, hrec⟩ := List.mem_filter.mp (List.mem_of_getElem? hb)
  obtain ⟨scope, hscope⟩ := h.owned b hmem
  obtain ⟨id, β, hβ, hs, hn, hi⟩ := (h.declares i scope (b.name src)).mpr ⟨b, hb, hscope, rfl⟩
  obtain ⟨t, ht, hbt⟩ := List.mem_flatMap.mp hmem
  refine ⟨id, β, ⟨⟨t, Spot.mem_visited.mp ht, mem_declarators_of_recorded hbt hrec⟩, hrec,
    scope, hscope, (h.linked scope _ id).mpr ⟨β, hβ, hs, hn⟩⟩, hβ, h.unread id β hβ, hi, ?_⟩
  intro j β' hβ' hi'
  -- a second binding with this declaration would be of the same name in the same scope
  obtain ⟨b', hb', hscope', hn'⟩ := (h.declares i β'.scope β'.name).mp ⟨j, β', hβ', rfl, rfl, hi'⟩
  rw [hb] at hb'
  cases hb'
  exact h.linked.unique hβ' hβ ((h.numbered.id_eq hscope' hscope).trans hs.symm) (hn'.symm.trans hn.symm)

/-- What `attachReads` gives to the record of the `i`-th recorded binder. -/
theorem find?_resolveReads (src : Source) {tree : Tree} {i : Nat} {b : Binder}
    (hb : (((Spot.visited tree).flatMap Spot.binders).filter (·.recorded))[i]? = some b) :
    ∃ id β, Recorded src tree b id ∧ β.references = placesOf src tree id ∧
      (resolveReads (surveyOf src tree).graph (readsOf src (surveyOf src tree) tree)).bindings.find?
        (·.declarations.contains i) = some β := by
  obtain ⟨id, β, hrec, hβ, href, hi, huniq⟩ := recorded_of_getElem? src hb
  have hget := bindings_resolveReads (surveyOf src tree).graph (readsOf src (surveyOf src tree) tree)
  cases hf : (resolveReads (surveyOf src tree).graph (readsOf src (surveyOf src tree) tree)).bindings.find?
      (·.declarations.contains i) with
  | none =>
    -- resolving adds references only, so the binding still has its declaration
    have hβ' := hget id
    rw [hβ, Option.map_some] at hβ'
    have := Array.find?_eq_none.mp hf _ (Array.mem_of_getElem? hβ')
    simp [hi] at this
  | some γ =>
    have hmem := Array.mem_of_find?_eq_some hf
    have hdecl := Array.find?_some hf
    obtain ⟨j, hj⟩ := Array.mem_iff_getElem?.mp hmem
    rw [hget j] at hj
    obtain ⟨β', hβ', rfl⟩ := Option.map_eq_some_iff.mp hj
    obtain rfl := huniq j β' hβ' (by simpa using hdecl)
    rw [hβ] at hβ'
    cases hβ'
    exact ⟨_, _, hrec, by simp only [href, List.nil_append]; rfl, rfl⟩

/-- A record that comes out is the one of a recorded binder, and its reads are the places that mean the
binding of that binder. -/
theorem mem_recordsOf {src : Source} {tree : Tree} {r : Record} (h : r ∈ recordsOf src tree) :
    ∃ b id, Recorded src tree b id ∧ r.name = b.name src ∧ r.declaredAt = place b.site.label src ∧
      r.reads = placesOf src tree id := by
  have hall := (Survey.surveyed_surveyOf src tree).agrees.records
  rw [List.nil_append] at hall
  unfold recordsOf Record.sortByPlace at h
  rw [List.mem_mergeSort] at h
  obtain ⟨i, hi, rfl⟩ := List.mem_mapIdx.mp h
  obtain ⟨hlen, hget⟩ := List.forall₂_iff_get.mp hall
  obtain ⟨hname, hplace, -⟩ := hget i hi (hlen ▸ hi)
  obtain ⟨id, β, hrec, href, hf⟩ := find?_resolveReads src
    (List.getElem?_eq_getElem (hlen ▸ hi))
  simp only [hf]
  exact ⟨_, id, hrec, hname, hplace, href⟩

/-- Every recorded declarator comes out as a record. -/
theorem exists_mem_recordsOf (src : Source) {tree : Tree} {t : Spot} (ht : t.VisitedIn tree) {b : Binder}
    (hb : b ∈ t.declarators) (hr : b.recorded = true) :
    ∃ r ∈ recordsOf src tree, r.name = b.name src ∧ r.declaredAt = place b.site.label src := by
  have hall := (Survey.surveyed_surveyOf src tree).agrees.records
  rw [List.nil_append] at hall
  have hmem : b ∈ ((Spot.visited tree).flatMap Spot.binders).filter (·.recorded) :=
    List.mem_filter.mpr ⟨List.mem_flatMap.mpr ⟨t, Spot.mem_visited.mpr ht,
      List.mem_append_right _ (List.mem_append_left _ hb)⟩, hr⟩
  obtain ⟨i, hi, rfl⟩ := List.mem_iff_getElem.mp hmem
  obtain ⟨hlen, hget⟩ := List.forall₂_iff_get.mp hall
  obtain ⟨hname, hplace, -⟩ := hget i (hlen ▸ hi) hi
  obtain ⟨id, β, -, -, hf⟩ := find?_resolveReads src (List.getElem?_eq_getElem hi)
  unfold recordsOf Record.sortByPlace
  refine ⟨_, List.mem_mergeSort.mpr (List.mem_mapIdx.mpr ⟨i, hlen ▸ hi, rfl⟩), ?_⟩
  simp only [hf]
  exact ⟨hname, hplace⟩

/-! ## Declarators and their places -/

theorem place_start_eq {src : Source} {label label' : Label} (hs : label.start ≤ src.size)
    (hs' : label'.start ≤ src.size) (h : place label src = place label' src) :
    label.start = label'.start := by
  have hoff := congrArg Location.offset h
  simp only [place, Location.atOffset] at hoff
  omega

theorem numberedChild?_eq_some {tree : Tree} {field : String} {i : Nat} {c : Tree}
    (h : tree.numberedChild? field = some (i, c)) : tree.children[i]? = some c := by
  have hmem := List.mem_of_find?_eq_some h
  obtain ⟨k, hk⟩ := List.mem_iff_getElem?.mp hmem
  obtain ⟨hr, hc⟩ := List.getElem?_zip_eq_some.mp hk
  obtain ⟨hlt, hr⟩ := List.getElem?_eq_some_iff.mp hr
  rw [List.getElem_range] at hr
  subst hr
  exact hc

theorem fieldSite?_eq_some {path : TreePath} {tree : Tree} {field : String} {site : Site}
    (h : fieldSite? path tree field = some site) :
    ∃ i c, tree.children[i]? = some c ∧ site = ⟨i :: path, c.label⟩ := by
  obtain ⟨⟨i, c⟩, hf, rfl⟩ := Option.map_eq_some_iff.mp h
  exact ⟨i, c, numberedChild?_eq_some hf, rfl⟩

/-- A recorded declarator is the one of its field. -/
theorem mem_targetBinders_recorded {t : Spot} {rises : Bool} {field : String} {b : Binder}
    (hb : b ∈ t.targetBinders rises field) (hr : b.recorded = true) :
    ∃ target, fieldSite? t.path t.tree field = some target ∧ target.label.kind = "identifier" ∧
      b = ⟨if rises then Spot.risen t.scopes else Spot.innermost t.scopes, target, true⟩ := by
  rw [Spot.targetBinders] at hb
  cases htarget : fieldSite? t.path t.tree field with
  | none =>
    rw [htarget] at hb
    simp at hb
  | some target =>
    rw [htarget] at hb
    dsimp only at hb
    by_cases hk : (target.label.kind == "identifier") = true
    · rw [if_pos hk] at hb
      exact ⟨target, rfl, beq_iff_eq.mp hk, List.mem_singleton.mp hb⟩
    · rw [if_neg hk] at hb
      obtain ⟨site, -, rfl⟩ := List.mem_map.mp hb
      cases hr

/-- The declarators of a node are all for one field. -/
theorem exists_targetBinders {t : Spot} {b : Binder} (hb : b ∈ t.declarators) :
    ∃ rises field, t.declarators = t.targetBinders rises field := by
  revert hb
  unfold Spot.declarators
  split
  · exact fun _ => ⟨_, _, rfl⟩
  · split
    · split
      · exact fun _ => ⟨_, _, rfl⟩
      · intro hb
        simp at hb
    · intro hb
      simp at hb

/-- The target of a recorded declarator is an identifier right below the node. -/
theorem declarator_site {t : Spot} {b : Binder} (hb : b ∈ t.declarators) (hr : b.recorded = true) :
    ∃ i c, t.tree.children[i]? = some c ∧ b.site = ⟨i :: t.path, c.label⟩ ∧
      isIdentifierKind c.label.kind = true := by
  obtain ⟨rises, field, heq⟩ := exists_targetBinders hb
  rw [heq] at hb
  obtain ⟨target, hf, hk, rfl⟩ := mem_targetBinders_recorded hb hr
  obtain ⟨i, c, hc, rfl⟩ := fieldSite?_eq_some hf
  have hk' : c.label.kind = "identifier" := hk
  exact ⟨i, c, hc, rfl, by rw [hk']; rfl⟩

/-- A node has at most one recorded declarator. -/
theorem declarator_unique {t : Spot} {b b' : Binder} (hb : b ∈ t.declarators) (hr : b.recorded = true)
    (hb' : b' ∈ t.declarators) (hr' : b'.recorded = true) : b = b' := by
  obtain ⟨rises, field, heq⟩ := exists_targetBinders hb
  rw [heq] at hb hb'
  obtain ⟨target, hf, -, rfl⟩ := mem_targetBinders_recorded hb hr
  obtain ⟨target', hf', -, rfl⟩ := mem_targetBinders_recorded hb' hr'
  rw [hf] at hf'
  cases hf'
  rfl

/-- A record has one declarator: identifiers stand apart, so its place tells which. -/
theorem DeclaredBy.unique {src : Source} {tree : Tree} (hapart : tree.IdentifiersApart src) {r : Record}
    {b b' : Binder} (h : tree.DeclaredBy src r b) (h' : tree.DeclaredBy src r b') : b = b' := by
  obtain ⟨⟨t, ht, hb⟩, hr, -, hp⟩ := h
  obtain ⟨⟨t', ht', hb'⟩, hr', -, hp'⟩ := h'
  obtain ⟨i, c, hc, hsite, hk⟩ := declarator_site hb hr
  obtain ⟨i', c', hc', hsite', hk'⟩ := declarator_site hb' hr'
  have hin : (t.child i c).In tree := ht.isIn.tail ⟨i, c, hc, rfl⟩
  have hin' : (t'.child i' c').In tree := ht'.isIn.tail ⟨i', c', hc', rfl⟩
  rw [hp, hsite, hsite'] at hp'
  have hstart := place_start_eq (hapart.inside _ hin hk) (hapart.inside _ hin' hk') hp'
  have hpath := hapart.apart _ _ hin hin' hk hk' hstart
  simp only [Spot.child, List.cons.injEq] at hpath
  obtain rfl := ht.isIn.eq_of_path ht'.isIn hpath.2
  exact declarator_unique hb hr hb' hr'

/-! ## The main statement -/

theorem Means.exists_binds {src : Source} {tree : Tree} {name : String} {scopes : List Enclosure}
    {owner : Owner} (h : tree.Means src name scopes owner) :
    ∃ e ∈ scopes, tree.Binds src e.owner name := by
  induction h with
  | here hb => exact ⟨_, List.mem_cons_self, hb⟩
  | outward _ _ ih =>
    obtain ⟨e, he, hb⟩ := ih
    exact ⟨e, List.mem_cons_of_mem _ he, hb⟩

/-- The place of a read is among those of a binding exactly when the read means that binding. -/
theorem place_mem_placesOf {src : Source} {tree : Tree} (hapart : tree.IdentifiersApart src) {b : Binder}
    {id : BindingId} (hrec : Recorded src tree b id) {n : Spot} (hn : n.WalkedIn tree)
    (href : n.IsReference src tree) :
    place n.tree.label src ∈ placesOf src tree id ↔
      b.name src = n.tree.label.text src ∧ tree.Means src (n.tree.label.text src) n.scopes b.owner := by
  have hs := Survey.surveyed_surveyOf src tree
  have hnum := hs.agrees.numbered
  have hlinked := hs.agrees.linked
  obtain ⟨scope, hscope, hlocal⟩ := hrec.bound
  obtain ⟨β, hβ, hβs, hβn⟩ := (hlinked scope _ id).mp hlocal
  obtain ⟨here, hhere⟩ := hs.placed n (Spot.mem_visited.mpr hn.visitedIn)
  have hplaces : place n.tree.label src ∈ placesOf src tree id ↔
      (surveyOf src tree).graph.lookup? here (n.tree.label.text src) = some id := by
    unfold placesOf
    simp only [List.mem_map, List.mem_filter, beq_iff_eq, mem_readsOf]
    constructor
    · rintro ⟨read, ⟨⟨t, ht, htref, htin, hname, hplace⟩, hl⟩, hp⟩
      -- a read at the same place is the same node
      rw [hplace] at hp
      have hstart := place_start_eq (hapart.inside t ht.visitedIn.isIn htref.1)
        (hapart.inside n hn.visitedIn.isIn href.1) hp
      obtain rfl := ht.visitedIn.isIn.eq_of_path hn.visitedIn.isIn
        (hapart.apart t n ht.visitedIn.isIn hn.visitedIn.isIn htref.1 href.1 hstart)
      rw [hhere.id_eq hnum htin, ← hname]
      exact hl
    · intro hl
      exact ⟨⟨here, n.tree.label.text src, place n.tree.label src⟩,
        ⟨⟨n, hn, href, hhere, rfl, rfl⟩, hl⟩, rfl⟩
  rw [hplaces, hhere.lookup?_eq_some_iff]
  constructor
  · rintro ⟨owner, i, hm, hi, hl⟩
    obtain ⟨β', hβ', hs', hn'⟩ := (hlinked i _ id).mp hl
    rw [hβ] at hβ'
    cases hβ'
    have howner : owner = b.owner := hnum.owner_eq hi (by rw [← hs', hβs]; exact hscope)
    exact ⟨hβn.symm.trans hn', howner ▸ hm⟩
  · rintro ⟨hname, hm⟩
    exact ⟨b.owner, scope, hm, hscope, hname ▸ hlocal⟩

/-- What the records of a tree have to say about the reads in it. -/
structure LexicalRecords (src : Source) (tree : Tree) (records : List Record) : Prop where
  /-- Every recorded declarator gives a record. -/
  complete : ∀ t : Spot, t.VisitedIn tree → ∀ b ∈ t.declarators, b.recorded = true →
    ∃ r ∈ records, tree.DeclaredBy src r b
  /-- A record has one declarator. -/
  declared : ∀ r ∈ records, ∃! b, tree.DeclaredBy src r b
  /-- A record has the place of a read exactly when it has the name read and its declarator belongs to the
  first scope, going outward from the read, that binds this name. -/
  reads : ∀ r ∈ records, ∀ b, tree.DeclaredBy src r b →
    ∀ n : Spot, n.WalkedIn tree → n.IsReference src tree →
      (place n.tree.label src ∈ r.reads ↔
        r.name = n.tree.label.text src ∧ tree.Means src (n.tree.label.text src) n.scopes b.owner)
  /-- A name that no scope around it binds is read by no record. -/
  unbound : ∀ r ∈ records, ∀ n : Spot, n.WalkedIn tree → n.IsReference src tree →
    (∀ e ∈ n.scopes, ¬ tree.Binds src e.owner (n.tree.label.text src)) →
      place n.tree.label src ∉ r.reads
  /-- Records of one name in one scope have the same reads. -/
  shared : ∀ r ∈ records, ∀ r' ∈ records, ∀ b b', tree.DeclaredBy src r b → tree.DeclaredBy src r' b' →
    b.owner = b'.owner → r.name = r'.name → r.reads = r'.reads

/-- **Reads are resolved lexically** in every tree without faults: extraction gives records, and they are as
`LexicalRecords` asks. -/
theorem extract_reads_lexical (language : Language) (src : Source) (tree : Tree)
    (hsound : tree.label.hasError = false) (hapart : tree.IdentifiersApart src) :
    ∃ records, tree.extract language src = .ok records ∧ tree.LexicalRecords src records := by
  have hreads (r : Record) (hr : r ∈ recordsOf src tree) (b : Binder) (hb : tree.DeclaredBy src r b) :
      ∃ id, Recorded src tree b id ∧ r.reads = placesOf src tree id := by
    obtain ⟨c, id, hrec, hname, hplace, hreads⟩ := mem_recordsOf hr
    -- the survey made the record for some declarator, and a record has only one
    obtain rfl := hb.unique hapart ⟨hrec.declared, hrec.recorded, hname, hplace⟩
    exact ⟨id, hrec, hreads⟩
  have hlexical (r : Record) (hr : r ∈ recordsOf src tree) (b : Binder) (hb : tree.DeclaredBy src r b)
      (n : Spot) (hn : n.WalkedIn tree) (href : n.IsReference src tree) :
      place n.tree.label src ∈ r.reads ↔
        r.name = n.tree.label.text src ∧ tree.Means src (n.tree.label.text src) n.scopes b.owner := by
    obtain ⟨id, hrec, hplaces⟩ := hreads r hr b hb
    rw [hplaces, hb.2.2.1]
    exact place_mem_placesOf hapart hrec hn href
  have hdeclared (r : Record) (hr : r ∈ recordsOf src tree) : ∃ b, tree.DeclaredBy src r b := by
    obtain ⟨b, id, hrec, hname, hplace, -⟩ := mem_recordsOf hr
    exact ⟨b, hrec.declared, hrec.recorded, hname, hplace⟩
  refine ⟨recordsOf src tree, by simp [extract, hsound], ?_, ?_, hlexical, ?_, ?_⟩
  · intro t ht b hb hr
    obtain ⟨r, hmem, hname, hplace⟩ := exists_mem_recordsOf src ht hb hr
    exact ⟨r, hmem, ⟨t, ht, hb⟩, hr, hname, hplace⟩
  · intro r hr
    obtain ⟨b, hb⟩ := hdeclared r hr
    exact ⟨b, hb, fun b' hb' => hb'.unique hapart hb⟩
  · intro r hr n hn href hno hp
    obtain ⟨b, hb⟩ := hdeclared r hr
    obtain ⟨e, he, hbinds⟩ := ((hlexical r hr b hb n hn href).mp hp).2.exists_binds
    exact hno e he hbinds
  · intro r hr r' hr' b b' hb hb' howner hname
    obtain ⟨id, hrec, hplaces⟩ := hreads r hr b hb
    obtain ⟨id', hrec', hplaces'⟩ := hreads r' hr' b' hb'
    obtain rfl := hrec.id_eq hrec' howner (hb.2.2.1.symm.trans (hname.trans hb'.2.2.1))
    rw [hplaces, hplaces']

/-- A tree with two variables of one name, the inner of which is read. -/
def shadowed : Tree :=
  let label (kind : String) (start stop : Nat) : Label := ⟨kind, "", true, false, false, false, start, stop⟩
  let declaration (start : Nat) : Tree :=
    .node (label "lexical_declaration" start (start + 10))
      [.node (label "variable_declarator" (start + 4) (start + 9))
        [.node { label "identifier" (start + 4) (start + 5) with field := "name" } []]]
  .node (label "program" 0 26)
    [declaration 0,
      .node (label "statement_block" 11 26)
        [declaration 12, .node (label "expression_statement" 23 25) [.node (label "identifier" 23 24) []]]]

theorem extract_reads_lexical_shadowed :
    shadowed.label.hasError = false ∧
    shadowed.IdentifiersApart (.ofString "let x = 1;\n{let x = 2; x;}") ∧
    ∃ records, shadowed.extract .javascript (.ofString "let x = 1;\n{let x = 2; x;}") = .ok records ∧
      shadowed.LexicalRecords (.ofString "let x = 1;\n{let x = 2; x;}") records :=
  have hapart : shadowed.IdentifiersApart (.ofString "let x = 1;\n{let x = 2; x;}") := by decide
  ⟨rfl, hapart, extract_reads_lexical .javascript _ shadowed rfl hapart⟩

end Tree
end VarCensus
