import VarCensus.Proofs.LexicalReads

/-!
# Reads come in the order of the source

The walk for reads goes through the tree from the first child to the last, so on a tree whose ranges are laid
out as a parser lays them out the places it meets only grow. Each binding collects some of them, in the order
of the walk, and a record gets the collection of its binding: it stays in order.

A node that binds a name is in the table of sites, which the walk asks before it counts a node as a read. Two
identifiers never start at one place, so the place of a declaration is never the place of a read. The main
statement is `extract_reads_ordered`.
-/

namespace VarCensus
namespace Tree

/-! ## Ranges -/

/-- The ranges of a tree are those of a text: children follow each other inside their parent, none of them is
empty, and identifiers have no children. -/
structure LaidOut (src : Source) (tree : Tree) : Prop where
  within : tree.label.start ≤ tree.label.stop ∧ tree.label.stop ≤ src.size
  inside : ∀ s : Spot, s.In tree → ∀ c ∈ s.tree.children,
    s.tree.label.start ≤ c.label.start ∧ c.label.start < c.label.stop ∧ c.label.stop ≤ s.tree.label.stop
  apart : ∀ s : Spot, s.In tree → s.tree.children.Pairwise (·.label.stop ≤ ·.label.start)
  leaves : ∀ s : Spot, s.In tree → isIdentifierKind s.tree.label.kind = true → s.tree.children = []

section

variable {src : Source} {whole : Tree}

theorem LaidOut.range_of_reach (h : whole.LaidOut src) {s t : Spot} (hs : s.In whole)
    (hreach : Relation.ReflTransGen Spot.HasChild s t) :
    s.tree.label.start ≤ t.tree.label.start ∧ t.tree.label.stop ≤ s.tree.label.stop ∧
      (s.tree.label.start < s.tree.label.stop → t.tree.label.start < t.tree.label.stop) := by
  induction hreach with
  | refl => exact ⟨Nat.le_refl _, Nat.le_refl _, id⟩
  | tail hst hchild ih =>
    obtain ⟨i, c, hc, rfl⟩ := hchild
    obtain ⟨hstart, hlt, hstop⟩ := h.inside _ (hs.trans hst) c (List.mem_of_getElem? hc)
    exact ⟨Nat.le_trans ih.1 hstart, Nat.le_trans hstop ih.2.1, fun _ => hlt⟩

/-- All identifiers of a tree, in its order. -/
def identifiersFrom (path : TreePath) (ancestors : List Label) (tree : Tree) : List Spot :=
  (Spot.nodesFrom (fun _ => true) path ancestors tree).filter (isIdentifierKind ·.tree.label.kind)

/-- The same for the children from number `i` on. -/
def identifiersAmong (path : TreePath) (ancestors : List Label) (i : Nat) (children : List Tree) : List Spot :=
  (Spot.nodesAmong (fun _ => true) path ancestors i children).filter (isIdentifierKind ·.tree.label.kind)

theorem identifiersFrom_node (path : TreePath) (ancestors : List Label) (label : Label) (children : List Tree) :
    identifiersFrom path ancestors (.node label children) =
      (if isIdentifierKind label.kind then [⟨path, ancestors, .node label children⟩] else []) ++
        identifiersAmong path (label :: ancestors) 0 children := by
  by_cases hid : isIdentifierKind label.kind
  · simp [identifiersFrom, identifiersAmong, Spot.nodesFrom, Tree.label, hid]
  · simp [identifiersFrom, identifiersAmong, Spot.nodesFrom, Tree.label, hid]

theorem identifiersAmong_cons (path : TreePath) (ancestors : List Label) (i : Nat) (tree : Tree)
    (more : List Tree) :
    identifiersAmong path ancestors i (tree :: more) =
      identifiersFrom (i :: path) ancestors tree ++ identifiersAmong path ancestors (i + 1) more := by
  rw [identifiersAmong, Spot.nodesAmong, if_pos rfl, List.filter_append]
  rfl

theorem mem_identifiers {tree : Tree} {s : Spot} :
    s ∈ identifiersFrom [] [] tree ↔ s.In tree ∧ isIdentifierKind s.tree.label.kind = true := by
  rw [identifiersFrom, List.mem_filter, Spot.mem_nodes]

theorem reach_of_mem_identifiersFrom {path : TreePath} {ancestors : List Label} {tree : Tree} {s : Spot}
    (h : s ∈ identifiersFrom path ancestors tree) :
    Relation.ReflTransGen Spot.HasChild ⟨path, ancestors, tree⟩ s := by
  have hmem := (Spot.mem_nodesFrom _ path ancestors s tree).mp (List.mem_filter.mp h).1
  exact Relation.ReflTransGen.mono (fun _ _ hc => hc.1) _ _ hmem

theorem reach_of_mem_identifiersAmong {path : TreePath} {ancestors : List Label} {i : Nat}
    {children : List Tree} {s : Spot} (h : s ∈ identifiersAmong path ancestors i children) :
    ∃ k c, children[k]? = some c ∧ Relation.ReflTransGen Spot.HasChild ⟨(i + k) :: path, ancestors, c⟩ s := by
  obtain ⟨k, c, hk, -, hreach⟩ := (Spot.mem_nodesAmong _ path ancestors s i children).mp (List.mem_filter.mp h).1
  exact ⟨k, c, hk, Relation.ReflTransGen.mono (fun _ _ hc => hc.1) _ _ hreach⟩

mutual

/-- **Identifiers start one after the other.** -/
theorem pairwise_identifiersFrom (h : whole.LaidOut src) :
    ∀ (tree : Tree) (path : TreePath) (ancestors : List Label),
      (⟨path, ancestors, tree⟩ : Spot).In whole →
      (identifiersFrom path ancestors tree).Pairwise (·.tree.label.start < ·.tree.label.start)
  | .node label children, path, ancestors, hin => by
    rw [identifiersFrom_node]
    by_cases hid : isIdentifierKind label.kind
    · have hnil : children = [] := h.leaves _ hin hid
      rw [if_pos hid, hnil]
      simp [identifiersAmong, Spot.nodesAmong]
    · rw [if_neg hid, List.nil_append]
      apply pairwise_identifiersAmong h children path (label :: ancestors) 0
      · intro k c hk
        rw [Nat.zero_add]
        exact hin.tail ⟨k, c, hk, rfl⟩
      · exact h.apart _ hin
      · intro c hc
        exact (h.inside _ hin c hc).2.1

theorem pairwise_identifiersAmong (h : whole.LaidOut src) :
    ∀ (children : List Tree) (path : TreePath) (ancestors : List Label) (i : Nat),
      (∀ k c, children[k]? = some c → (⟨(i + k) :: path, ancestors, c⟩ : Spot).In whole) →
      children.Pairwise (·.label.stop ≤ ·.label.start) →
      (∀ c ∈ children, c.label.start < c.label.stop) →
      (identifiersAmong path ancestors i children).Pairwise (·.tree.label.start < ·.tree.label.start)
  | [], path, ancestors, i, _, _, _ => by simp [identifiersAmong, Spot.nodesAmong]
  | tree :: more, path, ancestors, i, hin, hapart, hwide => by
    obtain ⟨hhead, htail⟩ := List.pairwise_cons.mp hapart
    have hmore : ∀ k c, more[k]? = some c → (⟨(i + 1 + k) :: path, ancestors, c⟩ : Spot).In whole := by
      intro k c hk
      rw [Nat.add_assoc, Nat.add_comm 1]
      exact hin (k + 1) c hk
    rw [identifiersAmong_cons]
    refine List.pairwise_append.mpr ⟨?_, ?_, ?_⟩
    · exact pairwise_identifiersFrom h tree (i :: path) ancestors (hin 0 tree rfl)
    · exact pairwise_identifiersAmong h more path ancestors (i + 1) hmore htail
        fun c hc => hwide c (List.mem_cons_of_mem _ hc)
    · intro s hs u hu
      -- everything below the first child ends before everything below a later one starts
      obtain ⟨-, hstop, hlt⟩ := h.range_of_reach (hin 0 tree rfl) (reach_of_mem_identifiersFrom hs)
      obtain ⟨k, c, hk, hreach⟩ := reach_of_mem_identifiersAmong hu
      obtain ⟨hstart, -, -⟩ := h.range_of_reach (hmore k c hk) hreach
      calc s.tree.label.start
        _ < s.tree.label.stop := hlt (hwide tree List.mem_cons_self)
        _ ≤ tree.label.stop := hstop
        _ ≤ c.label.start := hhead c (List.mem_of_getElem? hk)
        _ ≤ u.tree.label.start := hstart

end

theorem LaidOut.start_le (h : whole.LaidOut src) {s : Spot} (hs : s.In whole) :
    s.tree.label.start ≤ src.size := by
  rcases Relation.ReflTransGen.cases_tail hs with rfl | ⟨t, ht, i, c, hc, rfl⟩
  · exact Nat.le_trans h.within.1 h.within.2
  · obtain ⟨-, hstop, -⟩ := h.range_of_reach .refl ht
    obtain ⟨-, hlt, hinside⟩ := h.inside t ht c (List.mem_of_getElem? hc)
    calc c.label.start
      _ ≤ c.label.stop := Nat.le_of_lt hlt
      _ ≤ t.tree.label.stop := hinside
      _ ≤ whole.label.stop := hstop
      _ ≤ src.size := h.within.2

theorem LaidOut.identifiersApart (h : whole.LaidOut src) : whole.IdentifiersApart src where
  inside := fun s hs _ => h.start_le hs
  apart := by
    intro s t hs ht hsk htk hstart
    obtain ⟨i, hi, rfl⟩ := List.mem_iff_getElem.mp (mem_identifiers.mpr ⟨hs, hsk⟩)
    obtain ⟨j, hj, rfl⟩ := List.mem_iff_getElem.mp (mem_identifiers.mpr ⟨ht, htk⟩)
    have hordered := List.pairwise_iff_getElem.mp (pairwise_identifiersFrom h whole [] [] .refl)
    rcases Nat.lt_trichotomy i j with hij | rfl | hji
    · exact absurd hstart (Nat.ne_of_lt (hordered i j hi hj hij))
    · rfl
    · exact absurd hstart.symm (Nat.ne_of_lt (hordered j i hj hi hji))

end

/-! ## Reads along the tree -/

mutual

/-- The places of reads are those of some identifiers, in the order of the tree. -/
theorem places_reads_sublist (src : Source) (gathered : Survey) :
    ∀ (tree : Tree) (path : TreePath) (ancestors : List Label) (scope : Scope.ScopeId),
      List.Sublist ((reads src gathered path ancestors scope tree).map (·.place))
        ((identifiersFrom path ancestors tree).map (place ·.tree.label src))
  | .node label children, path, ancestors, scope => by
    rw [reads, identifiersFrom_node]
    by_cases hid : isIdentifierKind label.kind
    · simp only [hid, ↓reduceIte]
      by_cases hread : isRead src gathered.sites path ancestors label
      · simp [hread, Tree.label]
      · simp [hread]
    · simp only [hid, Bool.false_eq_true, ↓reduceIte, List.nil_append]
      exact places_readsAll_sublist src gathered children path (label :: ancestors) _ 0

theorem places_readsAll_sublist (src : Source) (gathered : Survey) :
    ∀ (children : List Tree) (path : TreePath) (ancestors : List Label) (scope : Scope.ScopeId) (i : Nat),
      List.Sublist ((readsAll src gathered path ancestors scope i children).map (·.place))
        ((identifiersAmong path ancestors i children).map (place ·.tree.label src))
  | [], path, ancestors, scope, i => by simp [readsAll]
  | tree :: more, path, ancestors, scope, i => by
    have hmore := places_readsAll_sublist src gathered more path ancestors scope (i + 1)
    rw [readsAll, identifiersAmong_cons, List.map_append, List.map_append]
    by_cases hnamed : tree.label.named
    · rw [if_pos hnamed]
      exact (places_reads_sublist src gathered tree (i :: path) ancestors scope).append hmore
    · rw [if_neg hnamed]
      exact (List.nil_sublist _).append hmore

end

/-- **The walk meets places in the order of the source.** -/
theorem pairwise_places_readsOf {src : Source} {tree : Tree} (h : tree.LaidOut src) (gathered : Survey) :
    ((readsOf src gathered tree).map (·.place)).Pairwise (·.offset < ·.offset) := by
  refine List.Pairwise.sublist (places_reads_sublist src gathered tree [] [] Scope.Graph.root) ?_
  rw [List.pairwise_map]
  refine (pairwise_identifiersFrom h tree [] [] .refl).imp_of_mem ?_
  intro s t hs ht hlt
  have hsle := h.start_le (reach_of_mem_identifiersFrom hs)
  have htle := h.start_le (reach_of_mem_identifiersFrom ht)
  simpa [place, Location.atOffset, Nat.min_eq_left hsle, Nat.min_eq_left htle] using hlt

/-! ## The table of sites -/

theorem sites_bindSites (src : Source) (scope : Scope.ScopeId) (s : Survey) (sites : List Site) :
    (bindSites src scope s sites).sites = (sites.map (·.path)).reverse ++ s.sites := by
  induction sites generalizing s with
  | nil => rfl
  | cons site more ih =>
    have hstep := ih (bindSite src scope s site)
    simp only [bindSites, List.foldl_cons] at hstep ⊢
    rw [hstep]
    simp [bindSite]

/-- The paths that some nodes bind, the last one first. -/
def boundPaths (spots : List Spot) : List TreePath :=
  ((spots.flatMap Spot.binders).map (·.site.path)).reverse

theorem sites_enter (src : Source) (t : Spot) (scope : Scope.ScopeId) (s : Survey) :
    (enter src t.path t.ancestors.head? t.tree scope s).2.sites =
      (t.openerBinders.map (·.site.path)).reverse ++ s.sites := by
  rw [Survey.enter_eq, Spot.openerBinders]
  cases t.opens? with
  | none => rfl
  | some kind =>
    simp [Survey.openScope_eq, sites_bindSites, Survey.withScope, Function.comp_def]

theorem sites_declareNode (src : Source) (t : Spot) (scope : Scope.ScopeId) (s : Survey) :
    (declareNode src t.path t.ancestors.head? t.tree scope s).sites =
      ((t.declarators ++ t.imports).map (·.site.path)).reverse ++ s.sites := by
  unfold declareNode Spot.declarators
  split
  · next hk =>
    rw [Survey.imports_eq_nil (Or.inl (beq_iff_eq.mp hk)), List.append_nil]
    unfold declareVariable Spot.targetBinders
    cases fieldSite? t.path t.tree "name" with
    | none => rfl
    | some target =>
      simp only
      split
      · rfl
      · simp [sites_bindSites, Function.comp_def]
  · split
    · next hk =>
      rw [Survey.imports_eq_nil (Or.inr (beq_iff_eq.mp hk)), List.append_nil]
      unfold declareLoopVariable Spot.targetBinders
      cases t.tree.child? "kind" with
      | none => rfl
      | some keyword =>
        cases fieldSite? t.path t.tree "left" with
        | none => rfl
        | some target =>
          simp only
          split
          · rfl
          · simp [sites_bindSites, Function.comp_def]
    · simp [sites_bindSites, Spot.imports, Function.comp_def]

mutual

/-- The first pass enters the path of every binder. -/
theorem sites_survey (src : Source) :
    ∀ (tree : Tree) (path : TreePath) (ancestors : List Label) (scope : Scope.ScopeId) (s : Survey),
      (survey src path ancestors.head? scope s tree).sites =
        boundPaths (Spot.nodesFrom Label.named path ancestors tree) ++ s.sites
  | .node label children, path, ancestors, scope, s => by
    have henter := sites_enter src ⟨path, ancestors, .node label children⟩ scope s
    have hdeclare := sites_declareNode src ⟨path, ancestors, .node label children⟩
      (enter src path ancestors.head? (.node label children) scope s).1
      (enter src path ancestors.head? (.node label children) scope s).2
    simp only at henter hdeclare
    rw [survey, Spot.nodesFrom]
    dsimp only
    rw [sites_surveyAll src children path label ancestors, hdeclare, henter]
    simp [boundPaths, Spot.binders]

theorem sites_surveyAll (src : Source) :
    ∀ (children : List Tree) (path : TreePath) (label : Label) (outer : List Label) (scope : Scope.ScopeId)
      (s : Survey) (i : Nat),
      (surveyAll src path label scope s i children).sites =
        boundPaths (Spot.nodesAmong Label.named path (label :: outer) i children) ++ s.sites
  | [], path, label, outer, scope, s, i => by simp [surveyAll, Spot.nodesAmong, boundPaths]
  | tree :: more, path, label, outer, scope, s, i => by
    rw [surveyAll, Spot.nodesAmong, sites_surveyAll src more path label outer]
    by_cases hnamed : tree.label.named
    · have hhead := sites_survey src tree (i :: path) (label :: outer) scope s
      rw [List.head?_cons] at hhead
      rw [if_pos hnamed, if_pos hnamed, hhead]
      simp [boundPaths]
    · rw [if_neg hnamed, if_neg hnamed, List.nil_append]

end

theorem mem_sites_surveyOf {src : Source} {tree : Tree} {t : Spot} (ht : t.VisitedIn tree) {b : Binder}
    (hb : b ∈ t.binders) : b.site.path ∈ (surveyOf src tree).sites := by
  have hsites := sites_survey src tree [] [] Scope.Graph.root emptySurvey
  rw [surveyOf, show (none : Option Label) = ([] : List Label).head? from rfl, hsites]
  refine List.mem_append_left _ (List.mem_reverse.mpr (List.mem_map_of_mem ?_))
  exact List.mem_flatMap.mpr ⟨t, Spot.mem_visited.mpr ht, hb⟩

/-! ## The reads of a record -/

/-- A read that is looked up to the binding of a recorded name reads this name. -/
theorem Recorded.name_eq {src : Source} {tree : Tree} {b : Binder} {id : Scope.BindingId}
    (h : Recorded src tree b id) {t : Spot} {read : Read} (hread : ReadAt src tree t read)
    (hlookup : (surveyOf src tree).graph.lookup? read.scope read.name = some id) :
    read.name = b.name src := by
  have hlinked := (Survey.surveyed_surveyOf src tree).agrees.linked
  obtain ⟨owner, i, -, -, hlocal⟩ := (hread.2.1.lookup?_eq_some_iff read.name id).mp hlookup
  obtain ⟨scope, -, hbound⟩ := h.bound
  obtain ⟨β, hβ, -, hname⟩ := (hlinked i _ id).mp hlocal
  obtain ⟨β', hβ', -, hname'⟩ := (hlinked scope _ id).mp hbound
  rw [hβ] at hβ'
  cases hβ'
  exact hname.symm.trans hname'

theorem mem_placesOf {src : Source} {tree : Tree} {b : Binder} {id : Scope.BindingId}
    (h : Recorded src tree b id) {loc : Location} (hloc : loc ∈ placesOf src tree id) :
    ∃ n : Spot, n.WalkedIn tree ∧ n.IsReference src tree ∧ n.tree.label.text src = b.name src ∧
      loc = place n.tree.label src := by
  obtain ⟨read, hmem, rfl⟩ := List.mem_map.mp hloc
  obtain ⟨hread, hlookup⟩ := List.mem_filter.mp hmem
  obtain ⟨n, hn, hat⟩ := mem_readsOf.mp hread
  have hname := h.name_eq hat (beq_iff_eq.mp hlookup)
  exact ⟨n, hn, hat.1, hat.2.2.1.symm.trans hname, hat.2.2.2⟩

theorem LaidOut.offset_place {src : Source} {tree : Tree} (h : tree.LaidOut src) {s : Spot} (hs : s.In tree) :
    (place s.tree.label src).offset = s.tree.label.start := by
  simp [place, Location.atOffset, Nat.min_eq_left (h.start_le hs)]

/-- **No read is a declaration.** The node of a recorded name is a site, and a read is at none. -/
theorem Recorded.offset_ne {src : Source} {tree : Tree} (hlaid : tree.LaidOut src) {b : Binder}
    {id : Scope.BindingId} (h : Recorded src tree b id) {n : Spot} (hn : n.WalkedIn tree)
    (href : n.IsReference src tree) :
    (place n.tree.label src).offset ≠ (place b.site.label src).offset := by
  obtain ⟨t, ht, hb⟩ := h.declared
  obtain ⟨i, c, hc, hsite, hkind⟩ := declarator_site hb h.recorded
  have hchild : (t.child i c).In tree := ht.isIn.tail ⟨i, c, hc, rfl⟩
  have hmem : b.site.path ∈ (surveyOf src tree).sites :=
    mem_sites_surveyOf ht (List.mem_append_right _ (List.mem_append_left _ hb))
  have hoffset := hlaid.offset_place hchild
  simp only [Spot.child] at hoffset
  intro heq
  rw [hsite, hoffset, hlaid.offset_place hn.visitedIn.isIn] at heq
  have hpath : n.path = i :: t.path :=
    hlaid.identifiersApart.apart n (t.child i c) hn.visitedIn.isIn hchild href.1 hkind heq
  have hread := href.2
  unfold isRead at hread
  rw [Bool.and_eq_true, Bool.not_eq_true', hpath] at hread
  rw [hsite] at hmem
  rw [List.contains_iff_mem.mpr hmem] at hread
  cases hread.1

/-- What the reads of records are like. -/
structure CleanReads (src : Source) (tree : Tree) (records : List Record) : Prop where
  increasing : ∀ r ∈ records, r.reads.Pairwise (·.offset < ·.offset)
  /-- Each is the place where an identifier with the name of the record starts. -/
  named : ∀ r ∈ records, ∀ loc ∈ r.reads, ∃ n : Spot, n.WalkedIn tree ∧ n.IsReference src tree ∧
    n.tree.label.text src = r.name ∧ loc = place n.tree.label src ∧ loc.offset = n.tree.label.start
  /-- None is the place of a declaration, be it of another record. -/
  apart : ∀ r ∈ records, ∀ r' ∈ records, ∀ loc ∈ r.reads, loc.offset ≠ r'.declaredAt.offset

/-- **Reads are in order and apart from declarations**, in every tree without faults whose ranges are those of
a text. -/
theorem extract_reads_ordered (language : Language) (src : Source) (tree : Tree)
    (hsound : tree.label.hasError = false) (hlaid : tree.LaidOut src) :
    ∃ records, tree.extract language src = .ok records ∧ tree.CleanReads src records := by
  refine ⟨recordsOf src tree, by simp [extract, hsound], ?_, ?_, ?_⟩
  · intro r hr
    obtain ⟨b, id, -, -, -, hreads⟩ := mem_recordsOf hr
    rw [hreads]
    exact (pairwise_places_readsOf hlaid _).sublist (List.filter_sublist.map _)
  · intro r hr loc hloc
    obtain ⟨b, id, hrec, hname, -, hreads⟩ := mem_recordsOf hr
    rw [hreads] at hloc
    obtain ⟨n, hn, href, htext, rfl⟩ := mem_placesOf hrec hloc
    exact ⟨n, hn, href, htext.trans hname.symm, rfl, hlaid.offset_place hn.visitedIn.isIn⟩
  · intro r hr r' hr' loc hloc
    obtain ⟨b, id, hrec, -, -, hreads⟩ := mem_recordsOf hr
    obtain ⟨b', id', hrec', -, hplace, -⟩ := mem_recordsOf hr'
    rw [hreads] at hloc
    obtain ⟨n, hn, href, -, rfl⟩ := mem_placesOf hrec hloc
    rw [hplace]
    exact hrec'.offset_ne hlaid hn href

theorem laidOut_iff {src : Source} {tree : Tree} : tree.LaidOut src ↔
    (tree.label.start ≤ tree.label.stop ∧ tree.label.stop ≤ src.size) ∧
      ∀ s ∈ Spot.nodesFrom (fun _ => true) [] [] tree,
        (∀ c ∈ s.tree.children, s.tree.label.start ≤ c.label.start ∧ c.label.start < c.label.stop ∧
          c.label.stop ≤ s.tree.label.stop) ∧
        s.tree.children.Pairwise (·.label.stop ≤ ·.label.start) ∧
        (isIdentifierKind s.tree.label.kind = true → s.tree.children.isEmpty = true) := by
  simp only [Spot.mem_nodes, List.isEmpty_iff]
  constructor
  · intro h
    exact ⟨h.within, fun s hs => ⟨h.inside s hs, h.apart s hs, h.leaves s hs⟩⟩
  · rintro ⟨hwithin, h⟩
    exact ⟨hwithin, fun s hs => (h s hs).1, fun s hs => (h s hs).2.1, fun s hs => (h s hs).2.2⟩

instance (src : Source) (tree : Tree) : Decidable (tree.LaidOut src) :=
  decidable_of_iff _ laidOut_iff.symm

/-- A tree with a variable that is read twice. -/
def readTwice : Tree :=
  let label (kind field : String) (start stop : Nat) : Label :=
    ⟨kind, field, true, false, false, false, start, stop⟩
  .node (label "program" "" 0 16)
    [.node (label "variable_declaration" "" 0 10)
      [.node (label "variable_declarator" "" 4 9)
        [.node (label "identifier" "name" 4 5) [], .node (label "number" "value" 8 9) []]],
      .node (label "expression_statement" "" 11 13) [.node (label "identifier" "" 11 12) []],
      .node (label "expression_statement" "" 14 16) [.node (label "identifier" "" 14 15) []]]

theorem extract_reads_ordered_readTwice :
    readTwice.label.hasError = false ∧ readTwice.LaidOut (.ofString "var n = 1; n; n;") ∧
    ∃ records, readTwice.extract .javascript (.ofString "var n = 1; n; n;") = .ok records ∧
      readTwice.CleanReads (.ofString "var n = 1; n; n;") records :=
  have hlaid : readTwice.LaidOut (.ofString "var n = 1; n; n;") := by decide
  ⟨rfl, hlaid, extract_reads_ordered .javascript _ readTwice rfl hlaid⟩

end Tree
end VarCensus
