import VarCensus.Proofs.ReadOrder
import VarCensus.Proofs.SimpleDeclarations

/-!
# Reads stay inside a block

What is declared with `let` or `const` is known in the block around it and nowhere else. So all its reads lie
in the range of that block, with one widening that the scopes of a tree bring with them: the body of a
function or of a catch clause has no scope of its own, and neither has the body of a switch. There the block
is the whole owner, and what its head reads, a default of a parameter or the value that is switched on, can
mean a name of the body.

`Tree.blockAround` finds the block with this widening, and `extract_reads_contained` says that it holds the
reads. That nothing smaller would do is shown on a tree in which a default is read as a name of the body.
-/

namespace VarCensus

/-- The range of a label holds the one of another. -/
def Label.Covers (outer inner : Label) : Prop :=
  outer.start ≤ inner.start ∧ inner.stop ≤ outer.stop

theorem Label.Covers.trans {a b c : Label} (h : a.Covers b) (h' : b.Covers c) : a.Covers c :=
  ⟨Nat.le_trans h.1 h'.1, Nat.le_trans h'.2 h.2⟩

instance (outer inner : Label) : Decidable (outer.Covers inner) :=
  inferInstanceAs (Decidable (_ ∧ _))

namespace Tree

/-! ## The block around a declaration -/

/-- Nodes that are blocks by themselves. -/
def isBlockKind (kind : String) : Bool :=
  kind == "statement_block" || kind == "for_statement" || kind == "for_in_statement"

/-- Whether a node is a body without a scope of its own: it shares the one of its parent. -/
def sharesScope (parent label : Label) : Bool :=
  label.kind == "statement_block" && isOwnedBody (some parent) label ||
    label.kind == "switch_body" && parent.kind == "switch_statement"

/-- The block around a place, given the labels around it from the inside out: the innermost block, or its
owner where the two share a scope. Outside all blocks it is the whole program. -/
def blockAround : List Label → Option Label
  | [] => none
  | [program] => some program
  | label :: parent :: outer =>
    if sharesScope parent label then some parent
    else if isBlockKind label.kind then some label
    else blockAround (parent :: outer)

theorem isSome_blockAround (label : Label) (outer : List Label) :
    (blockAround (label :: outer)).isSome = true := by
  induction outer generalizing label with
  | nil => rfl
  | cons parent outer ih =>
    rw [blockAround]
    split
    · rfl
    · split
      · rfl
      · exact ih parent

/-- An owner opens a scope. -/
theorem isSome_scopeKind?_of_ownsBody {label : Label} (hnamed : label.named = true)
    (h : ownsBody label.kind = true) (parent : Option Label) : (scopeKind? parent label).isSome = true := by
  unfold scopeKind?
  rw [hnamed]
  by_cases hfunction : opensFunctionScope label.kind
  · simp [hfunction]
  · -- of the owners only a catch clause does not open the scope of a function
    have hcatch : label.kind = "catch_clause" := by
      simp only [ownsBody, opensFunctionScope, Bool.or_eq_true, beq_iff_eq] at h hfunction
      grind
    simp [hcatch, opensFunctionScope, opensClassScope, opensBlockScope, isFunctionDeclarationKind,
      isFunctionKind]

/-- A body that shares a scope opens none, and its parent opens the one it shares. -/
theorem scopeKind?_of_sharesScope {parent label : Label} (h : sharesScope parent label = true) :
    scopeKind? (some parent) label = none ∧
      (parent.named = true → ∀ outer, (scopeKind? outer parent).isSome = true) := by
  simp only [sharesScope, Bool.or_eq_true, Bool.and_eq_true, beq_iff_eq] at h
  rcases h with ⟨hkind, howned⟩ | ⟨hkind, hswitch⟩
  · refine ⟨?_, fun hnamed outer => isSome_scopeKind?_of_ownsBody hnamed ?_ outer⟩
    · simp [scopeKind?, hkind, howned, opensFunctionScope, opensClassScope, isFunctionDeclarationKind,
        isFunctionKind]
    · simp only [isOwnedBody, Bool.and_eq_true, Option.any_some] at howned
      exact howned.2
  · constructor
    · simp [scopeKind?, hkind, opensFunctionScope, opensClassScope, opensBlockScope,
        isFunctionDeclarationKind, isFunctionKind]
    · intro hnamed outer
      simp [scopeKind?, hnamed, hswitch, opensFunctionScope, opensClassScope, opensBlockScope,
        isFunctionDeclarationKind, isFunctionKind]

/-- Every other block opens a scope. -/
theorem isSome_scopeKind?_of_isBlockKind {parent label : Label} (hnamed : label.named = true)
    (hkind : isBlockKind label.kind = true) (hown : sharesScope parent label = false) :
    (scopeKind? (some parent) label).isSome = true := by
  simp only [isBlockKind, Bool.or_eq_true, beq_iff_eq] at hkind
  rcases hkind with (hkind | hkind) | hkind
  · have howned : isOwnedBody (some parent) label = false := by simpa [sharesScope, hkind] using hown
    simp [scopeKind?, hnamed, hkind, howned, opensFunctionScope, opensClassScope, isFunctionDeclarationKind,
      isFunctionKind]
  · simp [scopeKind?, hnamed, hkind, opensFunctionScope, opensClassScope, opensBlockScope,
      isFunctionDeclarationKind, isFunctionKind]
  · simp [scopeKind?, hnamed, hkind, opensFunctionScope, opensClassScope, opensBlockScope,
      isFunctionDeclarationKind, isFunctionKind]

end Tree

namespace Spot

/-! ## Scopes and ranges -/

theorem scopes_child (s : Spot) (i : Nat) (c : Tree) : (s.child i c).scopes =
    match Tree.scopeKind? (some s.tree.label) c.label with
    | some kind => ⟨.opener (i :: s.path), kind⟩ :: s.scopes
    | none => s.scopes := rfl

theorem innermost_scopes {s : Spot} (h : s.opens?.isSome = true) : innermost s.scopes = .opener s.path := by
  obtain ⟨kind, hkind⟩ := Option.isSome_iff_exists.mp h
  rw [scopes_eq, hkind]
  rfl

variable {tree : Tree}

/-- A node that has the scope of another one around it lies below that node. -/
theorem In.reach_of_mem_scopes {u n : Spot} (hu : u.In tree) (hn : n.In tree)
    (h : ∃ e ∈ n.scopes, e.owner = .opener u.path) : Relation.ReflTransGen HasChild u n := by
  obtain ⟨e, he, howner⟩ := h
  induction hn with
  | refl =>
    have hpath : u.path = [] := by
      rw [scopes_eq] at he
      split at he
      · rcases List.mem_cons.mp he with rfl | he
        · exact (Owner.opener.inj howner).symm
        · obtain rfl : e = ⟨.wholeModule, .wholeModule⟩ := List.mem_singleton.mp he
          cases howner
      · obtain rfl : e = ⟨.wholeModule, .wholeModule⟩ := List.mem_singleton.mp he
        cases howner
    rw [hu.eq_of_path .refl hpath]
  | tail hm hchild ih =>
    have hin := hm.tail hchild
    obtain ⟨i, c, hc, rfl⟩ := hchild
    rw [scopes_child] at he
    split at he
    · rcases List.mem_cons.mp he with rfl | he
      · rw [hu.eq_of_path hin (Owner.opener.inj howner).symm]
      · exact (ih he).tail ⟨i, c, hc, rfl⟩
    · exact (ih he).tail ⟨i, c, hc, rfl⟩

variable {src : Source}

theorem covers_of_reach (hlaid : tree.LaidOut src) {u n : Spot} (hu : u.In tree)
    (hreach : Relation.ReflTransGen HasChild u n) : u.tree.label.Covers n.tree.label :=
  ⟨(hlaid.range_of_reach hu hreach).1, (hlaid.range_of_reach hu hreach).2.1⟩

theorem covers_child (hlaid : tree.LaidOut src) {u : Spot} (hu : u.In tree) {i : Nat} {c : Tree}
    (hc : u.tree.children[i]? = some c) : u.tree.label.Covers c.label :=
  covers_of_reach hlaid hu (.single ⟨i, c, hc, rfl⟩)

/-- The block around a node holds the node. -/
theorem In.covers_blockAround (hlaid : tree.LaidOut src) {v : Spot} (hv : v.In tree) {block : Label}
    (hblock : Tree.blockAround (v.tree.label :: v.ancestors) = some block) : block.Covers v.tree.label := by
  induction hv with
  | refl =>
    obtain rfl : tree.label = block := Option.some.inj hblock
    exact ⟨Nat.le_refl _, Nat.le_refl _⟩
  | @tail u v hu hchild ih =>
    obtain ⟨i, c, hc, rfl⟩ := hchild
    have hrange : u.tree.label.Covers c.label := covers_child hlaid hu hc
    simp only [child, Tree.blockAround] at hblock
    split at hblock
    · cases hblock
      exact hrange
    · split at hblock
      · cases hblock
        exact ⟨Nat.le_refl _, Nat.le_refl _⟩
      · exact (ih hblock).trans hrange

/-- **A scope lies inside its block.** Whatever has the innermost scope of a node around it lies in the block
around that node. The induction is down to the node: at every level the block is found there, with the scope,
or both are those of the parent. -/
theorem VisitedIn.covers_of_scope (hlaid : tree.LaidOut src) {v n : Spot} (hv : v.VisitedIn tree)
    (hn : n.In tree) (hscope : ∃ e ∈ n.scopes, e.owner = innermost v.scopes) {block : Label}
    (hblock : Tree.blockAround (v.tree.label :: v.ancestors) = some block) :
    block.Covers n.tree.label := by
  induction hv with
  | refl =>
    obtain rfl : tree.label = block := Option.some.inj hblock
    exact covers_of_reach hlaid .refl hn
  | @tail u v hu hchild ih =>
    have hin : v.In tree := (VisitedIn.isIn hu).tail hchild.1
    obtain ⟨⟨i, c, hc, rfl⟩, hnamed⟩ := hchild
    have hrange : u.tree.label.Covers c.label := covers_child hlaid (VisitedIn.isIn hu) hc
    -- an opener of its own scope holds whatever has that scope around it
    have hopener (t : Spot) (ht : t.In tree) (hopens : t.opens?.isSome = true)
        (hsame : innermost (u.child i c).scopes = innermost t.scopes) :
        t.tree.label.Covers n.tree.label := by
      rw [hsame, innermost_scopes hopens] at hscope
      exact covers_of_reach hlaid ht (ht.reach_of_mem_scopes hn hscope)
    simp only [child, Tree.blockAround] at hblock
    split at hblock
    · next hshares =>
      cases hblock
      obtain ⟨hnone, hparent⟩ := Tree.scopeKind?_of_sharesScope hshares
      rcases Relation.ReflTransGen.cases_tail hu with rfl | ⟨_, _, _, hunamed⟩
      · exact covers_of_reach hlaid .refl hn
      · exact hopener u (VisitedIn.isIn hu) (hparent hunamed _) (by rw [scopes_child, hnone])
    · next hown =>
      split at hblock
      · next hkind =>
        cases hblock
        have hopens := Tree.isSome_scopeKind?_of_isBlockKind hnamed hkind (Bool.eq_false_iff.mpr hown)
        exact hopener (u.child i c) hin hopens rfl
      · cases hkind : Tree.scopeKind? (some u.tree.label) c.label with
        | none =>
          rw [scopes_child, hkind] at hscope
          exact ih hscope hblock
        | some kind =>
          have hopens : (u.child i c).opens?.isSome = true := by
            rw [opens?, child, List.head?_cons, hkind]
            rfl
          exact ((VisitedIn.isIn hu).covers_blockAround hlaid hblock).trans
            (hrange.trans (hopener (u.child i c) hin hopens rfl))

end Spot

namespace Tree

/-! ## The reads of a record -/

theorem Means.exists_owner {src : Source} {tree : Tree} {name : String} {scopes : List Enclosure}
    {owner : Owner} (h : tree.Means src name scopes owner) : ∃ e ∈ scopes, e.owner = owner := by
  induction h with
  | here => exact ⟨_, List.mem_cons_self, rfl⟩
  | outward _ _ ih =>
    obtain ⟨e, he, howner⟩ := ih
    exact ⟨e, List.mem_cons_of_mem _ he, howner⟩

/-- A read of a recorded name has the scope of the name around it. -/
theorem Recorded.exists_scope {src : Source} {tree : Tree} {b : Binder} {id : Scope.BindingId}
    (h : Recorded src tree b id) {loc : Location} (hloc : loc ∈ placesOf src tree id) :
    ∃ n : Spot, n.WalkedIn tree ∧ n.IsReference src tree ∧ loc = place n.tree.label src ∧
      ∃ e ∈ n.scopes, e.owner = b.owner := by
  have hagrees := (Survey.surveyed_surveyOf src tree).agrees
  obtain ⟨read, hmem, rfl⟩ := List.mem_map.mp hloc
  obtain ⟨hread, hlookup⟩ := List.mem_filter.mp hmem
  obtain ⟨n, hn, href, hencloses, -, hplace⟩ := mem_readsOf.mp hread
  obtain ⟨owner, i, hmeans, hi, hlocal⟩ :=
    (hencloses.lookup?_eq_some_iff read.name id).mp (beq_iff_eq.mp hlookup)
  -- one number is one binding, and a binding has one scope
  obtain ⟨scope, hscope, hbound⟩ := h.bound
  obtain ⟨β, hβ, hβscope, -⟩ := (hagrees.linked i _ id).mp hlocal
  obtain ⟨γ, hγ, hγscope, -⟩ := (hagrees.linked scope _ id).mp hbound
  rw [hβ] at hγ
  cases hγ
  have howner : owner = b.owner :=
    hagrees.numbered.owner_eq hi (by rw [← hβscope, hγscope]; exact hscope)
  exact ⟨n, hn, href, hplace, howner ▸ hmeans.exists_owner⟩

/-- The record of a binder, with its reads. -/
def ReadRecord (src : Source) (tree : Tree) (r : Record) (b : Binder) : Prop :=
  r.name = b.name src ∧ r.declaredAt = place b.site.label src ∧
    ∃ id, Recorded src tree b id ∧ r.reads = placesOf src tree id

theorem forall₂_readRecord (src : Source) (tree : Tree) :
    List.Forall₂ (ReadRecord src tree)
      (attachReads (resolveReads (surveyOf src tree).graph (readsOf src (surveyOf src tree) tree))
        (surveyOf src tree).records.toList)
      (((Spot.visited tree).flatMap Spot.binders).filter (·.recorded)) := by
  have hall := (Survey.surveyed_surveyOf src tree).agrees.records
  rw [List.nil_append] at hall
  obtain ⟨hlength, hget⟩ := List.forall₂_iff_get.mp hall
  refine List.forall₂_iff_get.mpr ⟨by simpa [attachReads] using hlength, ?_⟩
  intro i hi hi'
  obtain ⟨hname, hplace, -⟩ := hget i (hlength ▸ hi') hi'
  obtain ⟨id, β, hrec, href, hf⟩ := find?_resolveReads src (List.getElem?_eq_getElem hi')
  simp only [attachReads, List.get_eq_getElem, List.getElem_mapIdx, hf] at hname hplace ⊢
  exact ⟨hname, hplace, id, hrec, href⟩

end Tree

/-- Whether a node is a declarator of `let` or `const`. -/
def Spot.IsLexical (s : Spot) : Prop :=
  s.tree.label.kind = "variable_declarator" ∧
    s.ancestors.head?.map (·.kind) = some "lexical_declaration"

/-- A recorded name that a declarator of `let` or `const` introduces goes to the innermost scope. -/
theorem Spot.IsLexical.owner_eq {s : Spot} (h : s.IsLexical) {b : Binder} (hb : b ∈ s.declarators)
    (hr : b.recorded = true) : b.owner = innermost s.scopes := by
  obtain ⟨parent, hhead, hparent⟩ := Option.map_eq_some_iff.mp h.2
  have hstays : s.ancestors.head?.any (·.kind == "variable_declaration") = false := by
    simp [hhead, hparent]
  rw [declarators, h.1, hstays] at hb
  obtain ⟨target, -, -, rfl⟩ := Tree.mem_targetBinders_recorded hb hr
  rfl

namespace Tree

/-- A place is the one of a read that lies in the range of a label. -/
def ReadInside (src : Source) (tree : Tree) (block : Label) (loc : Location) : Prop :=
  ∃ n : Spot, n.WalkedIn tree ∧ n.IsReference src tree ∧ loc = place n.tree.label src ∧
    loc.offset = n.tree.label.start ∧ block.Covers n.tree.label

theorem ReadRecord.readInside {src : Source} {tree : Tree} (hlaid : tree.LaidOut src) {r : Record}
    {b : Binder} (hr : ReadRecord src tree r b) {s : Spot} (hs : s.VisitedIn tree) (hb : b ∈ s.binders)
    (hrecorded : b.recorded = true) (hlexical : s.IsLexical) {block : Label}
    (hblock : blockAround s.ancestors = some block) {loc : Location} (hloc : loc ∈ r.reads) :
    ReadInside src tree block loc := by
  obtain ⟨-, -, id, hrec, hreads⟩ := hr
  rw [hreads] at hloc
  obtain ⟨n, hn, href, hplace, hscope⟩ := hrec.exists_scope hloc
  have howner := hlexical.owner_eq (mem_declarators_of_recorded hb hrecorded) hrecorded
  rw [howner] at hscope
  -- a declarator is no block itself, so the blocks around it are those of its parent
  have hsame : blockAround (s.tree.label :: s.ancestors) = some block := by
    obtain ⟨parent, hhead, -⟩ := Option.map_eq_some_iff.mp hlexical.2
    obtain ⟨outer, houter⟩ := List.head?_eq_some_iff.mp hhead
    rw [houter] at hblock ⊢
    simpa [blockAround, sharesScope, isBlockKind, hlexical.1] using hblock
  refine ⟨n, hn, href, hplace, ?_, hs.covers_of_scope hlaid hn.visitedIn.isIn hscope hsame⟩
  rw [hplace]
  exact hlaid.offset_place hn.visitedIn.isIn

/-- **Reads of `let` and `const` stay inside the block**, in every tree without faults whose ranges are those
of a text: extraction gives one record for each node that declares a plain name, and what reads a record of
`let` or `const` lies in the block around its declarator. -/
theorem extract_reads_contained (language : Language) (src : Source) (tree : Tree)
    (hsound : tree.label.hasError = false) (hlaid : tree.LaidOut src) :
    ∃ records nodes, tree.extract language src = .ok records ∧
      (nodes.map Spot.path).Nodup ∧ (∀ s, s ∈ nodes ↔ s.VisitedIn tree ∧ ∃ t, s.Declares t) ∧
      List.Forall₂ (fun r s => RecordAt src r s ∧
        (s.IsLexical → ∃ block, blockAround s.ancestors = some block ∧
          ∀ loc ∈ r.reads, ReadInside src tree block loc)) records nodes := by
  obtain ⟨nodes, hnodup, hmem, hnodes⟩ := exists_sorted_nodes (forall₂_declaring _ (forall₂_readRecord src tree))
  refine ⟨recordsOf src tree, nodes, by simp [extract, hsound], hnodup, hmem, ?_⟩
  have hvisited := (List.forall₂_and_left nodes _).mpr ⟨fun s hs => ((hmem s).mp hs).1, hnodes.flip⟩
  refine hvisited.flip.imp ?_
  rintro r s ⟨hs, b, t, hr, hb, hrecorded, hdeclares, hsite⟩
  refine ⟨⟨t, hdeclares, by rw [hr.1, Binder.name, hsite], by rw [hr.2.1, hsite]⟩, ?_⟩
  intro hlexical
  obtain ⟨parent, hhead, -⟩ := Option.map_eq_some_iff.mp hlexical.2
  obtain ⟨outer, houter⟩ := List.head?_eq_some_iff.mp hhead
  obtain ⟨block, hblock⟩ := Option.isSome_iff_exists.mp (isSome_blockAround parent outer)
  rw [← houter] at hblock
  exact ⟨block, hblock, fun loc hloc =>
    hr.readInside hlaid hs hb hrecorded hlexical hblock hloc⟩

/-! ## A default that is read as a name of the body -/

/-- A function whose parameter has a default, with the same name outside and in the body. -/
def defaultInHead : Tree :=
  let label (kind field : String) (start stop : Nat) : Label :=
    ⟨kind, field, true, false, false, false, start, stop⟩
  let declaration (start : Nat) : Tree :=
    .node (label "lexical_declaration" "" start (start + 12))
      [.node { label "const" "kind" start (start + 5) with named := false } [],
        .node (label "variable_declarator" "" (start + 6) (start + 11))
          [.node (label "identifier" "name" (start + 6) (start + 7)) [],
            .node (label "number" "value" (start + 10) (start + 11)) []]]
  .node (label "program" "" 0 47)
    [declaration 0,
      .node (label "function_declaration" "" 13 47)
        [.node (label "identifier" "name" 22 23) [],
          .node (label "formal_parameters" "parameters" 23 30)
            [.node (label "assignment_pattern" "" 24 29)
              [.node (label "identifier" "left" 24 25) [], .node (label "identifier" "" 28 29) []]],
          .node (label "statement_block" "body" 31 47) [declaration 33]]]

def defaultInHeadText : Source :=
  .ofString "const x = 1;\nfunction f(a = x) \x7b const x = 2; \x7d"

theorem extract_reads_contained_defaultInHead :
    defaultInHead.label.hasError = false ∧ defaultInHead.LaidOut defaultInHeadText ∧
    ∃ records nodes, defaultInHead.extract .javascript defaultInHeadText = .ok records ∧
      (nodes.map Spot.path).Nodup ∧ (∀ s, s ∈ nodes ↔ s.VisitedIn defaultInHead ∧ ∃ t, s.Declares t) ∧
      List.Forall₂ (fun r s => RecordAt defaultInHeadText r s ∧
        (s.IsLexical → ∃ block, blockAround s.ancestors = some block ∧
          ∀ loc ∈ r.reads, ReadInside defaultInHeadText defaultInHead block loc)) records nodes :=
  have hlaid : defaultInHead.LaidOut defaultInHeadText := by decide
  ⟨rfl, hlaid, extract_reads_contained .javascript _ defaultInHead rfl hlaid⟩

/-- The innermost block around a place, no matter who owns it. -/
def innermostBlock? (ancestors : List Label) : Option Label :=
  ancestors.find? fun label =>
    isBlockKind label.kind || label.kind == "switch_body" || label.kind == "program"

/-- **The body alone would be too small.** -/
theorem default_read_outside_body : ∃ records r s body loc,
    defaultInHead.extract .javascript defaultInHeadText = .ok records ∧ r ∈ records ∧
    s.VisitedIn defaultInHead ∧ RecordAt defaultInHeadText r s ∧ s.IsLexical ∧
    innermostBlock? s.ancestors = some body ∧ loc ∈ r.reads ∧ loc.offset < body.start := by
  have hapart : defaultInHead.IdentifiersApart defaultInHeadText := by decide
  let node (i : Fin 16) : Spot := (Spot.visited defaultInHead).get i
  have hs : (node 13).VisitedIn defaultInHead := Spot.mem_visited.mp (List.get_mem _ _)
  have hdeclares : (node 13).Declares (node 14) := .declarator rfl rfl rfl
  -- the walk goes to the default through the head of the function
  have hn : (node 10).WalkedIn defaultInHead := by
    have hfunction : (node 0).WalksTo (node 5) := ⟨⟨⟨1, _, rfl, rfl⟩, rfl⟩, rfl⟩
    have hparameters : (node 5).WalksTo (node 7) := ⟨⟨⟨1, _, rfl, rfl⟩, rfl⟩, rfl⟩
    have hpattern : (node 7).WalksTo (node 8) := ⟨⟨⟨0, _, rfl, rfl⟩, rfl⟩, rfl⟩
    have hdefault : (node 8).WalksTo (node 10) := ⟨⟨⟨1, _, rfl, rfl⟩, rfl⟩, rfl⟩
    exact (((Relation.ReflTransGen.single hfunction).tail hparameters).tail hpattern).tail hdefault
  have href : (node 10).IsReference defaultInHeadText defaultInHead := ⟨by decide, by decide⟩
  let b : Binder := ⟨.opener [1], ⟨[0, 1, 0, 2, 1], (node 14).tree.label⟩, true⟩
  have hb : b ∈ (node 13).declarators := by decide
  have hmeans : defaultInHead.Means defaultInHeadText ((node 10).tree.label.text defaultInHeadText)
      (node 10).scopes b.owner :=
    .here (e := ⟨.opener [1], .function⟩) ⟨node 13, hs, b,
      List.mem_append_right _ (List.mem_append_left _ hb), rfl, by decide⟩
  obtain ⟨r, hr, hname, hplace⟩ := exists_mem_recordsOf defaultInHeadText hs hb rfl
  obtain ⟨c, id, hrec, hname', hplace', hreads⟩ := mem_recordsOf hr
  have hdeclared : defaultInHead.DeclaredBy defaultInHeadText r b := ⟨⟨node 13, hs, hb⟩, rfl, hname, hplace⟩
  obtain rfl := hdeclared.unique hapart ⟨hrec.declared, hrec.recorded, hname', hplace'⟩
  refine ⟨recordsOf defaultInHeadText defaultInHead, r, node 13, (node 11).tree.label,
    place (node 10).tree.label defaultInHeadText, rfl, hr, hs, ⟨node 14, hdeclares, hname, hplace⟩,
    ⟨rfl, rfl⟩, rfl, ?_, by decide⟩
  rw [hreads]
  exact (place_mem_placesOf hapart hrec hn href).mpr ⟨by decide, hmeans⟩

end Tree
end VarCensus
