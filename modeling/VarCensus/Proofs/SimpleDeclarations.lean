import Mathlib.Data.List.Perm.Basic
import VarCensus.Proofs.LexicalReads

/-!
# Records belong to plain declarations

Many nodes of a syntax tree introduce a name: functions and classes their own, parameters, catch clauses,
imports, patterns. Only two shapes make a record, a declarator and the head of a loop, and only where a plain
name stands on the left. `Spot.Declares` says so of a single node, and `extract_simpleDeclarations` says that
the records of a tree belong to these nodes, one to each.

The first pass meets every node once (`nodup_paths_nodesFrom`), and of the names that one node introduces at
most one is recorded (`filter_recorded_binders`). What remains is to follow the records through the two later
changes: reads are attached to them, and they are sorted.
-/

namespace VarCensus
namespace Spot

/-! ## Which nodes declare a plain name -/

/-- The child in a field, where it stands. -/
def field? (s : Spot) (field : String) : Option Spot :=
  (s.tree.numberedChild? field).map fun (i, tree) => s.child i tree

/-- A node declares a variable by a plain name, which is the node `t`. -/
inductive Declares (s t : Spot) : Prop
  | declarator (hkind : s.tree.label.kind = "variable_declarator") (htarget : s.field? "name" = some t)
      (hplain : t.tree.label.kind = "identifier")
  | loop (hkind : s.tree.label.kind = "for_in_statement") (hkeyword : (s.tree.child? "kind").isSome)
      (htarget : s.field? "left" = some t) (hplain : t.tree.label.kind = "identifier")

/-- The names inside the pattern that a field holds; none if it holds a plain name. -/
def namesInPattern (s : Spot) (field : String) : List Site :=
  match s.field? field with
  | none => []
  | some t => if t.tree.label.kind == "identifier" then [] else Tree.patternSites t.path t.tree

/-- The names that a node introduces in any other way: its own, its parameters, what it imports, and the
names in a pattern that it declares. -/
def otherNames (s : Spot) : List Site :=
  Tree.outerSites s.path s.tree ++ Tree.innerSites s.path s.tree ++ Tree.importSites s.path s.tree ++
    (s.namesInPattern "name" ++ s.namesInPattern "left")

/-- Whether nodes of this kind declare variables. -/
def declaresVariables (kind : String) : Bool :=
  kind == "variable_declarator" || kind == "for_in_statement"

theorem Declares.declaresVariables {s t : Spot} (h : s.Declares t) :
    declaresVariables s.tree.label.kind = true := by
  cases h with
  | declarator hkind => rw [hkind]; rfl
  | loop hkind => rw [hkind]; rfl

theorem Declares.plain {s t : Spot} (h : s.Declares t) : t.tree.label.kind = "identifier" := by
  cases h with
  | declarator _ _ hplain => exact hplain
  | loop _ _ _ hplain => exact hplain

theorem field?_eq_some {s t : Spot} {field : String} (h : s.field? field = some t) : s.HasChild t := by
  obtain ⟨⟨i, c⟩, hf, rfl⟩ := Option.map_eq_some_iff.mp h
  exact ⟨i, c, Tree.numberedChild?_eq_some hf, rfl⟩

theorem Declares.hasChild {s t : Spot} (h : s.Declares t) : s.HasChild t := by
  cases h with
  | declarator _ htarget => exact field?_eq_some htarget
  | loop _ _ htarget => exact field?_eq_some htarget

/-! ## The recorded name of a node -/

/-- What a node declares if it is a plain name. -/
def target? (s : Spot) : Option Spot :=
  if s.tree.label.kind == "variable_declarator" then s.field? "name"
  else if s.tree.label.kind == "for_in_statement" && (s.tree.child? "kind").isSome then s.field? "left"
  else none

/-- The plain name that a node declares. -/
def declared? (s : Spot) : Option Spot :=
  s.target?.filter (·.tree.label.kind == "identifier")

theorem declared?_eq_some {s t : Spot} : s.declared? = some t ↔ s.Declares t := by
  simp only [declared?, target?, Option.filter_eq_some_iff, beq_iff_eq]
  constructor
  · rintro ⟨htarget, hplain⟩
    split at htarget
    · next hkind => exact .declarator hkind htarget hplain
    · split at htarget
      · next hloop =>
        simp only [Bool.and_eq_true, beq_iff_eq] at hloop
        exact .loop hloop.1 hloop.2 htarget hplain
      · cases htarget
  · rintro (⟨hkind, htarget, hplain⟩ | ⟨hkind, hkeyword, htarget, hplain⟩)
    · simp [hkind, htarget, hplain]
    · simp [hkind, hkeyword, htarget, hplain]

theorem fieldSite?_eq_map (s : Spot) (field : String) :
    Tree.fieldSite? s.path s.tree field = (s.field? field).map fun t => ⟨t.path, t.tree.label⟩ := by
  simp only [Tree.fieldSite?, field?, Option.map_map]
  rfl

theorem filter_recorded_targetBinders (s : Spot) (rises : Bool) (field : String) :
    ((s.targetBinders rises field).filter (·.recorded)).map (·.site) =
      ((s.field? field).filter (·.tree.label.kind == "identifier")).toList.map
        fun t => ⟨t.path, t.tree.label⟩ := by
  rw [targetBinders, fieldSite?_eq_map]
  cases s.field? field with
  | none => rfl
  | some t =>
    by_cases hplain : t.tree.label.kind = "identifier"
    · simp [Option.filter, hplain]
    · simp [Option.filter, hplain, List.filter_map, Function.comp_def]

theorem filter_recorded_eq_nil {l : List Site} {owner : Owner} :
    (l.map (⟨owner, ·, false⟩ : Site → Binder)).filter (·.recorded) = [] := by
  simp [List.filter_map, Function.comp_def]

/-- **At most one name of a node is recorded**, the plain one that it declares. -/
theorem filter_recorded_binders (s : Spot) :
    (s.binders.filter (·.recorded)).map (·.site) =
      s.declared?.toList.map fun t => ⟨t.path, t.tree.label⟩ := by
  have hopener : s.openerBinders.filter (·.recorded) = [] := by
    unfold openerBinders
    split
    · rw [List.filter_append, filter_recorded_eq_nil, filter_recorded_eq_nil, List.append_nil]
    · rfl
  have himports : s.imports.filter (·.recorded) = [] := filter_recorded_eq_nil
  rw [binders, List.filter_append, List.filter_append, hopener, himports, List.nil_append, List.append_nil]
  unfold declarators declared? target?
  split
  · exact s.filter_recorded_targetBinders _ "name"
  · by_cases hkind : s.tree.label.kind = "for_in_statement"
    · cases hkeyword : s.tree.child? "kind" with
      | none => simp [hkind]
      | some keyword =>
        simp only [hkind, beq_self_eq_true, Option.isSome_some, Bool.and_self, ↓reduceIte]
        exact s.filter_recorded_targetBinders _ "left"
    · simp [hkind]

/-! ## Every node is met once -/

theorem suffix_of_mem_nodesAmong {path : TreePath} {ancestors : List Label} {i : Nat} {children : List Tree}
    {t : Spot} (h : t ∈ nodesAmong Label.named path ancestors i children) :
    ∃ k, (i + k) :: path <:+ t.path := by
  obtain ⟨k, c, -, -, hreach⟩ := (mem_nodesAmong Label.named path ancestors t i children).mp h
  exact ⟨k, Survey.suffix_of_mem_nodesFrom ((mem_nodesFrom Label.named _ ancestors t c).mpr hreach)⟩

mutual

theorem nodup_paths_nodesFrom :
    ∀ (tree : Tree) (path : TreePath) (ancestors : List Label),
      ((nodesFrom Label.named path ancestors tree).map (·.path)).Nodup
  | .node label children, path, ancestors => by
    rw [nodesFrom, List.map_cons, List.nodup_cons]
    refine ⟨?_, nodup_paths_nodesAmong children path (label :: ancestors) 0⟩
    intro hmem
    obtain ⟨t, ht, hpath⟩ := List.mem_map.mp hmem
    -- paths below a node are longer than its own
    obtain ⟨k, hsuffix⟩ := suffix_of_mem_nodesAmong ht
    have hlength := hsuffix.length_le
    rw [hpath, List.length_cons] at hlength
    exact Nat.not_succ_le_self _ hlength

theorem nodup_paths_nodesAmong :
    ∀ (children : List Tree) (path : TreePath) (ancestors : List Label) (i : Nat),
      ((nodesAmong Label.named path ancestors i children).map (·.path)).Nodup
  | [], path, ancestors, i => by simp [nodesAmong]
  | tree :: more, path, ancestors, i => by
    have hmore := nodup_paths_nodesAmong more path ancestors (i + 1)
    rw [nodesAmong, List.map_append]
    by_cases hnamed : tree.label.named
    · rw [if_pos hnamed]
      refine List.nodup_append.mpr ⟨nodup_paths_nodesFrom tree (i :: path) ancestors, hmore, ?_⟩
      intro p hp q hq heq
      obtain ⟨t, ht, rfl⟩ := List.mem_map.mp hp
      obtain ⟨u, hu, rfl⟩ := List.mem_map.mp hq
      have hfirst := Survey.suffix_of_mem_nodesFrom ht
      obtain ⟨k, hlater⟩ := suffix_of_mem_nodesAmong hu
      rw [← heq] at hlater
      have hsame := (List.suffix_of_suffix_length_le hfirst hlater (by simp)).eq_of_length (by simp)
      simp only [List.cons.injEq, and_true] at hsame
      omega
    · rw [if_neg hnamed, List.map_nil, List.nil_append]
      exact hmore

end

/-! ## Other names are other nodes -/

/-- The plain name of a declaration stands right below a node that declares variables. -/
theorem Declares.path_ne {tree : Tree} {s t u : Spot} (hs : s.In tree) (h : s.Declares t) (hu : u.In tree)
    (hkind : Spot.declaresVariables u.tree.label.kind = false) (i : Nat) : t.path ≠ i :: u.path := by
  intro hpath
  obtain ⟨j, c, -, rfl⟩ := h.hasChild
  have hsu : s.path = u.path := (List.cons.inj hpath).2
  have hvars := h.declaresVariables
  rw [hs.eq_of_path hu hsu, hkind] at hvars
  cases hvars

/-- A kind that passes a test on which both kinds of declarations fail declares no variables. -/
theorem declaresVariables_eq_false {f : String → Bool} (hdeclarator : f "variable_declarator" = false)
    (hloop : f "for_in_statement" = false) {kind : String} (h : f kind = true) :
    declaresVariables kind = false := by
  cases hvars : declaresVariables kind with
  | false => rfl
  | true =>
    simp only [declaresVariables, Bool.or_eq_true, beq_iff_eq] at hvars
    rcases hvars with rfl | rfl
    · rw [hdeclarator] at h
      cases h
    · rw [hloop] at h
      cases h

/-! ### Patterns

A pattern is read from the outside in: a collection hands its part on to all of its named children, and any
other pattern to the child in one field. `mem_patternSites` says that the names which a pattern binds are the
ones at which this ends. -/

/-- A pattern hands its part on to a node below it. -/
inductive HandsTo (s t : Spot) : Prop
  | collection (hkind : Tree.isCollectionKind s.tree.label.kind = true) (hchild : s.HasNamedChild t)
  | field {field : String} (hkind : Tree.patternField? s.tree.label.kind = some field)
      (hchild : s.field? field = some t)

/-- The pattern at a node binds the name at a site. -/
def BindsAt (s : Spot) (site : Site) : Prop :=
  ∃ t, Relation.ReflTransGen HandsTo s t ∧ Tree.isTargetKind t.tree.label.kind = true ∧
    site = ⟨t.path, t.tree.label⟩

theorem HandsTo.hasChild {s t : Spot} (h : s.HandsTo t) : s.HasChild t := by
  cases h with
  | collection _ hchild => exact hchild.1
  | field _ hchild => exact field?_eq_some hchild

theorem not_handsTo {s : Spot} (hcollection : Tree.isCollectionKind s.tree.label.kind = false)
    (hfield : Tree.patternField? s.tree.label.kind = none) (t : Spot) : ¬ s.HandsTo t := by
  rintro (⟨hkind, -⟩ | ⟨hkind, -⟩)
  · exact absurd hkind (by simp [hcollection])
  · exact absurd hkind (by simp [hfield])

theorem bindsAt_iff {s : Spot} {site : Site} : s.BindsAt site ↔
    Tree.isTargetKind s.tree.label.kind = true ∧ site = ⟨s.path, s.tree.label⟩ ∨
      ∃ t, s.HandsTo t ∧ t.BindsAt site := by
  constructor
  · rintro ⟨t, hreach, htarget, rfl⟩
    rcases Relation.ReflTransGen.cases_head hreach with rfl | ⟨u, hu, hreach⟩
    · exact Or.inl ⟨htarget, rfl⟩
    · exact Or.inr ⟨u, hu, t, hreach, htarget, rfl⟩
  · rintro (⟨htarget, rfl⟩ | ⟨u, hu, t, hreach, htarget, rfl⟩)
    · exact ⟨s, .refl, htarget, rfl⟩
    · exact ⟨t, hreach.head hu, htarget, rfl⟩

/-- A name holds no patterns. -/
theorem kinds_of_isTargetKind {kind : String} (h : Tree.isTargetKind kind = true) :
    Tree.isCollectionKind kind = false ∧ Tree.patternField? kind = none := by
  simp only [Tree.isTargetKind, Bool.or_eq_true, beq_iff_eq] at h
  rcases h with rfl | rfl <;> decide

theorem patternField?_of_isCollectionKind {kind : String} (h : Tree.isCollectionKind kind = true) :
    Tree.patternField? kind = none := by
  simp only [Tree.isCollectionKind, Bool.or_eq_true, beq_iff_eq] at h
  rcases h with (rfl | rfl) | rfl <;> decide

mutual

/-- **The names that a pattern binds** are those that its part is handed on to. -/
theorem mem_patternSites {site : Site} :
    ∀ (tree : Tree) (path : TreePath) (ancestors : List Label),
      site ∈ Tree.patternSites path tree ↔ (⟨path, ancestors, tree⟩ : Spot).BindsAt site
  | .node label children, path, ancestors => by
    rw [Tree.patternSites, bindsAt_iff]
    cases htarget : Tree.isTargetKind label.kind with
    | true =>
      have hkinds := kinds_of_isTargetKind htarget
      have hnone := not_handsTo (s := ⟨path, ancestors, .node label children⟩) hkinds.1 hkinds.2
      simp [hnone, htarget, Tree.label]
    | false =>
      cases hcollection : Tree.isCollectionKind label.kind with
      | true =>
        have hfield := patternField?_of_isCollectionKind hcollection
        simp only [Bool.false_eq_true, ↓reduceIte, mem_namedSites children path (label :: ancestors) 0, htarget,
          Tree.label, false_and, false_or, Nat.zero_add]
        constructor
        · rintro ⟨k, c, hk, hnamed, hc⟩
          exact ⟨_, .collection hcollection ⟨⟨k, c, hk, rfl⟩, hnamed⟩, hc⟩
        · rintro ⟨t, ⟨-, ⟨k, c, hk, rfl⟩, hnamed⟩ | ⟨hkind, -⟩, hc⟩
          · exact ⟨k, c, hk, hnamed, hc⟩
          · exact absurd hkind (by simp [Tree.label, hfield])
      | false =>
        simp only [Bool.false_eq_true, ↓reduceIte, htarget, Tree.label, false_and, false_or]
        cases hfield : Tree.patternField? label.kind with
        | none =>
          have hnone := not_handsTo (s := ⟨path, ancestors, .node label children⟩) hcollection hfield
          simp [hnone]
        | some field =>
          dsimp only
          rw [mem_fieldSites children path (label :: ancestors) field 0, ← List.range_eq_range']
          constructor
          · rintro ⟨k, c, hfind, hc⟩
            exact ⟨_, .field hfield (Option.map_eq_some_iff.mpr ⟨(k, c), hfind, rfl⟩), hc⟩
          · rintro ⟨t, ⟨hkind, -⟩ | ⟨hkind, hchild⟩, hc⟩
            · exact absurd hkind (by simp [Tree.label, hcollection])
            · rw [Tree.label, hfield] at hkind
              cases hkind
              obtain ⟨⟨k, c⟩, hfind, rfl⟩ := Option.map_eq_some_iff.mp hchild
              exact ⟨k, c, hfind, hc⟩

theorem mem_namedSites {site : Site} :
    ∀ (children : List Tree) (path : TreePath) (ancestors : List Label) (i : Nat),
      site ∈ Tree.namedSites path i children ↔ ∃ k c, children[k]? = some c ∧ c.label.named = true ∧
        (⟨(i + k) :: path, ancestors, c⟩ : Spot).BindsAt site
  | [], path, ancestors, i => by simp [Tree.namedSites]
  | tree :: more, path, ancestors, i => by
    rw [Tree.namedSites, List.mem_append, mem_namedSites more path ancestors (i + 1)]
    constructor
    · rintro (h | ⟨k, c, hk, hnamed, hc⟩)
      · split at h
        · next hnamed => exact ⟨0, tree, rfl, hnamed, (mem_patternSites tree (i :: path) ancestors).mp h⟩
        · cases h
      · rw [Nat.add_assoc, Nat.add_comm 1] at hc
        exact ⟨k + 1, c, hk, hnamed, hc⟩
    · rintro ⟨k, c, hk, hnamed, hc⟩
      cases k with
      | zero =>
        cases hk
        rw [if_pos hnamed]
        exact Or.inl ((mem_patternSites tree (i :: path) ancestors).mpr hc)
      | succ k =>
        rw [← Nat.add_assoc, Nat.add_right_comm] at hc
        exact Or.inr ⟨k, c, hk, hnamed, hc⟩

theorem mem_fieldSites {site : Site} :
    ∀ (children : List Tree) (path : TreePath) (ancestors : List Label) (field : String) (i : Nat),
      site ∈ Tree.fieldSites path field i children ↔
        ∃ k c, ((List.range' i children.length).zip children).find? (·.2.label.field == field) = some (k, c) ∧
          (⟨k :: path, ancestors, c⟩ : Spot).BindsAt site
  | [], path, ancestors, field, i => by simp [Tree.fieldSites]
  | tree :: more, path, ancestors, field, i => by
    rw [Tree.fieldSites, List.length_cons, List.range'_succ, List.zip_cons_cons, List.find?_cons]
    cases hfield : tree.label.field == field with
    | true => simp [mem_patternSites tree (i :: path) ancestors]
    | false => exact mem_fieldSites more path ancestors field (i + 1)

end

/-- A node of a pattern that holds other patterns. -/
def holdsPatterns (kind : String) : Bool :=
  Tree.isCollectionKind kind || (Tree.patternField? kind).isSome

theorem HandsTo.holdsPatterns {s t : Spot} (h : s.HandsTo t) : holdsPatterns s.tree.label.kind = true := by
  cases h with
  | collection hkind => simp [Spot.holdsPatterns, hkind]
  | field hkind => simp [Spot.holdsPatterns, hkind]

/-- A path that is bound as a part of the pattern at a node: it is the node's own, or right below some node
of the pattern that holds others. -/
def InPattern (s : Spot) (path : TreePath) : Prop :=
  path = s.path ∨ ∃ u i, Relation.ReflTransGen HasChild s u ∧ holdsPatterns u.tree.label.kind = true ∧
    path = i :: u.path

theorem BindsAt.inPattern {s : Spot} {site : Site} (h : s.BindsAt site) : s.InPattern site.path := by
  obtain ⟨t, hreach, -, rfl⟩ := h
  rcases Relation.ReflTransGen.cases_tail hreach with rfl | ⟨u, hsu, hut⟩
  · exact Or.inl rfl
  · obtain ⟨i, c, -, rfl⟩ := hut.hasChild
    have hbelow := Relation.ReflTransGen.mono (fun _ _ => HandsTo.hasChild) _ _ hsu
    exact Or.inr ⟨u, i, hbelow, hut.holdsPatterns, rfl⟩

section

variable {tree : Tree} {s u t : Spot}

theorem Declares.path_ne_of_reach (hu : u.In tree) (h : u.Declares t) {p q : Spot} (hp : p.In tree)
    (hreach : Relation.ReflTransGen HasChild p q) (hq : holdsPatterns q.tree.label.kind = true) (i : Nat) :
    t.path ≠ i :: q.path :=
  h.path_ne hu (hp.trans hreach) (declaresVariables_eq_false rfl rfl hq) i

/-- A pattern below a node that declares no variables. -/
theorem Declares.path_ne_of_inPattern (hu : u.In tree) (h : u.Declares t) (hs : s.In tree)
    (hkind : Spot.declaresVariables s.tree.label.kind = false) {i : Nat} {c : Tree}
    (hc : s.tree.children[i]? = some c) {path : TreePath} (hin : (s.child i c).InPattern path) :
    t.path ≠ path := by
  rcases hin with rfl | ⟨q, j, hreach, hq, rfl⟩
  · exact h.path_ne hu hs hkind i
  · exact h.path_ne_of_reach hu (hs.tail ⟨i, c, hc, rfl⟩) hreach hq j

theorem Declares.path_ne_fieldPattern (hu : u.In tree) (h : u.Declares t) (hs : s.In tree)
    (hkind : Spot.declaresVariables s.tree.label.kind = false) {field : String} {site : Site}
    (hsite : site ∈ Tree.fieldPattern s.path s.tree field) : t.path ≠ site.path := by
  obtain ⟨k, c, hfind, hc⟩ := (mem_fieldSites _ s.path (s.tree.label :: s.ancestors) field 0).mp hsite
  rw [← List.range_eq_range'] at hfind
  exact h.path_ne_of_inPattern hu hs hkind (Tree.numberedChild?_eq_some hfind) hc.inPattern

theorem Declares.path_ne_fieldSite (hu : u.In tree) (h : u.Declares t) (hs : s.In tree)
    (hkind : Spot.declaresVariables s.tree.label.kind = false) {field : String} {site : Site}
    (hsite : site ∈ (Tree.fieldSite? s.path s.tree field).toList) : t.path ≠ site.path := by
  obtain ⟨i, c, -, rfl⟩ := Tree.fieldSite?_eq_some (Option.mem_toList.mp hsite)
  exact h.path_ne hu hs hkind i

theorem Declares.path_ne_innerSites (hu : u.In tree) (h : u.Declares t) (hs : s.In tree)
    (hparameters : ∀ p, s.field? "parameters" = some p → Spot.declaresVariables p.tree.label.kind = false)
    {site : Site} (hsite : site ∈ Tree.innerSites s.path s.tree) : t.path ≠ site.path := by
  simp only [Tree.innerSites, List.mem_append] at hsite
  rcases hsite with (hown | hsingle) | hlisted
  · split at hown
    · next hkind => exact h.path_ne_fieldSite hu hs (declaresVariables_eq_false rfl rfl hkind) hown
    · cases hown
  · split at hsingle
    · next hkind =>
      have hvars := declaresVariables_eq_false
        (f := fun kind => kind == "catch_clause" || kind == "arrow_function") rfl rfl hkind
      exact h.path_ne_fieldPattern hu hs hvars hsingle
    · cases hsingle
  · split at hlisted
    · next i parameters hfield =>
      have hchild := Tree.numberedChild?_eq_some hfield
      have hin : (s.child i parameters).In tree := hs.tail ⟨i, parameters, hchild, rfl⟩
      have hvars := hparameters (s.child i parameters) (by simp [field?, hfield])
      obtain ⟨k, c, hk, -, hc⟩ := (mem_namedSites parameters.children (i :: s.path)
        (parameters.label :: s.tree.label :: s.ancestors) 0).mp hlisted
      rw [Nat.zero_add] at hc
      exact h.path_ne_of_inPattern hu hin hvars hk hc.inPattern
    · cases hlisted

theorem Declares.path_ne_importSites (hu : u.In tree) (h : u.Declares t) (hs : s.In tree) {site : Site}
    (hsite : site ∈ Tree.importSites s.path s.tree) : t.path ≠ site.path := by
  simp only [Tree.importSites] at hsite
  split at hsite
  · next hkind =>
    have hvars := declaresVariables_eq_false (f := (· == "import_specifier")) rfl rfl hkind
    split at hsite
    · exact h.path_ne_fieldPattern hu hs hvars hsite
    · exact h.path_ne_fieldPattern hu hs hvars hsite
  · split at hsite
    · next hkind =>
      have hvars := declaresVariables_eq_false
        (f := fun kind => kind == "import_clause" || kind == "namespace_import") rfl rfl hkind
      obtain ⟨⟨i, c⟩, -, hsome⟩ := List.mem_filterMap.mp hsite
      dsimp only at hsome
      split at hsome
      · cases hsome
        exact h.path_ne hu hs hvars i
      · cases hsome
    · cases hsite

theorem Declares.path_ne_namesInPattern (hu : u.In tree) (h : u.Declares t) (hs : s.In tree)
    {field : String} {site : Site} (hsite : site ∈ s.namesInPattern field) : t.path ≠ site.path := by
  unfold namesInPattern at hsite
  split at hsite
  · cases hsite
  · next p hfield =>
    have hp : p.In tree := hs.tail (field?_eq_some hfield)
    split at hsite
    · cases hsite
    · next hplain =>
      have hbinds := (mem_patternSites p.tree p.path p.ancestors).mp hsite
      rcases hbinds.inPattern with hpath | ⟨q, j, hreach, hq, hpath⟩
      · intro heq
        -- the name of a declaration and a pattern cannot be the same node
        have ht : t.In tree := hu.tail h.hasChild
        rw [← ht.eq_of_path hp (heq.trans hpath), beq_iff_eq] at hplain
        exact hplain h.plain
      · rw [hpath]
        exact h.path_ne_of_reach hu hp hreach hq j

/-- **A name that is introduced otherwise is no name of a plain declaration.** -/
theorem Declares.path_ne_otherNames (hu : u.In tree) (h : u.Declares t) (hs : s.In tree)
    (hparameters : ∀ p, s.field? "parameters" = some p → Spot.declaresVariables p.tree.label.kind = false)
    {site : Site} (hsite : site ∈ s.otherNames) : t.path ≠ site.path := by
  simp only [otherNames, List.mem_append] at hsite
  rcases hsite with ((houter | hinner) | himport) | hname | hleft
  · unfold Tree.outerSites at houter
    split at houter
    · next hkind => exact h.path_ne_fieldSite hu hs (declaresVariables_eq_false rfl rfl hkind) houter
    · cases houter
  · exact h.path_ne_innerSites hu hs hparameters hinner
  · exact h.path_ne_importSites hu hs himport
  · exact h.path_ne_namesInPattern hu hs hname
  · exact h.path_ne_namesInPattern hu hs hleft

end

end Spot

namespace Tree

/-! ## From nodes to records -/

/-- A record is the one of a node that declares a plain name. -/
def RecordAt (src : Source) (r : Record) (s : Spot) : Prop :=
  ∃ t, s.Declares t ∧ r.name = t.tree.label.text src ∧ r.declaredAt = place t.tree.label src

/-- Recorded binders and declaring nodes go together. The induction is along the nodes: each has one recorded
binder or none. -/
theorem forall₂_declaring {R : Record → Binder → Prop} (spots : List Spot) {records : List Record}
    (h : List.Forall₂ R records ((spots.flatMap Spot.binders).filter (·.recorded))) :
    List.Forall₂ (fun r s => ∃ b t, R r b ∧ b ∈ s.binders ∧ b.recorded = true ∧ s.Declares t ∧
      b.site = ⟨t.path, t.tree.label⟩) records (spots.filter (·.declared?.isSome)) := by
  induction spots generalizing records with
  | nil => simpa using h
  | cons s more ih =>
    rw [List.flatMap_cons, List.filter_append] at h
    have hone := s.filter_recorded_binders
    cases hd : s.declared? with
    | none =>
      rw [hd, Option.toList_none, List.map_nil, List.map_eq_nil_iff] at hone
      rw [hone, List.nil_append] at h
      rw [List.filter_cons_of_neg (by simp [hd])]
      exact ih h
    | some t =>
      rw [hd, Option.toList_some, List.map_singleton] at hone
      obtain ⟨b, hb, hsite⟩ := List.map_eq_singleton_iff.mp hone
      have hmem : b ∈ s.binders.filter (·.recorded) := by rw [hb]; exact List.mem_singleton_self b
      obtain ⟨hbinder, hrecorded⟩ := List.mem_filter.mp hmem
      rw [hb, List.singleton_append] at h
      rw [List.filter_cons_of_pos (by simp [hd])]
      cases h with
      | cons hr hrest =>
        exact .cons ⟨b, t, hr, hbinder, hrecorded, Spot.declared?_eq_some.mp hd, hsite⟩ (ih hrest)

theorem forall₂_recordAt {src : Source} (spots : List Spot) {records : List Record}
    (h : List.Forall₂ (Survey.RecordOf src) records ((spots.flatMap Spot.binders).filter (·.recorded))) :
    List.Forall₂ (RecordAt src) records (spots.filter (·.declared?.isSome)) := by
  refine (forall₂_declaring spots h).imp ?_
  rintro r s ⟨b, t, hr, -, -, hdeclares, hsite⟩
  exact ⟨t, hdeclares, by rw [hr.1, Binder.name, hsite], by rw [hr.2.1, hsite]⟩

/-- Attaching reads changes neither name nor place. -/
theorem forall₂_attachReads {src : Source} (graph : Scope.Graph) {records : List Record} {nodes : List Spot}
    (h : List.Forall₂ (RecordAt src) records nodes) :
    List.Forall₂ (RecordAt src) (attachReads graph records) nodes := by
  obtain ⟨hlength, hget⟩ := List.forall₂_iff_get.mp h
  refine List.forall₂_iff_get.mpr ⟨by simpa [attachReads] using hlength, ?_⟩
  intro i hi hi'
  have hr : i < records.length := by simpa [attachReads] using hi
  obtain ⟨t, hdeclares, hname, hplace⟩ := hget i hr hi'
  simp only [attachReads, List.get_eq_getElem, List.getElem_mapIdx] at hname hplace ⊢
  refine ⟨t, hdeclares, ?_, ?_⟩
  · split
    · exact hname
    · exact hname
  · split
    · exact hplace
    · exact hplace

/-- Sorted records are in the order of their places. -/
theorem pairwise_sortByPlace (records : List Record) :
    (Record.sortByPlace records).Pairwise (·.declaredAt.offset ≤ ·.declaredAt.offset) := by
  have hsorted : (Record.sortByPlace records).Pairwise fun a b =>
      decide (a.declaredAt.offset ≤ b.declaredAt.offset) = true := by
    apply List.pairwise_mergeSort
    · intro a b c hab hbc
      exact decide_eq_true (Nat.le_trans (of_decide_eq_true hab) (of_decide_eq_true hbc))
    · intro a b
      simpa using Nat.le_total a.declaredAt.offset b.declaredAt.offset
  exact hsorted.imp of_decide_eq_true

/-- Sorting keeps records and declaring nodes together. -/
theorem exists_sorted_nodes {R : Record → Spot → Prop} {tree : Tree} {records : List Record}
    (h : List.Forall₂ R records ((Spot.visited tree).filter (·.declared?.isSome))) :
    ∃ nodes : List Spot, (nodes.map Spot.path).Nodup ∧
      (∀ s, s ∈ nodes ↔ s.VisitedIn tree ∧ ∃ t, s.Declares t) ∧
      List.Forall₂ R (Record.sortByPlace records) nodes := by
  obtain ⟨nodes, hnodes, hperm⟩ := List.perm_comp_forall₂ (List.mergeSort_perm _ _) h
  have hnodup : (((Spot.visited tree).filter (·.declared?.isSome)).map (·.path)).Nodup :=
    (Spot.nodup_paths_nodesFrom tree [] []).sublist (List.filter_sublist.map _)
  refine ⟨nodes, (hperm.map _).nodup_iff.mpr hnodup, fun s => ?_, hnodes⟩
  rw [hperm.mem_iff, List.mem_filter, Spot.mem_visited, Option.isSome_iff_exists]
  simp only [Spot.declared?_eq_some]

/-- What the records of a tree have to say about its declarations. -/
structure SimpleRecords (src : Source) (tree : Tree) (records : List Record) : Prop where
  /-- The records belong to the nodes that declare a plain name, one to each, and have its text and place. -/
  correspond : ∃ nodes : List Spot, (nodes.map (·.path)).Nodup ∧
    (∀ s, s ∈ nodes ↔ s.VisitedIn tree ∧ ∃ t, s.Declares t) ∧ List.Forall₂ (RecordAt src) records nodes
  /-- They come in the order of their places. -/
  ordered : records.Pairwise (·.declaredAt.offset ≤ ·.declaredAt.offset)
  /-- No name that is introduced in another way is the name of a record: the two are different nodes. A list
  of parameters is asked not to be a declaration itself. -/
  others : ∀ s : Spot, s.VisitedIn tree →
    (∀ p, s.field? "parameters" = some p → Spot.declaresVariables p.tree.label.kind = false) →
    ∀ site ∈ s.otherNames, ∀ u t : Spot, u.VisitedIn tree → u.Declares t → t.path ≠ site.path

/-- **Records are exactly the plain declarations** of a tree without faults. -/
theorem extract_simpleDeclarations (language : Language) (src : Source) (tree : Tree)
    (hsound : tree.label.hasError = false) :
    ∃ records, tree.extract language src = .ok records ∧ tree.SimpleRecords src records := by
  refine ⟨recordsOf src tree, by simp [extract, hsound], ?_, ?_, ?_⟩
  · have hall := (Survey.surveyed_surveyOf src tree).agrees.records
    rw [List.nil_append] at hall
    have hattached := forall₂_attachReads
      (resolveReads (surveyOf src tree).graph (readsOf src (surveyOf src tree) tree)) (forall₂_recordAt _ hall)
    exact exists_sorted_nodes hattached
  · exact pairwise_sortByPlace _
  · intro s hs hparameters site hsite u t hu h
    exact h.path_ne_otherNames hu.isIn hs.isIn hparameters hsite

/-- A tree with a pattern that is declared, and with a loop over a plain name. -/
def patternAndLoop : Tree :=
  let label (kind field : String) (start stop : Nat) : Label :=
    ⟨kind, field, true, false, false, false, start, stop⟩
  .node (label "program" "" 0 32)
    [.node (label "lexical_declaration" "" 0 12)
      [.node (label "variable_declarator" "" 4 11)
        [.node (label "object_pattern" "name" 4 7)
          [.node (label "shorthand_property_identifier_pattern" "" 5 6) []],
          .node (label "identifier" "value" 10 11) []]],
      .node (label "for_in_statement" "" 13 32)
        [.node { label "const" "kind" 18 23 with named := false } [],
          .node (label "identifier" "left" 24 25) [],
          .node (label "identifier" "" 29 30) [],
          .node (label "empty_statement" "body" 31 32) []]]

theorem extract_simpleDeclarations_patternAndLoop :
    patternAndLoop.label.hasError = false ∧
    ∃ records,
      patternAndLoop.extract .typescript (.ofString "let \x7ba\x7d = b;\nfor (const k in o);") = .ok records ∧
      patternAndLoop.SimpleRecords (.ofString "let \x7ba\x7d = b;\nfor (const k in o);") records :=
  ⟨rfl, extract_simpleDeclarations .typescript _ patternAndLoop rfl⟩

end Tree
end VarCensus
