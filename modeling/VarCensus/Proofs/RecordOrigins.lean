import VarCensus.Proofs.ScannedRecords
import VarCensus.Proofs.SimpleDeclarations

/-!
# Where a record comes from

Read backwards, each way of finding variables says what stood in the source for a record to be made: a type and
a declarator in the languages with typed declarations, a statement in Python, a node in a syntax tree. The
lemmas below say so without the search around it, one for each function on the way, so that what concerns a
single declaration can be shown for all records at once.
-/

namespace VarCensus
namespace Dialect

variable {d : Dialect} {src : Source} {index : LineIndex} {limit : Nat}

/-! ## Declarators -/

/-- The value of a declarator whose name and brackets end at `pos` and that itself ends at `t`: after an equals
sign, in braces, or none. -/
inductive GivenValue (d : Dialect) (src : Source) (limit indent pos t : Nat) : Option String → Prop
  | assigned (heq : src.isLoneEquals pos = true)
      (hstop : (d.valueScan src limit indent pos).stop = .terminator t) :
      GivenValue d src limit indent pos t (some (Text.collapse (src.codeText d.lexicon
        (src.skipTrivia d.lexicon (pos + 1)) (d.valueScan src limit indent pos).codeEnd)))
  | braced {e : Nat} (heq : src.isLoneEquals pos = false)
      (hopen : (d.braceValues && src.byte? pos == some '\x7b'.toUInt8) = true)
      (hgroup : src.groupEnd? d.lexicon '\x7b'.toUInt8 '\x7d'.toUInt8 limit pos = some e) :
      GivenValue d src limit indent pos t (some (Text.collapse (src.codeText d.lexicon pos e)))
  | bare (heq : src.isLoneEquals pos = false)
      (hopen : (d.braceValues && src.byte? pos == some '\x7b'.toUInt8) = false) :
      GivenValue d src limit indent pos t none

/-- The kind of a variable with a type and perhaps a value. -/
def kindWith (head : TypeHead) (type : String) (value : Option String) : Kind :=
  if head.inferred then (value.map (Cue.kindOf .cLike)).getD .uninitialized else .declared type

theorem kindWith_some (head : TypeHead) (type value : String) :
    kindWith head type (some value) = kindOf head type value := rfl

theorem declaratorValue_found {place : Location} {indent namePos pos t : Nat} {head : TypeHead}
    {name type : String} {r : Record}
    (h : d.declaratorValue src place limit indent head name type namePos pos = .found r t) :
    ∃ value, d.GivenValue src limit indent pos t value ∧
      r = ⟨name, value.getD noValue, kindWith head type value, [], place⟩ := by
  unfold declaratorValue at h
  dsimp only at h
  split at h
  · next heq =>
    unfold assigned at h
    dsimp only at h
    split at h
    · next e hstop =>
      split at h
      · cases h
      · obtain ⟨rfl, rfl⟩ := Declarator.found.inj h
        have hgiven : d.GivenValue src limit indent pos e _ := .assigned heq hstop
        exact ⟨_, hgiven, by rw [kindWith_some]; rfl⟩
    · cases h
    · cases h
    · cases h
  · next heq =>
    have heq := Bool.eq_false_iff.mpr heq
    split at h
    · next hopen =>
      unfold braced at h
      split at h
      · cases h
      · next e he =>
        dsimp only at h
        split at h
        · split at h
          · cases h
          · obtain ⟨rfl, rfl⟩ := Declarator.found.inj h
            have hgiven : d.GivenValue src limit indent pos (src.skipTrivia d.lexicon e) _ :=
              .braced heq hopen he
            exact ⟨_, hgiven, by rw [kindWith_some]; rfl⟩
        · cases h
    · next hopen =>
      split at h
      · cases h
        exact ⟨none, .bare heq (Bool.eq_false_iff.mpr hopen), rfl⟩
      · cases h

/-- The declarator of a record: the marks before its name, the brackets after it, which end at `pos`, and its
value. -/
structure DeclaratorOf (d : Dialect) (src : Source) (limit : Nat) (head : TypeHead) (r : Record)
    (marks : List Char) (brackets : String) (pos : Nat) (value : Option String) : Prop where
  marked : ∀ c ∈ marks, c = '*' ∨ c = '&'
  named : ∃ e, src.identAt? r.declaredAt.offset = some (r.name, e) ∧
    d.dimensions src limit (src.skipTrivia d.lexicon e) = .ok (brackets, pos)
  given : ∃ indent t, d.GivenValue src limit indent pos t value
  valued : r.value = value.getD noValue
  kinded : r.kind = kindWith head (head.text ++ String.ofList marks ++ brackets) value

theorem mem_pointerMarks (d : Dialect) (src : Source) (pos : Nat) {c : Char}
    (hc : c ∈ (d.pointerMarks src pos).1) : c = '*' ∨ c = '&' := by
  fun_induction pointerMarks d src pos with
  | case1 pos h marks stop hrec ih =>
    rw [hrec] at ih
    rcases List.mem_cons.mp hc with rfl | hc
    · split
      · exact Or.inl rfl
      · exact Or.inr rfl
    · exact ih hc
  | case2 => cases hc

theorem declaratorAt_found {indent pos t : Nat} {head : TypeHead} {r : Record}
    (h : d.declaratorAt src index limit indent head pos = .found r t) :
    ∃ marks brackets after value, d.DeclaratorOf src limit head r marks brackets after value := by
  unfold declaratorAt at h
  dsimp only at h
  have hmarks : ∀ c ∈ (if d.pointers = true then d.pointerMarks src (src.skipTrivia d.lexicon pos)
      else ([], src.skipTrivia d.lexicon pos)).1, c = '*' ∨ c = '&' := by
    intro c hc
    split at hc
    · exact mem_pointerMarks d src _ hc
    · cases hc
  generalize (if d.pointers = true then d.pointerMarks src (src.skipTrivia d.lexicon pos)
    else ([], src.skipTrivia d.lexicon pos)) = marked at h hmarks
  split at h
  · cases h
  · next name e hid =>
    split at h
    · cases h
    · split at h
      · cases h
      · next brackets after hdim =>
        obtain ⟨value, hgiven, rfl⟩ := declaratorValue_found h
        exact ⟨marked.1, brackets, after, value, hmarks, ⟨e, hid, hdim⟩, ⟨indent, t, hgiven⟩, rfl, rfl⟩

/-! ## Declarations -/

/-- A record comes from a type, which starts at an edge, and a declarator after it. -/
def Origin (d : Dialect) (src : Source) (limit : Nat) (r : Record) : Prop :=
  ∃ start head marks brackets pos value, src.Edge start ∧ d.typeHead? src limit start = some head ∧
    d.DeclaratorOf src limit head r marks brackets pos value

theorem origin_of_mem_declaratorsFrom? {start indent pos first : Nat} {head : TypeHead}
    {recorded : List Record} {found : Finding} (hedge : src.Edge first)
    (hhead : d.typeHead? src limit first = some head) (hdone : ∀ r ∈ recorded, d.Origin src limit r)
    (h : d.declaratorsFrom? src index limit start indent head recorded pos = some found) :
    ∀ r ∈ found.records, d.Origin src limit r := by
  have hone {pos t : Nat} {record : Record} (recorded : List Record)
      (hdone : ∀ r ∈ recorded, d.Origin src limit r)
      (hout : d.declaratorAt src index limit indent head pos = .found record t) :
      ∀ r ∈ recorded ++ [record], d.Origin src limit r := by
    intro r hr
    rcases List.mem_append.mp hr with hr | hr
    · exact hdone r hr
    · obtain rfl := List.mem_singleton.mp hr
      obtain ⟨marks, brackets, after, value, hof⟩ := declaratorAt_found hout
      exact ⟨first, head, marks, brackets, after, value, hedge, hhead, hof⟩
  fun_induction declaratorsFrom? d src index limit start indent head recorded pos with
  | case1 recorded pos record t hout _ =>
    cases h
    exact hone recorded hdone hout
  | case2 recorded pos record t hout _ ih => exact ih (hone recorded hdone hout) h
  | case3 => cases h
  | case4 =>
    cases h
    exact hdone
  | case5 =>
    cases h
    exact hdone

/-- **Every record of the search has an origin.** Edges are kept from declaration to declaration, so each type
is read from its first letter on. -/
theorem origin_of_mem_recordsFrom (hsep : d.separatorBytes.all isPlain = true) {pos : Nat}
    (hedge : src.Edge pos) : ∀ r ∈ d.recordsFrom src index limit pos, d.Origin src limit r := by
  fun_induction recordsFrom d src index limit pos with
  | case1 pos start hs found hm ih =>
    have hstart : src.Edge start := (Source.Lands.trivia pos).edge hedge
    intro r hr
    rcases List.mem_append.mp hr with hr | hr
    · unfold matchDeclaration? at hm
      split at hm
      · cases hm
      · next first hmod =>
        split at hm
        · cases hm
        · next head hhead =>
          exact origin_of_mem_declaratorsFrom? ((lands_skipModifiers? hmod).edge hstart) hhead (by simp) hm r hr
    · exact ih ((finds_matchDeclaration? hsep hm).edge hstart).1 r hr
  | case2 pos start hs hm ih => exact ih (goes_nextStatement d (Nat.le_of_lt hs)).2
  | case3 => simp

theorem origin_of_mem_records (hsep : d.separatorBytes.all isPlain = true) {r : Record}
    (hr : r ∈ d.records limit src) : d.Origin src limit r := by
  unfold records Record.sortByPlace at hr
  exact origin_of_mem_recordsFrom hsep Source.edge_zero r (List.mem_mergeSort.mp hr)

end Dialect

namespace Python

variable {src : Source} {index : LineIndex} {limit : Nat}

/-! ## Statements -/

/-- The text of the value that starts at or after `pos`, in the statement that starts at `statement`. -/
def valueText (src : Source) (limit statement pos : Nat) : String :=
  Text.collapse (src.codeText .python (src.skipInlineSpace pos) (valueScan src limit statement pos).codeEnd)

theorem mem_matchValue? {first : Target} {more : List Target} {pos : Nat} {found : Finding} {r : Record}
    (h : matchValue? src index limit first more pos = some found) (hr : r ∈ found.records) :
    ∃ t ∈ first :: more, r = ⟨t.name, valueText src limit first.pos pos,
      Cue.kindOf .python (valueText src limit first.pos pos), [], index.location t.pos⟩ := by
  have hmap (hr : r ∈ (first :: more).map fun t => (⟨t.name, valueText src limit first.pos pos,
      Cue.kindOf .python (valueText src limit first.pos pos), [], index.location t.pos⟩ : Record)) :
      ∃ t ∈ first :: more, r = ⟨t.name, valueText src limit first.pos pos,
        Cue.kindOf .python (valueText src limit first.pos pos), [], index.location t.pos⟩ := by
    obtain ⟨t, ht, rfl⟩ := List.mem_map.mp hr
    exact ⟨t, ht, rfl⟩
  unfold matchValue? at h
  dsimp only at h
  split at h
  · cases h
    cases hr
  all_goals
    split at h
    · cases h
    · cases h
      exact hmap hr

/-- A record comes from the value of a statement, as one of its targets, or from an annotation without a
value. -/
inductive Origin (src : Source) (index : LineIndex) (limit start : Nat) (r : Record) : Prop
  | chained {name : String} {e : Nat} {target : Target} (hid : src.identAt? start = some (name, e))
      (hopen : isAnnotationColon src (src.skipInlineSpace e) = false)
      (heq : src.isLoneEquals (src.skipInlineSpace e) = true)
      (hmem : target ∈ ⟨name, start⟩ ::
        (chainedTargets src (src.skipInlineSpace (src.skipInlineSpace e + 1))).1)
      (hr : r = ⟨target.name,
        valueText src limit start (chainedTargets src (src.skipInlineSpace (src.skipInlineSpace e + 1))).2,
        Cue.kindOf .python
          (valueText src limit start (chainedTargets src (src.skipInlineSpace (src.skipInlineSpace e + 1))).2),
        [], index.location target.pos⟩)
  | annotated {name : String} {e q : Nat} (hid : src.identAt? start = some (name, e))
      (hopen : isAnnotationColon src (src.skipInlineSpace e) = true)
      (hstop : (scan src limit start annotationStops (src.skipInlineSpace e + 1)).stop = .terminator q)
      (heq : src.byte? q = some '='.toUInt8)
      (hr : r = ⟨name, valueText src limit start (q + 1),
        Cue.kindOf .python (valueText src limit start (q + 1)), [], index.location start⟩)
  | bare {name : String} {e : Nat} (hid : src.identAt? start = some (name, e))
      (hopen : isAnnotationColon src (src.skipInlineSpace e) = true)
      (hstop : ∀ q, (scan src limit start annotationStops (src.skipInlineSpace e + 1)).stop = .terminator q →
        src.byte? q ≠ some '='.toUInt8)
      (hr : r = Record.bare name (index.location start))

/-- **What is found at a statement**: the value of a chain of targets, the value behind an annotation, or an
annotation without one. An annotation is given up when it is too long, so its scan never ended at the bound. -/
inductive Matches (src : Source) (index : LineIndex) (limit start : Nat) (found : Finding) : Prop
  | chained {name : String} {e : Nat} (hid : src.identAt? start = some (name, e))
      (hopen : isAnnotationColon src (src.skipInlineSpace e) = false)
      (heq : src.isLoneEquals (src.skipInlineSpace e) = true)
      (hvalue : matchChained? src index limit ⟨name, start⟩ (src.skipInlineSpace e + 1) = some found)
  | annotated {name : String} {e q : Nat} (hid : src.identAt? start = some (name, e))
      (hopen : isAnnotationColon src (src.skipInlineSpace e) = true)
      (hstop : (scan src limit start annotationStops (src.skipInlineSpace e + 1)).stop = .terminator q)
      (heq : src.byte? q = some '='.toUInt8)
      (hvalue : matchValue? src index limit ⟨name, start⟩ [] (q + 1) = some found)
  | bare {name : String} {e : Nat} (hid : src.identAt? start = some (name, e))
      (hopen : isAnnotationColon src (src.skipInlineSpace e) = true)
      (hlimit : (scan src limit start annotationStops (src.skipInlineSpace e + 1)).stop ≠ .limit)
      (hstop : ∀ q, (scan src limit start annotationStops (src.skipInlineSpace e + 1)).stop = .terminator q →
        src.byte? q ≠ some '='.toUInt8)
      (hfound : found.records = [Record.bare name (index.location start)])

theorem matches_of_matchStatement? {start : Nat} {found : Finding} {r : Record}
    (h : matchStatement? src index limit start = some found) (hr : r ∈ found.records) :
    Matches src index limit start found := by
  unfold matchStatement? at h
  split at h
  · cases h
  · next name e hid =>
    dsimp only at h
    split at h
    · cases h
    · split at h
      · next hopen =>
        unfold matchAnnotated? at h
        dsimp only at h
        split at h
        · cases h
          cases hr
        · cases h
        · next q hstop =>
          split at h
          · cases h
          · split at h
            · next heq => exact .annotated hid hopen hstop (beq_iff_eq.mp heq) h
            · next hne =>
              cases h
              refine .bare hid hopen (by simp [hstop]) ?_ rfl
              intro q' hq' heq
              rw [hstop] at hq'
              cases hq'
              exact hne (beq_iff_eq.mpr heq)
        · next hstop =>
          split at h
          · cases h
          · cases h
            exact .bare hid hopen (by simp [hstop]) (by simp [hstop]) rfl
      · next hopen =>
        split at h
        · next heq => exact .chained hid (Bool.eq_false_iff.mpr hopen) heq h
        · cases h

theorem origin_of_mem_matchStatement? {start : Nat} {found : Finding} {r : Record}
    (h : matchStatement? src index limit start = some found) (hr : r ∈ found.records) :
    Origin src index limit start r := by
  cases matches_of_matchStatement? h hr with
  | chained hid hopen heq hvalue =>
    obtain ⟨t, ht, rfl⟩ := mem_matchValue? hvalue hr
    exact .chained hid hopen heq ht rfl
  | annotated hid hopen hstop heq hvalue =>
    obtain ⟨t, ht, rfl⟩ := mem_matchValue? hvalue hr
    obtain rfl := List.mem_singleton.mp ht
    exact .annotated hid hopen hstop heq rfl
  | bare hid hopen _ hstop hfound =>
    rw [hfound] at hr
    exact .bare hid hopen hstop (List.mem_singleton.mp hr)

theorem origin_of_mem_recordsFrom {pos : Nat} :
    ∀ r ∈ recordsFrom src index limit pos, ∃ start, Origin src index limit start r := by
  fun_induction recordsFrom src index limit pos with
  | case1 => simp
  | case2 _ _ _ _ _ ih => exact ih
  | case3 _ _ _ _ _ _ _ ih => exact ih
  | case4 pos start b hb _ hc found hm ih =>
    intro r hr
    rcases List.mem_append.mp hr with hr | hr
    · exact ⟨start, origin_of_mem_matchStatement? hm hr⟩
    · exact ih r hr
  | case5 _ _ _ _ _ _ _ ih => exact ih

theorem origin_of_mem_records {r : Record} (hr : r ∈ records limit src) :
    ∃ start, Origin src (.ofSource src) limit start r := by
  unfold records Record.sortByPlace at hr
  exact origin_of_mem_recordsFrom r (List.mem_mergeSort.mp hr)

end Python

namespace Spot

/-! ## Nodes of a tree -/

/-- The value that a node gives to the name it declares. A declarator may have one, and so may the head of a loop. -/
def value? (s : Spot) : Option Tree :=
  s.tree.child? "value"

/-- The value that goes into the record of a node: the one of a declarator. That of a loop is passed over. -/
def keptValue? (s : Spot) : Option Tree :=
  if s.tree.label.kind == "variable_declarator" then s.value? else none

/-- The record that a node makes, before anything reads it. -/
def record? (src : Source) (s : Spot) : Option Record :=
  s.declared?.map fun t =>
    let (kind, value) := (s.keptValue?.map (Tree.valueOf src)).getD (.uninitialized, noValue)
    ⟨t.tree.label.text src, value, kind, [], Tree.place t.tree.label src⟩

end Spot

namespace Tree

theorem records_bindSites (src : Source) (scope : Scope.ScopeId) (s : Survey) (sites : List Site) :
    (bindSites src scope s sites).records = s.records := by
  induction sites generalizing s with
  | nil => rfl
  | cons site more ih => exact ih (bindSite src scope s site)

theorem records_enter (src : Source) (path : TreePath) (parent : Option Label) (tree : Tree)
    (scope : Scope.ScopeId) (s : Survey) : (enter src path parent tree scope s).2.records = s.records := by
  unfold enter openScope
  split
  · simp only [records_bindSites]
  · rfl

/-- A node adds its record. -/
theorem records_declareNode (src : Source) (t : Spot) (scope : Scope.ScopeId) (s : Survey) :
    (declareNode src t.path t.ancestors.head? t.tree scope s).records.toList =
      s.records.toList ++ (t.record? src).toList := by
  unfold declareNode
  split
  · next hkind =>
    unfold declareVariable
    rw [Spot.fieldSite?_eq_map]
    simp only [Spot.record?, Spot.declared?, Spot.target?, Spot.keptValue?, Spot.value?, hkind, ↓reduceIte]
    cases t.field? "name" with
    | none => simp
    | some target =>
      by_cases hplain : target.tree.label.kind = "identifier"
      · cases t.tree.child? "value" with
        | none => simp [Option.filter, hplain, recordSite]
        | some value => simp [Option.filter, hplain, recordSite]
      · simp [Option.filter, hplain, records_bindSites]
  · next hno =>
    split
    · next hkind =>
      unfold declareLoopVariable
      rw [Spot.fieldSite?_eq_map]
      simp only [Spot.record?, Spot.declared?, Spot.target?, Spot.keptValue?, hno, hkind, Bool.true_and,
        Bool.false_eq_true, ↓reduceIte]
      cases t.tree.child? "kind" with
      | none => simp
      | some keyword =>
        cases t.field? "left" with
        | none => simp
        | some target =>
          by_cases hplain : target.tree.label.kind = "identifier"
          · simp [Option.filter, hplain, recordSite]
          · simp [Option.filter, hplain, records_bindSites]
    · next hloop => simp [Spot.record?, Spot.declared?, Spot.target?, hno, hloop, records_bindSites]

mutual

/-- The first pass makes the records of the nodes it meets. -/
theorem records_survey (src : Source) :
    ∀ (tree : Tree) (path : TreePath) (ancestors : List Label) (scope : Scope.ScopeId) (s : Survey),
      (survey src path ancestors.head? scope s tree).records.toList =
        s.records.toList ++ (Spot.nodesFrom Label.named path ancestors tree).filterMap (Spot.record? src)
  | .node label children, path, ancestors, scope, s => by
    have hdeclare := records_declareNode src ⟨path, ancestors, .node label children⟩
      (enter src path ancestors.head? (.node label children) scope s).1
      (enter src path ancestors.head? (.node label children) scope s).2
    simp only at hdeclare
    rw [survey, Spot.nodesFrom]
    dsimp only
    rw [records_surveyAll src children path label ancestors, hdeclare, records_enter]
    cases hr : Spot.record? src ⟨path, ancestors, .node label children⟩ with
    | none => simp [hr]
    | some r => simp [hr]

theorem records_surveyAll (src : Source) :
    ∀ (children : List Tree) (path : TreePath) (label : Label) (outer : List Label) (scope : Scope.ScopeId)
      (s : Survey) (i : Nat),
      (surveyAll src path label scope s i children).records.toList =
        s.records.toList ++
          (Spot.nodesAmong Label.named path (label :: outer) i children).filterMap (Spot.record? src)
  | [], path, label, outer, scope, s, i => by simp [surveyAll, Spot.nodesAmong]
  | tree :: more, path, label, outer, scope, s, i => by
    rw [surveyAll, Spot.nodesAmong, records_surveyAll src more path label outer]
    by_cases hnamed : tree.label.named
    · have hhead := records_survey src tree (i :: path) (label :: outer) scope s
      rw [List.head?_cons] at hhead
      rw [if_pos hnamed, if_pos hnamed, hhead, List.filterMap_append, List.append_assoc]
    · rw [if_neg hnamed, if_neg hnamed, List.nil_append]

end

/-- A record of a tree is the one of a node, with the places that read it. -/
def MadeAt (src : Source) (r : Record) (s : Spot) : Prop :=
  s.record? src = some { r with reads := [] }

theorem forall₂_filterMap_record? (src : Source) (spots : List Spot) :
    List.Forall₂ (fun r s => s.record? src = some r) (spots.filterMap (Spot.record? src))
      (spots.filter (·.declared?.isSome)) := by
  induction spots with
  | nil => exact .nil
  | cons s more ih =>
    have hsome : (s.record? src).isSome = s.declared?.isSome := Option.isSome_map
    cases hr : s.record? src with
    | none =>
      rw [List.filterMap_cons_none hr, List.filter_cons_of_neg (by simp [← hsome, hr])]
      exact ih
    | some r =>
      rw [List.filterMap_cons_some hr, List.filter_cons_of_pos (by simp [← hsome, hr])]
      exact .cons hr ih

theorem reads_of_record? {src : Source} {s : Spot} {r : Record} (h : s.record? src = some r) :
    r.reads = [] := by
  obtain ⟨t, -, rfl⟩ := Option.map_eq_some_iff.mp h
  rfl

/-- **Records and declaring nodes belong together**, one to each. -/
theorem forall₂_madeAt (src : Source) (tree : Tree) : ∃ nodes : List Spot, (nodes.map Spot.path).Nodup ∧
    (∀ s, s ∈ nodes ↔ s.VisitedIn tree ∧ ∃ t, s.Declares t) ∧
    List.Forall₂ (MadeAt src) (recordsOf src tree) nodes := by
  have hrecords := records_survey src tree [] [] Scope.Graph.root emptySurvey
  have hmade := forall₂_filterMap_record? src (Spot.visited tree)
  rw [show (Spot.visited tree).filterMap (Spot.record? src) = (surveyOf src tree).records.toList from
    hrecords.symm] at hmade
  refine exists_sorted_nodes ?_
  -- attached reads are all that tells a record from the one that the node made
  obtain ⟨hlength, hget⟩ := List.forall₂_iff_get.mp hmade
  refine List.forall₂_iff_get.mpr ⟨by simpa [attachReads] using hlength, ?_⟩
  intro i hi hi'
  have hr := hget i (hlength ▸ hi') hi'
  have hreads := reads_of_record? hr
  simp only [attachReads, MadeAt, List.get_eq_getElem, List.getElem_mapIdx] at hr hreads ⊢
  rw [hr, ← hreads]
  split
  · rfl
  · rfl

/-- Every node that declares a plain name has its record. -/
theorem exists_madeAt (src : Source) {tree : Tree} {s t : Spot} (hs : s.VisitedIn tree) (h : s.Declares t) :
    ∃ r ∈ recordsOf src tree, MadeAt src r s := by
  obtain ⟨nodes, -, hmem, hmade⟩ := forall₂_madeAt src tree
  obtain ⟨⟨i, hi⟩, rfl⟩ := List.mem_iff_get.mp ((hmem s).mpr ⟨hs, t, h⟩)
  exact ⟨_, List.get_mem _ _, hmade.get (hmade.length_eq ▸ hi) hi⟩

end Tree
end VarCensus
