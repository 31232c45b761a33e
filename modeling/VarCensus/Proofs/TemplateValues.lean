import VarCensus.Proofs.RecordOrigins

/-!
# Values of template strings

The text of a template string is cut at its expressions, and what is recorded is the pieces with a placeholder
between them. `interleave` puts texts between pieces: with the expressions themselves it gives back what stands
between the backticks, and with placeholders it gives the recorded value (`templateSegments_interleave`).

The pieces are read off from left to right, each from where the last expression ended, so the inductions are
along the children with the position as it moves on.
-/

namespace VarCensus

namespace Source

/-- A range of a text that is not reversed and cuts no character in two. -/
structure Whole (text : String) (first last : Nat) : Prop where
  le : first ≤ last
  first_valid : String.Pos.Raw.IsValid text ⟨first⟩
  last_valid : String.Pos.Raw.IsValid text ⟨last⟩

instance (text : String) (first last : Nat) : Decidable (Whole text first last) :=
  decidable_of_iff (first ≤ last ∧ String.Pos.Raw.IsValid text ⟨first⟩ ∧ String.Pos.Raw.IsValid text ⟨last⟩)
    ⟨fun h => ⟨h.1, h.2.1, h.2.2⟩, fun h => ⟨h.le, h.first_valid, h.last_valid⟩⟩

theorem Whole.slice_append {text : String} {p q r : Nat} (h : Whole text p q) (h' : Whole text q r) :
    (ofString text).slice p q ++ (ofString text).slice q r = (ofString text).slice p r :=
  slice_append_slice h.le h'.le h.first_valid h.last_valid h'.last_valid

end Source

/-- Pieces with other texts between them. -/
def interleave : List String → List String → String
  | piece :: pieces, text :: texts => piece ++ text ++ interleave pieces texts
  | pieces, [] => String.join pieces
  | [], texts => String.join texts

/-- One text between all pieces. -/
theorem intercalate_eq_interleave {separator : String} {pieces texts : List String}
    (hlength : pieces.length = texts.length + 1) (h : ∀ text ∈ texts, text = separator) :
    separator.intercalate pieces = interleave pieces texts := by
  induction texts generalizing pieces with
  | nil =>
    obtain ⟨piece, rfl⟩ := List.length_eq_one_iff.mp hlength
    simp [interleave, String.join_cons]
  | cons text texts ih =>
    cases pieces with
    | nil => cases hlength
    | cons piece pieces =>
      have hlength : pieces.length = texts.length + 1 := Nat.succ.inj hlength
      have hne : pieces ≠ [] := fun hnil => by simp [hnil] at hlength
      rw [String.intercalate_cons_of_ne_nil hne, interleave, h text List.mem_cons_self,
        ih hlength fun text htext => h text (List.mem_cons_of_mem _ htext)]

namespace Tree

/-! ## The pieces -/

/-- Whether a child of a template string is an expression in it. -/
def isSubstitution (tree : Tree) : Bool :=
  tree.label.named && tree.label.kind == "template_substitution"

/-- The expressions of a template string. -/
def substitutions (tree : Tree) : List Tree :=
  tree.children.filter isSubstitution

theorem segmentsFrom_cons (src : Source) (stop pos : Nat) (tree : Tree) (more : List Tree) :
    segmentsFrom src stop pos (tree :: more) =
      if isSubstitution tree then src.slice pos tree.label.start :: segmentsFrom src stop tree.label.stop more
      else segmentsFrom src stop pos more := rfl

theorem length_segmentsFrom (src : Source) (stop pos : Nat) (children : List Tree) :
    (segmentsFrom src stop pos children).length = (children.filter isSubstitution).length + 1 := by
  induction children generalizing pos with
  | nil => rfl
  | cons tree more ih =>
    rw [segmentsFrom_cons]
    by_cases hsub : isSubstitution tree = true
    · rw [if_pos hsub, List.filter_cons_of_pos hsub, List.length_cons, List.length_cons, ih]
    · rw [if_neg hsub, List.filter_cons_of_neg hsub, ih]

theorem length_templateSegments (src : Source) (tree : Tree) :
    (templateSegments src tree).length = tree.substitutions.length + 1 :=
  length_segmentsFrom src _ _ tree.children

/-- **Pieces and expressions together are the source** from a position on. -/
theorem interleave_segmentsFrom {text : String} {pos stop : Nat} {children : List Tree}
    (hwhole : Source.Whole text pos stop)
    (hordered : (children.filter isSubstitution).Pairwise fun c d => c.label.stop ≤ d.label.start)
    (hinside : ∀ c ∈ children.filter isSubstitution, pos ≤ c.label.start ∧ c.label.stop ≤ stop ∧
      Source.Whole text c.label.start c.label.stop) :
    interleave (segmentsFrom (.ofString text) stop pos children)
        ((children.filter isSubstitution).map (·.label.text (.ofString text))) =
      (Source.ofString text).slice pos stop := by
  induction children generalizing pos with
  | nil => simp [segmentsFrom, interleave, String.join_cons, Nat.max_eq_left hwhole.le]
  | cons tree more ih =>
    rw [segmentsFrom_cons]
    by_cases hsub : isSubstitution tree = true
    · rw [List.filter_cons_of_pos hsub] at hordered hinside ⊢
      obtain ⟨hafter, hordered⟩ := List.pairwise_cons.mp hordered
      obtain ⟨hstart, hstop, hown⟩ := hinside tree List.mem_cons_self
      have hbefore : Source.Whole text pos tree.label.start := ⟨hstart, hwhole.first_valid, hown.first_valid⟩
      have hrest : Source.Whole text tree.label.stop stop := ⟨hstop, hown.last_valid, hwhole.last_valid⟩
      have hthrough : Source.Whole text pos tree.label.stop :=
        ⟨Nat.le_trans hstart hown.le, hwhole.first_valid, hown.last_valid⟩
      have hmore := ih hrest hordered fun c hc =>
        ⟨hafter c hc, (hinside c (List.mem_cons_of_mem _ hc)).2⟩
      rw [if_pos hsub, List.map_cons, interleave, hmore, Label.text, hbefore.slice_append hown,
        hthrough.slice_append hrest]
    · rw [List.filter_cons_of_neg hsub] at hordered hinside ⊢
      rw [if_neg hsub, ih hwhole hordered hinside]

/-! ## Template strings -/

/-- A template string of a text: it stands between two backticks, and its expressions come one after the other
between them and cut no character. -/
structure IsTemplate (text : String) (tree : Tree) : Prop where
  kind : tree.label.kind = "template_string"
  opened : (Source.ofString text).byte? tree.label.start = some '\x60'.toUInt8
  closed : (Source.ofString text).byte? (tree.label.stop - 1) = some '\x60'.toUInt8
  apart : tree.label.start < tree.label.stop - 1
  ordered : tree.substitutions.Pairwise fun c d => c.label.stop ≤ d.label.start
  inside : ∀ c ∈ tree.substitutions, tree.label.start < c.label.start ∧ c.label.stop < tree.label.stop ∧
    Source.Whole text c.label.start c.label.stop

namespace IsTemplate

variable {text : String} {tree : Tree}

theorem whole (h : tree.IsTemplate text) : Source.Whole text (tree.label.start + 1) (tree.label.stop - 1) :=
  ⟨h.apart, Source.isValid_succ_of_ascii h.opened (by decide), Source.isValid_of_ascii h.closed (by decide)⟩

theorem interleave_templateSegments (h : tree.IsTemplate text) :
    interleave (templateSegments (.ofString text) tree)
        (tree.substitutions.map (·.label.text (.ofString text))) =
      (Source.ofString text).slice (tree.label.start + 1) (tree.label.stop - 1) := by
  refine interleave_segmentsFrom h.whole h.ordered fun c hc => ?_
  obtain ⟨hstart, hstop, hown⟩ := h.inside c hc
  exact ⟨hstart, Nat.le_sub_one_of_lt hstop, hown⟩

theorem valueOf_eq (h : tree.IsTemplate text) (src : Source) :
    valueOf src tree = (.templateString,
      interleave (templateSegments src tree) (tree.substitutions.map fun _ => templatePlaceholder)) := by
  have hlength : (templateSegments src tree).length =
      (tree.substitutions.map fun _ => templatePlaceholder).length + 1 := by
    rw [List.length_map]
    exact length_templateSegments src tree
  have hvalue := intercalate_eq_interleave hlength fun text htext => by
    obtain ⟨c, -, rfl⟩ := List.mem_map.mp htext
    rfl
  obtain ⟨label, children⟩ := tree
  have hkind : label.kind = "template_string" := h.kind
  rw [valueOf, ← hvalue]
  simp [hkind, isFunctionKind]

end IsTemplate

/-! ## Parentheses -/

/-- A value in any number of parentheses, with comments beside it. -/
inductive Encloses (inner : Tree) : Tree → Prop
  | bare : Encloses inner inner
  | parentheses {outer mid : Tree} (hkind : outer.label.kind = "parenthesized_expression")
      (hsole : outer.children.filter isOperand = [mid]) (h : Encloses inner mid) : Encloses inner outer

theorem soleValue?_of_filter {src : Source} {children : List Tree} {tree : Tree}
    (h : children.filter isOperand = [tree]) : soleValue? src children = some (valueOf src tree) := by
  induction children with
  | nil => cases h
  | cons child more ih =>
    rw [soleValue?]
    by_cases hchild : isOperand child = true
    · rw [List.filter_cons_of_pos hchild] at h
      obtain ⟨rfl, hmore⟩ := List.cons.inj h
      have hnone : more.any isOperand = false := by
        rw [List.any_eq_false]
        exact List.filter_eq_nil_iff.mp hmore
      rw [if_pos hchild, hnone]
      rfl
    · rw [List.filter_cons_of_neg hchild] at h
      rw [if_neg hchild, ih h]

theorem Encloses.valueOf_eq {inner outer : Tree} (h : Encloses inner outer) (src : Source) :
    valueOf src outer = valueOf src inner := by
  induction h with
  | bare => rfl
  | @parentheses outer mid hkind hsole _ ih =>
    obtain ⟨label, children⟩ := outer
    have hkind : label.kind = "parenthesized_expression" := hkind
    have hsole : children.filter isOperand = [mid] := hsole
    rw [valueOf, ← ih, soleValue?_of_filter hsole]
    simp [hkind, isFunctionKind]

/-! ## Records -/

/-- A declarator with a plain name and a value makes a record with the kind and the text of the value. -/
theorem exists_record_of_value (language : Language) (src : Source) {tree value : Tree} {s t : Spot}
    (hsound : tree.label.hasError = false) (hs : s.VisitedIn tree)
    (hkind : s.tree.label.kind = "variable_declarator") (hname : s.field? "name" = some t)
    (hplain : t.tree.label.kind = "identifier") (hvalue : s.tree.child? "value" = some value) :
    ∃ records, tree.extract language src = .ok records ∧ ∃ r ∈ records,
      r.name = t.tree.label.text src ∧ r.declaredAt = place t.tree.label src ∧
      (r.kind, r.value) = valueOf src value := by
  have hdeclares : s.Declares t := .declarator hkind hname hplain
  obtain ⟨r, hr, hmade⟩ := exists_madeAt src hs hdeclares
  refine ⟨recordsOf src tree, by simp [extract, hsound], r, hr, ?_⟩
  have hgiven : s.keptValue? = some value := by rw [Spot.keptValue?, hkind]; exact hvalue
  rw [MadeAt, Spot.record?, Spot.declared?_eq_some.mpr hdeclares, hgiven] at hmade
  have hrecord := Option.some.inj hmade
  exact ⟨(congrArg Record.name hrecord).symm, (congrArg Record.declaredAt hrecord).symm,
    Prod.ext (congrArg Record.kind hrecord).symm (congrArg Record.value hrecord).symm⟩

/-- **The value of a template string** is what stands between its backticks, with every expression replaced by
the placeholder and nothing else changed; also in parentheses, and so in the record of a declaration. -/
theorem templateSegments_interleave {text : String} {template : Tree} (h : template.IsTemplate text) :
    let src := Source.ofString text
    let segments := templateSegments src template
    let replaced := interleave segments (template.substitutions.map fun _ => templatePlaceholder)
    segments.length = template.substitutions.length + 1 ∧
    interleave segments (template.substitutions.map (·.label.text src)) =
      src.slice (template.label.start + 1) (template.label.stop - 1) ∧
    ∀ value, Encloses template value → valueOf src value = (.templateString, replaced) ∧
      ∀ (language : Language) (tree : Tree) (s t : Spot), tree.label.hasError = false → s.VisitedIn tree →
        s.tree.label.kind = "variable_declarator" → s.field? "name" = some t →
        t.tree.label.kind = "identifier" → s.tree.child? "value" = some value →
        ∃ records, tree.extract language src = .ok records ∧ ∃ r ∈ records,
          r.name = t.tree.label.text src ∧ r.declaredAt = place t.tree.label src ∧
          r.kind = .templateString ∧ r.value = replaced := by
  intro src segments replaced
  refine ⟨length_templateSegments src template, h.interleave_templateSegments, ?_⟩
  intro value hencloses
  have hvalueOf : valueOf src value = (.templateString, replaced) :=
    (hencloses.valueOf_eq src).trans (h.valueOf_eq src)
  refine ⟨hvalueOf, ?_⟩
  intro language tree s t hsound hs hkind hname hplain hvalue
  obtain ⟨records, hextract, r, hr, hrname, hplace, hgiven⟩ :=
    exists_record_of_value language src hsound hs hkind hname hplain hvalue
  rw [hvalueOf] at hgiven
  exact ⟨records, hextract, r, hr, hrname, hplace, congrArg Prod.fst hgiven, congrArg Prod.snd hgiven⟩

/-- The template string of a declaration with two expressions, next to each other but for one character. -/
def twoExpressions : Tree :=
  let node (kind field : String) (start stop : Nat) : List Tree → Tree :=
    .node ⟨kind, field, true, false, false, false, start, stop⟩
  node "template_string" "" 9 22
    [node "string_fragment" "" 10 12 [],
      node "template_substitution" "" 12 16 [node "identifier" "" 14 15 []],
      node "string_fragment" "" 16 17 [],
      node "template_substitution" "" 17 21 [node "identifier" "" 19 20 []]]

/-- The declaration, with the template string in parentheses. -/
def parenthesizedTemplate : Tree :=
  let node (kind field : String) (start stop : Nat) : List Tree → Tree :=
    .node ⟨kind, field, true, false, false, false, start, stop⟩
  node "program" "" 0 24
    [node "lexical_declaration" "" 0 24
      [node "variable_declarator" "" 4 23
        [node "identifier" "name" 4 5 [],
          node "parenthesized_expression" "value" 8 23 [twoExpressions]]]]

theorem templateSegments_interleave_parenthesized :
    twoExpressions.IsTemplate "let x = (`é$\x7ba\x7d-$\x7bb\x7d`);" ∧
    templateSegments (.ofString "let x = (`é$\x7ba\x7d-$\x7bb\x7d`);") twoExpressions = ["é", "-", ""] ∧
    interleave ["é", "-", ""] ["$\x7ba\x7d", "$\x7bb\x7d"] = "é$\x7ba\x7d-$\x7bb\x7d" ∧
    ∃ records,
      parenthesizedTemplate.extract .typescript (.ofString "let x = (`é$\x7ba\x7d-$\x7bb\x7d`);") =
        .ok records ∧
      ∃ r ∈ records, r.name = "x" ∧ r.kind = .templateString ∧ r.value = "é$\x7b...\x7d-$\x7b...\x7d" := by
  have htemplate : twoExpressions.IsTemplate "let x = (`é$\x7ba\x7d-$\x7bb\x7d`);" :=
    ⟨rfl, by decide +kernel, by decide +kernel, by decide, by decide +kernel, by decide +kernel⟩
  obtain ⟨-, -, hvalue⟩ := templateSegments_interleave htemplate
  let node (i : Fin 5) : Spot := (Spot.visited parenthesizedTemplate).get (i.castLE (by decide))
  have hs : (node 2).VisitedIn parenthesizedTemplate := Spot.mem_visited.mp (List.get_mem _ _)
  obtain ⟨records, hextract, r, hr, hname, -, hkind, hreplaced⟩ := (hvalue _ (.parentheses rfl rfl .bare)).2
    .typescript parenthesizedTemplate (node 2) (node 3) rfl hs rfl rfl rfl rfl
  exact ⟨htemplate, by decide +kernel, by decide +kernel, records, hextract, r, hr,
    hname.trans (by decide +kernel), hkind, hreplaced.trans (by decide +kernel)⟩

end Tree
end VarCensus
