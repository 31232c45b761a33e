import VarCensus.Extraction

/-!
# The first fault of a syntax tree

An extraction from a tree fails when the root admits a fault. It then names the first one, and looks for it only
in children that admit one themselves. What it comes to is said here without that shortcut: `subtrees` lists
everything in a tree, named or not, each node before what lies below it, and the fault that is named is the first
of the list.

The shortcut is sound because the marks are honest (`Flagged`). That is promised by whoever made the tree; nothing
here checks it.
-/

namespace VarCensus

/-- Whether a node is a fault itself. -/
def Label.isFault (label : Label) : Bool :=
  label.isError || label.isMissing

namespace Tree

mutual

/-- A tree and everything below it, each node before what lies below it. -/
def subtrees : Tree → List Tree
  | .node label children => .node label children :: subtreesAmong children

def subtreesAmong : List Tree → List Tree
  | [] => []
  | tree :: more => subtrees tree ++ subtreesAmong more

end

/-- A node says that it has a fault exactly when it is one or one lies below it. -/
def Flagged (tree : Tree) : Prop :=
  ∀ t ∈ tree.subtrees, t.label.hasError = true ↔ ∃ u ∈ t.subtrees, u.label.isFault = true

instance (tree : Tree) : Decidable tree.Flagged :=
  inferInstanceAs (Decidable (∀ t ∈ tree.subtrees, _ ↔ _))

theorem self_mem_subtrees (tree : Tree) : tree ∈ tree.subtrees := by
  cases tree
  exact List.mem_cons_self

theorem subtreesAmong_eq_flatMap (children : List Tree) : subtreesAmong children = children.flatMap subtrees := by
  induction children with
  | nil => rfl
  | cons tree more ih => rw [subtreesAmong, ih, List.flatMap_cons]

theorem Flagged.child {label : Label} {children : List Tree} (h : (node label children).Flagged) {t : Tree}
    (ht : t ∈ children) : t.Flagged := by
  intro u hu
  refine h u (List.mem_cons_of_mem _ ?_)
  rw [subtreesAmong_eq_flatMap]
  exact List.mem_flatMap.mpr ⟨t, ht, hu⟩

theorem Flagged.hasError_iff {tree : Tree} (h : tree.Flagged) :
    tree.label.hasError = true ↔ ∃ u ∈ tree.subtrees, u.label.isFault = true :=
  h tree tree.self_mem_subtrees

/-- A tree that is passed over has no fault in it. -/
theorem Flagged.find?_eq_none {tree : Tree} (h : tree.Flagged) (hs : tree.label.hasError = false) :
    tree.subtrees.find? (·.label.isFault) = none := by
  refine List.find?_eq_none.mpr fun u hu hfault => ?_
  rw [h.hasError_iff.mpr ⟨u, hu, hfault⟩] at hs
  cases hs

mutual

/-- **The shortcut misses nothing**: the fault that is found is the first one of the whole tree. -/
theorem firstFault?_eq : ∀ (tree : Tree), tree.Flagged →
    tree.firstFault? = (tree.subtrees.find? (·.label.isFault)).map label
  | .node label children, h => by
    rw [firstFault?, subtrees, List.find?_cons]
    change (if label.isFault = true then _ else _) = _
    simp only [Tree.label]
    cases label.isFault with
    | true => rfl
    | false => exact firstFaultAmong?_eq children fun t ht => h.child ht

theorem firstFaultAmong?_eq : ∀ (children : List Tree), (∀ t ∈ children, t.Flagged) →
    firstFaultAmong? children = ((subtreesAmong children).find? (·.label.isFault)).map label
  | [], _ => rfl
  | tree :: more, h => by
    have htree := h tree List.mem_cons_self
    have hmore := firstFaultAmong?_eq more fun t ht => h t (List.mem_cons_of_mem _ ht)
    -- entered or not, the tree gives its first fault
    have hhere : (if tree.label.hasError || tree.label.isMissing then tree.firstFault? else none) =
        (tree.subtrees.find? (·.label.isFault)).map label := by
      split
      · exact firstFault?_eq tree htree
      · next hpassed =>
        simp only [Bool.or_eq_true, not_or, Bool.not_eq_true] at hpassed
        rw [htree.find?_eq_none hpassed.1]
        rfl
    rw [firstFaultAmong?, hhere, hmore, subtreesAmong, List.find?_append]
    cases tree.subtrees.find? (·.label.isFault) <;> rfl

end

/-- The line of a node is one more than the line feeds in front of it. -/
theorem line_place (label : Label) (src : Source) :
    (place label src).line = (src.bytes.toList.take label.start).count '\n'.toUInt8 + 1 := by
  have hfront : src.bytes.toList.extract 0 (min label.start src.size) = src.bytes.toList.take label.start := by
    simp [List.extract, Source.size]
  simp only [place, Location.atOffset, Nat.add_right_cancel_iff]
  rw [← Array.length_toList, Array.toList_filter, Array.toList_extract, hfront, List.count_eq_length_filter]

/-- **A tree is refused exactly for its faults**, with the language, the line and the offset of the first one, and
without any records. A tree that is not refused gives all of its records. -/
theorem extract_refuses_faults (adapter : Adapter) (hgrammar : adapter.language.family = .grammar) (text : String)
    (tree : Tree) (hflagged : tree.Flagged) :
    ((∃ error, adapter.extract ⟨text, some tree⟩ = .error error) ↔
      ∃ t ∈ tree.subtrees, t.label.isFault = true) ∧
    (∀ fault, tree.subtrees.find? (·.label.isFault) = some fault →
      adapter.extract ⟨text, some tree⟩ = .error (.parse adapter.language
        (some (((Source.ofString text).bytes.toList.take fault.label.start).count '\n'.toUInt8 + 1))
        (some fault.label.start))) ∧
    ((∀ t ∈ tree.subtrees, t.label.isFault = false) →
      adapter.extract ⟨text, some tree⟩ = .ok (recordsOf (.ofString text) tree)) := by
  have hextract : adapter.extract ⟨text, some tree⟩ = tree.extract adapter.language (.ofString text) := by
    unfold Adapter.extract Language.extract
    cases hlanguage : adapter.language with
    | javascript | typescript | tsx => rfl
    | python | java | cpp =>
      rw [hlanguage] at hgrammar
      cases hgrammar
  rw [hextract]
  cases hroot : tree.label.hasError with
  | true =>
    have hsome := hflagged.hasError_iff.mp hroot
    have hfailed (fault : Tree) (hfind : tree.subtrees.find? (·.label.isFault) = some fault) :
        tree.extract adapter.language (.ofString text) = .error (.parse adapter.language
          (some (((Source.ofString text).bytes.toList.take fault.label.start).count '\n'.toUInt8 + 1))
          (some fault.label.start)) := by
      simp only [extract, hroot, ↓reduceIte, firstFault?_eq tree hflagged, hfind, Option.map_some, line_place]
    refine ⟨iff_of_true ?_ hsome, hfailed, fun hnone => ?_⟩
    · obtain ⟨fault, hfind⟩ := Option.isSome_iff_exists.mp (List.find?_isSome.mpr hsome)
      exact ⟨_, hfailed fault hfind⟩
    · obtain ⟨t, ht, hfault⟩ := hsome
      rw [hnone t ht] at hfault
      cases hfault
  | false =>
    have hok : tree.extract adapter.language (.ofString text) = .ok (recordsOf (.ofString text) tree) := by
      simp [extract, hroot]
    refine ⟨?_, ?_, fun _ => hok⟩
    · rw [hok, ← hflagged.hasError_iff, hroot]
      simp
    · intro fault hfind
      rw [hflagged.find?_eq_none hroot] at hfind
      cases hfind

/-- Two declarations; the parenthesis in the second one is never closed, and a nameless node stands for what is
missing. -/
def unclosed : Tree :=
  let label (kind field : String) (hasError : Bool) (start stop : Nat) : Label :=
    ⟨kind, field, true, false, false, hasError, start, stop⟩
  .node (label "program" "" true 0 27)
    [.node (label "lexical_declaration" "" false 0 13)
      [.node (label "variable_declarator" "" false 6 12)
        [.node (label "identifier" "name" false 6 8) [], .node (label "number" "value" false 11 12) []]],
      .node (label "lexical_declaration" "" true 14 27)
        [.node (label "variable_declarator" "" true 20 26)
          [.node (label "identifier" "name" false 20 21) [],
            .node (label "parenthesized_expression" "value" true 24 26)
              [.node (label "number" "" false 25 26) [],
                .node ⟨")", "", false, false, true, true, 26, 26⟩ []]]]]

theorem extract_refuses_faults_unclosed :
    unclosed.Flagged ∧
    Adapter.extract ⟨.javascript, 16384⟩ ⟨"const ok = 1;\nconst x = (1;", some unclosed⟩ =
      .error (.parse .javascript (some 2) (some 26)) :=
  have hflagged : unclosed.Flagged := by decide
  have hrefused := (extract_refuses_faults ⟨.javascript, 16384⟩ rfl "const ok = 1;\nconst x = (1;" unclosed
    hflagged).2.1 (.node ⟨")", "", false, false, true, true, 26, 26⟩ []) rfl
  ⟨hflagged, hrefused⟩

end Tree
end VarCensus
