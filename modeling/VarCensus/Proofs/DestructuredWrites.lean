import VarCensus.Proofs.SimpleDeclarations

/-!
# What a pattern binds and what it writes

The pattern of a declaration binds names, and the same pattern on the left of an assignment writes to them.
The two are read from opposite ends: `Tree.patternSites` goes from a pattern down to its names, while
`Tree.isDestructuredWrite` goes from a name up to the assignment and never sees the pattern as a whole.
`isDestructuredWrite_iff` says that they agree on what a pattern targets.

One step of the way up is `Spot.PassesTo`, and `Spot.isWrittenBy_iff` says where the whole way leads. In a tree
with `Tree.SoundPatterns` such a step is the step `Spot.HandsTo` of the way down.
-/

namespace VarCensus
namespace Spot

/-! ## The way up -/

/-- Being written to passes on from a node to its child. -/
def PassesTo (s t : Spot) : Prop :=
  s.HasChild t ∧ Tree.passesWrite s.tree.label.kind t.tree.label.field = true

/-- Whether nodes of this kind write to what stands on their left. -/
def writesLeft (kind : String) : Bool :=
  kind == "assignment_expression" || kind == "for_in_statement"

/-- A node is the left side of one that writes to it. -/
def WritesTo (s t : Spot) : Prop :=
  s.HasChild t ∧ writesLeft s.tree.label.kind = true ∧ t.tree.label.field = "left"

theorem writesLeft_of_passesWrite {kind field : String} (h : Tree.passesWrite kind field = true) :
    writesLeft kind = false := by
  cases hw : writesLeft kind with
  | false => rfl
  | true =>
    simp only [writesLeft, Bool.or_eq_true, beq_iff_eq] at hw
    rcases hw with rfl | rfl
    · simp [Tree.passesWrite, Tree.isCollectionKind] at h
    · simp [Tree.passesWrite, Tree.isCollectionKind] at h

theorem isWrittenBy_of_hasChild {s t : Spot} (h : s.HasChild t) (inside : Bool) :
    Tree.isWrittenBy inside t.tree.label t.ancestors =
      if Tree.passesWrite s.tree.label.kind t.tree.label.field then
        Tree.isWrittenBy true s.tree.label s.ancestors
      else if writesLeft s.tree.label.kind then inside && t.tree.label.field == "left" else false := by
  obtain ⟨i, c, -, rfl⟩ := h
  rfl

theorem PassesTo.length_le {s t : Spot} (h : Relation.ReflTransGen PassesTo s t) :
    s.path.length ≤ t.path.length := by
  induction h with
  | refl => exact Nat.le_refl _
  | tail _ hc ih =>
    obtain ⟨⟨i, c, -, rfl⟩, -⟩ := hc
    exact Nat.le_succ_of_le ih

section

variable {tree : Tree} {s t u p : Spot}

/-- A node has one parent. -/
theorem In.eq_of_hasChild (hs : s.In tree) (hu : u.In tree) (hst : s.HasChild t) (hut : u.HasChild t) :
    s = u := by
  obtain ⟨i, c, -, rfl⟩ := hst
  obtain ⟨j, d, -, heq⟩ := hut
  exact hs.eq_of_path hu (List.cons.inj (congrArg Spot.path heq)).2

theorem PassesTo.isIn (hp : p.In tree) (h : Relation.ReflTransGen PassesTo p t) : t.In tree :=
  hp.trans (Relation.ReflTransGen.mono (fun _ _ (hc : PassesTo _ _) => hc.1) _ _ h)

/-- **The way up from a node** ends below a node that writes to its left side, and everything in between is
passed through. The induction is from the root down to the node, since the way up from a child goes on as the
way up from its parent. -/
theorem isWrittenBy_iff (ht : t.In tree) (inside : Bool) :
    Tree.isWrittenBy inside t.tree.label t.ancestors = true ↔
      ∃ a p : Spot, a.In tree ∧ a.WritesTo p ∧ Relation.ReflTransGen PassesTo p t ∧
        (inside = true ∨ p.path ≠ t.path) := by
  unfold In at ht
  induction ht generalizing inside with
  | refl =>
    refine ⟨fun h => absurd h Bool.false_ne_true, ?_⟩
    rintro ⟨a, p, -, ⟨⟨i, c, -, rfl⟩, -⟩, hreach, -⟩
    exact absurd (PassesTo.length_le hreach) (Nat.not_succ_le_zero _)
  | @tail s t hs hst ih =>
    rw [isWrittenBy_of_hasChild hst]
    by_cases hpass : Tree.passesWrite s.tree.label.kind t.tree.label.field = true
    · rw [if_pos hpass, ih true]
      constructor
      · rintro ⟨a, p, ha, hap, hreach, -⟩
        refine ⟨a, p, ha, hap, hreach.tail ⟨hst, hpass⟩, Or.inr fun hpath => ?_⟩
        -- the way down from `p` to the child is at least one step long
        have hlength := PassesTo.length_le hreach
        obtain ⟨i, c, -, rfl⟩ := hst
        rw [hpath] at hlength
        exact Nat.not_succ_le_self _ hlength
      · rintro ⟨a, p, ha, hap, hreach, -⟩
        rcases Relation.ReflTransGen.cases_tail hreach with rfl | ⟨u, hpu, hut⟩
        · obtain rfl := In.eq_of_hasChild ha hs hap.1 hst
          exact absurd (writesLeft_of_passesWrite hpass) (by simp [hap.2.1])
        · obtain rfl := In.eq_of_hasChild (PassesTo.isIn (ha.tail hap.1) hpu) hs hut.1 hst
          exact ⟨a, p, ha, hap, hpu, Or.inl rfl⟩
    · rw [if_neg hpass]
      constructor
      · intro h
        split at h
        · next hw =>
          obtain ⟨hinside, hleft⟩ := Bool.and_eq_true_iff.mp h
          exact ⟨s, t, hs, ⟨hst, hw, beq_iff_eq.mp hleft⟩, .refl, Or.inl hinside⟩
        · cases h
      · rintro ⟨a, p, ha, hap, hreach, hinside⟩
        rcases Relation.ReflTransGen.cases_tail hreach with rfl | ⟨u, hpu, hut⟩
        · obtain rfl := In.eq_of_hasChild ha hs hap.1 hst
          have hinside : inside = true := hinside.resolve_right fun h => h rfl
          simp [hap.2.1, hap.2.2, hinside]
        · obtain rfl := In.eq_of_hasChild (PassesTo.isIn (ha.tail hap.1) hpu) hs hut.1 hst
          exact absurd hut.2 hpass

end

/-! ## The way down -/

/-- Whether nodes of this kind are parameters, which bind but are not written to. -/
def isParameterKind (kind : String) : Bool :=
  kind == "required_parameter" || kind == "optional_parameter"

/-- What a pattern passes a write on to is what it binds, parameters apart. -/
theorem passesWrite_iff {kind field : String} : Tree.passesWrite kind field = true ↔
    Tree.isCollectionKind kind = true ∨
      Tree.patternField? kind = some field ∧ isParameterKind kind = false := by
  simp only [Tree.passesWrite, Tree.patternField?, isParameterKind, Bool.or_eq_true, Bool.and_eq_true,
    beq_iff_eq, or_assoc]
  refine or_congr_right ?_
  by_cases hdefault : kind = "assignment_pattern" ∨ kind = "object_assignment_pattern"
  · rcases hdefault with rfl | rfl <;> simp [eq_comm]
  · rw [if_neg hdefault]
    by_cases hpair : kind = "pair_pattern"
    · subst hpair
      simp [eq_comm]
    · rw [if_neg hpair]
      by_cases hparameter : kind = "required_parameter" ∨ kind = "optional_parameter"
      · rcases hparameter with rfl | rfl <;> simp
      · simp [hdefault, hpair, hparameter]

theorem label_field_of_field? {s t : Spot} {field : String} (h : s.field? field = some t) :
    t.tree.label.field = field := by
  obtain ⟨⟨i, c⟩, hf, rfl⟩ := Option.map_eq_some_iff.mp h
  have hfound := List.find?_some hf
  exact beq_iff_eq.mp hfound

theorem HandsTo.passesTo {s t : Spot} (h : s.HandsTo t)
    (hkind : isParameterKind s.tree.label.kind = false) : s.PassesTo t := by
  refine ⟨h.hasChild, passesWrite_iff.mpr ?_⟩
  cases h with
  | collection hcollection => exact Or.inl hcollection
  | field hfield hchild => exact Or.inr ⟨label_field_of_field? hchild ▸ hfield, hkind⟩

/-- Whether nodes of this kind are patterns around others. -/
def isOuterPattern (kind : String) : Bool :=
  holdsPatterns kind && !isParameterKind kind

theorem PassesTo.isOuterPattern {s t : Spot} (h : s.PassesTo t) : isOuterPattern s.tree.label.kind = true := by
  rcases passesWrite_iff.mp h.2 with hcollection | ⟨hfield, hkind⟩
  · simp only [Tree.isCollectionKind, Bool.or_eq_true, beq_iff_eq] at hcollection
    rcases hcollection with (hkind | hkind) | hkind <;> rw [hkind] <;> decide
  · simp [Spot.isOuterPattern, Spot.holdsPatterns, hfield, hkind]

end Spot

namespace Tree

/-- What is asked of a tree: names and patterns are named nodes, and the pattern on the left of an assignment hands
its part on to no parameter. A label carries a field only if looking the field up in the parent gives this very
node, so that a node has at most one child in each field. -/
structure SoundPatterns (tree : Tree) : Prop where
  named : ∀ s : Spot, s.In tree →
    isTargetKind s.tree.label.kind = true ∨ Spot.isOuterPattern s.tree.label.kind = true →
    s.tree.label.named = true
  fieldsApart : ∀ s : Spot, s.In tree →
    s.tree.children.Pairwise fun c d => c.label.field = d.label.field → c.label.field = ""
  noParameters : ∀ a p q : Spot, a.In tree → Spot.writesLeft a.tree.label.kind = true →
    a.field? "left" = some p → Relation.ReflTransGen Spot.HandsTo p q →
    Spot.isParameterKind q.tree.label.kind = false

namespace SoundPatterns

variable {tree : Tree} {s t n p : Spot}

theorem field?_of_hasChild (h : tree.SoundPatterns) (hs : s.In tree) (hst : s.HasChild t)
    (hne : t.tree.label.field ≠ "") : s.field? t.tree.label.field = some t := by
  cases hf : s.field? t.tree.label.field with
  | none =>
    obtain ⟨i, c, hc, rfl⟩ := hst
    have hmem : (i, c) ∈ s.tree.numberedChildren := by
      obtain ⟨hi, -⟩ := List.getElem?_eq_some_iff.mp hc
      exact List.mem_iff_getElem?.mpr ⟨i, List.getElem?_zip_eq_some.mpr ⟨by simp [hi], hc⟩⟩
    exact absurd (beq_self_eq_true _) (List.find?_eq_none.mp (Option.map_eq_none_iff.mp hf) _ hmem)
  | some u =>
    have hfield := Spot.label_field_of_field? hf
    obtain ⟨i, c, hc, rfl⟩ := hst
    obtain ⟨j, d, hd, rfl⟩ := Spot.field?_eq_some hf
    obtain ⟨hi, rfl⟩ := List.getElem?_eq_some_iff.mp hc
    obtain ⟨hj, rfl⟩ := List.getElem?_eq_some_iff.mp hd
    have hapart := List.pairwise_iff_getElem.mp (h.fieldsApart s hs)
    rcases Nat.lt_trichotomy i j with hlt | rfl | hlt
    · exact absurd (hapart i j hi hj hlt hfield.symm) hne
    · rfl
    · exact absurd (hfield.symm.trans (hapart j i hj hi hlt hfield)) hne

/-- What is passed on to ends in a name, so all of it is named. -/
theorem named_of_passesTo (h : tree.SoundPatterns) (ht : t.In tree)
    (hreach : Relation.ReflTransGen Spot.PassesTo t n) (hn : isTargetKind n.tree.label.kind = true) :
    t.tree.label.named = true := by
  rcases Relation.ReflTransGen.cases_head hreach with rfl | ⟨u, htu, -⟩
  · exact h.named t ht (Or.inl hn)
  · exact h.named t ht (Or.inr htu.isOuterPattern)

theorem handsTo_of_passesTo (h : tree.SoundPatterns) (hs : s.In tree) (hst : s.PassesTo t)
    (hnamed : t.tree.label.named = true) : s.HandsTo t := by
  rcases Spot.passesWrite_iff.mp hst.2 with hcollection | ⟨hfield, -⟩
  · exact .collection hcollection ⟨hst.1, hnamed⟩
  · refine .field hfield (h.field?_of_hasChild hs hst.1 ?_)
    intro hempty
    rw [hempty, patternField?] at hfield
    repeat' split at hfield
    all_goals simp at hfield

/-- Below the left side of an assignment the two ways are one. -/
theorem passesTo_iff_handsTo (h : tree.SoundPatterns) {a : Spot} (ha : a.In tree)
    (hwrites : Spot.writesLeft a.tree.label.kind = true) (hleft : a.field? "left" = some p)
    (hn : isTargetKind n.tree.label.kind = true) :
    Relation.ReflTransGen Spot.PassesTo p n ↔ Relation.ReflTransGen Spot.HandsTo p n := by
  have hp : p.In tree := ha.tail (Spot.field?_eq_some hleft)
  constructor
  · intro hreach
    clear hleft
    induction hreach using Relation.ReflTransGen.head_induction_on with
    | refl => exact .refl
    | head hst hrest ih =>
      have ht := hp.tail hst.1
      exact (ih ht).head (h.handsTo_of_passesTo hp hst (h.named_of_passesTo ht hrest hn))
  · intro hreach
    clear hn
    induction hreach with
    | refl => exact .refl
    | tail hps hst ih => exact ih.tail (hst.passesTo (h.noParameters a p _ ha hwrites hleft hps))

/-- A node writes to the child in its left field. -/
theorem writesTo_iff (h : tree.SoundPatterns) (hs : s.In tree) :
    s.WritesTo t ↔ Spot.writesLeft s.tree.label.kind = true ∧ s.field? "left" = some t := by
  constructor
  · rintro ⟨hchild, hwrites, hleft⟩
    exact ⟨hwrites, hleft ▸ h.field?_of_hasChild hs hchild (by simp [hleft])⟩
  · rintro ⟨hwrites, hleft⟩
    exact ⟨Spot.field?_eq_some hleft, hwrites, Spot.label_field_of_field? hleft⟩

/-- A tree can be checked node by node. -/
theorem of_nodes (h : ∀ s ∈ Spot.nodesFrom (fun _ => true) [] [] tree,
      (isTargetKind s.tree.label.kind = true ∨ Spot.isOuterPattern s.tree.label.kind = true →
        s.tree.label.named = true) ∧
      (s.tree.children.Pairwise fun c d => c.label.field = d.label.field → c.label.field = "") ∧
      (Spot.writesLeft s.tree.label.kind = true ∨ Spot.holdsPatterns s.tree.label.kind = true →
        ∀ c ∈ s.tree.children, Spot.isParameterKind c.label.kind = false)) : tree.SoundPatterns := by
  simp only [Spot.mem_nodes] at h
  refine ⟨fun s hs => (h s hs).1, fun s hs => (h s hs).2.1, ?_⟩
  intro a p q ha hwrites hleft hreach
  have hap := Spot.field?_eq_some hleft
  rcases Relation.ReflTransGen.cases_tail hreach with rfl | ⟨u, hpu, huq⟩
  · obtain ⟨i, c, hc, rfl⟩ := hap
    exact (h a ha).2.2 (Or.inl hwrites) c (List.mem_of_getElem? hc)
  · have hu : u.In tree :=
      (ha.tail hap).trans (Relation.ReflTransGen.mono (fun _ _ => Spot.HandsTo.hasChild) _ _ hpu)
    obtain ⟨i, c, hc, rfl⟩ := huq.hasChild
    exact (h u hu).2.2 (Or.inr huq.holdsPatterns) c (List.mem_of_getElem? hc)

end SoundPatterns

/-- A name of a tree is a site of a pattern if the pattern hands its part on to it. -/
theorem mem_patternSites_iff {tree : Tree} {n p : Spot} (hp : p.In tree) (hn : n.In tree)
    (htarget : isTargetKind n.tree.label.kind = true) :
    ⟨n.path, n.tree.label⟩ ∈ patternSites p.path p.tree ↔ Relation.ReflTransGen Spot.HandsTo p n := by
  rw [Spot.mem_patternSites p.tree p.path p.ancestors]
  constructor
  · rintro ⟨t, hreach, -, hsite⟩
    have ht : t.In tree :=
      hp.trans (Relation.ReflTransGen.mono (fun _ _ => Spot.HandsTo.hasChild) _ _ hreach)
    obtain rfl := hn.eq_of_path ht (congrArg Site.path hsite)
    exact hreach
  · exact fun hreach => ⟨n, hreach, htarget, rfl⟩

/-- **Binding and writing agree on what a pattern targets.** A name is a target inside the left side of an
assignment exactly if that side is another node and, read as a pattern, binds the name. -/
theorem isDestructuredWrite_iff {tree : Tree} (h : tree.SoundPatterns) {n : Spot} (hn : n.In tree)
    (htarget : isTargetKind n.tree.label.kind = true) :
    isDestructuredWrite n.tree.label n.ancestors = true ↔
      ∃ a p : Spot, a.In tree ∧ Spot.writesLeft a.tree.label.kind = true ∧ a.field? "left" = some p ∧
        p.path ≠ n.path ∧ ⟨n.path, n.tree.label⟩ ∈ patternSites p.path p.tree := by
  rw [isDestructuredWrite, Spot.isWrittenBy_iff hn]
  simp only [Bool.false_eq_true, false_or]
  constructor
  · rintro ⟨a, p, ha, hap, hreach, hpath⟩
    obtain ⟨hwrites, hleft⟩ := (h.writesTo_iff ha).mp hap
    refine ⟨a, p, ha, hwrites, hleft, hpath, ?_⟩
    rw [mem_patternSites_iff (ha.tail hap.1) hn htarget]
    exact (h.passesTo_iff_handsTo ha hwrites hleft htarget).mp hreach
  · rintro ⟨a, p, ha, hwrites, hleft, hpath, hsite⟩
    have hap := (h.writesTo_iff ha).mpr ⟨hwrites, hleft⟩
    rw [mem_patternSites_iff (ha.tail hap.1) hn htarget] at hsite
    exact ⟨a, p, ha, hap, (h.passesTo_iff_handsTo ha hwrites hleft htarget).mpr hsite, hpath⟩

/-- The tree of `[a, {b: c = (x) => 1}] = d;`, with a parameter inside a default value. -/
def nestedTargets : Tree :=
  let label (kind field : String) (start stop : Nat) : Label :=
    ⟨kind, field, true, false, false, false, start, stop⟩
  .node (label "program" "" 0 27)
    [.node (label "expression_statement" "" 0 27)
      [.node (label "assignment_expression" "" 0 26)
        [.node (label "array_pattern" "left" 0 22)
          [.node (label "identifier" "" 1 2) [],
            .node (label "object_pattern" "" 4 21)
              [.node (label "pair_pattern" "" 5 20)
                [.node (label "property_identifier" "key" 5 6) [],
                  .node (label "assignment_pattern" "value" 8 20)
                    [.node (label "identifier" "left" 8 9) [],
                      .node (label "arrow_function" "right" 12 20)
                        [.node (label "formal_parameters" "parameters" 12 15)
                          [.node (label "required_parameter" "" 13 14)
                            [.node (label "identifier" "pattern" 13 14) []]],
                          .node (label "number" "body" 19 20) []]]]]],
          .node (label "identifier" "right" 25 26) []]]]

/-- The name `c` of that tree. -/
def nestedTarget : Spot :=
  (Spot.nodesFrom (fun _ => true) [] [] nestedTargets).get ⟨9, by decide⟩

theorem isDestructuredWrite_iff_nestedTargets :
    nestedTargets.SoundPatterns ∧ nestedTarget.In nestedTargets ∧
    isTargetKind nestedTarget.tree.label.kind = true ∧
    ∃ a p : Spot, a.In nestedTargets ∧ Spot.writesLeft a.tree.label.kind = true ∧ a.field? "left" = some p ∧
      p.path ≠ nestedTarget.path ∧
      ⟨nestedTarget.path, nestedTarget.tree.label⟩ ∈ patternSites p.path p.tree := by
  have hsound : nestedTargets.SoundPatterns := .of_nodes (by decide +kernel)
  have hin : nestedTarget.In nestedTargets := Spot.mem_nodes.mp (List.get_mem _ _)
  have htarget : isTargetKind nestedTarget.tree.label.kind = true := by decide +kernel
  exact ⟨hsound, hin, htarget, (isDestructuredWrite_iff hsound hin htarget).mp (by decide +kernel)⟩

end Tree
end VarCensus
