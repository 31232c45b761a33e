import Mathlib.Logic.Relation
import VarCensus.Tree.Reads

/-!
# Scopes as a tree shows them

What a name in a syntax tree means, said on the tree alone: no numbers for scopes, no tables, no order in
which anything is visited. The passes over a tree do it with all of these, and
`VarCensus.Proofs.LexicalReads` shows that they come to the same.

A scope is known by its `Owner`, the node that opens it. A node is looked at as a `Spot`, with the labels
around it, since whether a block is a scope of its own depends on its parent. `Spot.scopes` are the scopes
around a node from the inside out, `Spot.binders` the names that a node introduces, each with the scope it
goes to, and `Tree.Means` is the rule that the innermost scope that binds a name wins.
-/

namespace VarCensus

/-- A scope, by what opens it. -/
inductive Owner where
  | wholeModule
  /-- The node at a path. -/
  | opener (path : TreePath)
deriving DecidableEq, Repr

/-- A scope around a place, with its kind. -/
structure Enclosure where
  owner : Owner
  kind : Scope.Kind
deriving DecidableEq, Repr

/-- A node where it stands: its path, the labels around it from the inside out, and what it holds. -/
structure Spot where
  path : TreePath
  ancestors : List Label
  tree : Tree

/-- A name that a node introduces. -/
structure Binder where
  /-- The scope that the name goes to. -/
  owner : Owner
  site : Site
  /-- Whether a record is made of it. -/
  recorded : Bool
deriving DecidableEq, Repr

/-- The name itself. -/
def Binder.name (src : Source) (b : Binder) : String :=
  b.site.label.text src

namespace Spot

/-! ## Nodes in a tree -/

/-- The root of a tree. -/
def root (tree : Tree) : Spot :=
  ⟨[], [], tree⟩

/-- A tree as the child of a node with the given number. -/
def child (s : Spot) (i : Nat) (tree : Tree) : Spot :=
  ⟨i :: s.path, s.tree.label :: s.ancestors, tree⟩

def HasChild (s t : Spot) : Prop :=
  ∃ i tree, s.tree.children[i]? = some tree ∧ t = s.child i tree

def HasNamedChild (s t : Spot) : Prop :=
  s.HasChild t ∧ t.tree.label.named = true

/-- The search for reads goes from the first node to the second: it enters no identifier. -/
def WalksTo (s t : Spot) : Prop :=
  s.HasNamedChild t ∧ Tree.isIdentifierKind s.tree.label.kind = false

/-- A node of a tree. -/
def In (tree : Tree) (s : Spot) : Prop :=
  Relation.ReflTransGen HasChild (root tree) s

/-- A node that is reached through named nodes only. -/
def VisitedIn (tree : Tree) (s : Spot) : Prop :=
  Relation.ReflTransGen HasNamedChild (root tree) s

/-- A node that the search for reads reaches. -/
def WalkedIn (tree : Tree) (s : Spot) : Prop :=
  Relation.ReflTransGen WalksTo (root tree) s

/-! ## The scopes around a node -/

/-- The scopes around a place, innermost first: a path, and the labels that stand on it from the inside
out. -/
def enclosures : TreePath → List Label → List Enclosure
  | path, label :: outer =>
    match Tree.scopeKind? outer.head? label with
    | some kind => ⟨.opener path, kind⟩ :: enclosures path.tail outer
    | none => enclosures path.tail outer
  | _, [] => [⟨.wholeModule, .wholeModule⟩]

/-- The scopes around a node, its own among them. -/
def scopes (s : Spot) : List Enclosure :=
  enclosures s.path (s.tree.label :: s.ancestors)

/-- The scopes around a node without its own. -/
def outerScopes (s : Spot) : List Enclosure :=
  enclosures s.path.tail s.ancestors

/-- The kind of scope that a node opens. -/
def opens? (s : Spot) : Option Scope.Kind :=
  Tree.scopeKind? s.ancestors.head? s.tree.label

/-- The owner of the first scope of a list. -/
def innermost (scopes : List Enclosure) : Owner :=
  (scopes.head?.map (·.owner)).getD .wholeModule

/-- The owner of the first scope of a list that is a function or the module. -/
def risen (scopes : List Enclosure) : Owner :=
  ((scopes.find? (·.kind.hoists)).map (·.owner)).getD .wholeModule

/-! ## The names that a node introduces -/

/-- The names that come with the scope of a node: its own, outside or inside, and its parameters. -/
def openerBinders (s : Spot) : List Binder :=
  match s.opens? with
  | some _ =>
    (Tree.outerSites s.path s.tree).map (⟨innermost s.outerScopes, ·, false⟩) ++
      (Tree.innerSites s.path s.tree).map (⟨.opener s.path, ·, false⟩)
  | none => []

/-- The names of a declaration whose target is the child in a field; a plain name gets a record. -/
def targetBinders (s : Spot) (rises : Bool) (field : String) : List Binder :=
  let owner := if rises then risen s.scopes else innermost s.scopes
  match Tree.fieldSite? s.path s.tree field with
  | none => []
  | some target =>
    if target.label.kind == "identifier" then [⟨owner, target, true⟩]
    else (Tree.fieldPattern s.path s.tree field).map (⟨owner, ·, false⟩)

/-- The names that a declarator or the head of a loop declares. What is declared with `var` rises to the
nearest function; everything else stays in the innermost scope. -/
def declarators (s : Spot) : List Binder :=
  if s.tree.label.kind == "variable_declarator" then
    s.targetBinders (s.ancestors.head?.any (·.kind == "variable_declaration")) "name"
  else if s.tree.label.kind == "for_in_statement" then
    match s.tree.child? "kind" with
    | some keyword => s.targetBinders (keyword.label.kind == "var") "left"
    | none => []
  else []

/-- The names that an import introduces, for the whole module. -/
def imports (s : Spot) : List Binder :=
  (Tree.importSites s.path s.tree).map (⟨.wholeModule, ·, false⟩)

/-- All names that a node introduces. -/
def binders (s : Spot) : List Binder :=
  s.openerBinders ++ (s.declarators ++ s.imports)

/-- Whether a node reads a variable. -/
def IsReference (src : Source) (tree : Tree) (s : Spot) : Prop :=
  Tree.isIdentifierKind s.tree.label.kind = true ∧
    Tree.isRead src (Tree.surveyOf src tree).sites s.path s.ancestors s.tree.label = true

end Spot

namespace Tree

/-! ## What a name means -/

/-- Some node introduces a name in a scope. -/
def Binds (src : Source) (tree : Tree) (owner : Owner) (name : String) : Prop :=
  ∃ s : Spot, s.VisitedIn tree ∧ ∃ b ∈ s.binders, b.owner = owner ∧ b.name src = name

/-- Going outward along some scopes, the first that binds a name is the one of `owner`. -/
inductive Means (src : Source) (tree : Tree) (name : String) : List Enclosure → Owner → Prop
  | here {e : Enclosure} {outer : List Enclosure} (h : tree.Binds src e.owner name) :
      Means src tree name (e :: outer) e.owner
  | outward {e : Enclosure} {outer : List Enclosure} {owner : Owner}
      (h : ¬ tree.Binds src e.owner name) (hrest : Means src tree name outer owner) :
      Means src tree name (e :: outer) owner

/-- A record is the one of a declarator of the tree. -/
def DeclaredBy (src : Source) (tree : Tree) (r : Record) (b : Binder) : Prop :=
  (∃ s : Spot, s.VisitedIn tree ∧ b ∈ s.declarators) ∧ b.recorded = true ∧
    r.name = b.name src ∧ r.declaredAt = place b.site.label src

/-- What is asked of a tree and its source: identifiers start inside the source, and no two of them at one
offset. -/
structure IdentifiersApart (src : Source) (tree : Tree) : Prop where
  inside : ∀ s : Spot, s.In tree → isIdentifierKind s.tree.label.kind = true →
    s.tree.label.start ≤ src.size
  apart : ∀ s t : Spot, s.In tree → t.In tree → isIdentifierKind s.tree.label.kind = true →
    isIdentifierKind t.tree.label.kind = true → s.tree.label.start = t.tree.label.start → s.path = t.path

end Tree

namespace Spot

/-! ## Nodes and their paths -/

theorem VisitedIn.isIn {tree : Tree} {s : Spot} (h : s.VisitedIn tree) : s.In tree :=
  Relation.ReflTransGen.mono (fun _ _ (hc : HasNamedChild _ _) => hc.1) _ _ h

theorem WalkedIn.visitedIn {tree : Tree} {s : Spot} (h : s.WalkedIn tree) : s.VisitedIn tree :=
  Relation.ReflTransGen.mono (fun _ _ (hc : WalksTo _ _) => hc.1) _ _ h

/-- **A path names one node.** The path of a child is longer than that of its parent and opens with the
child's number, so both are read off it. -/
theorem In.eq_of_path {tree : Tree} {s t : Spot} (hs : s.In tree) (ht : t.In tree)
    (hp : s.path = t.path) : s = t := by
  unfold In at hs
  induction hs generalizing t with
  | refl =>
    rcases Relation.ReflTransGen.cases_tail ht with h | ⟨u, -, i, c, -, rfl⟩
    · exact h.symm
    · simp [root, child] at hp
  | tail hs hc ih =>
    obtain ⟨i, c, hi, rfl⟩ := hc
    rcases Relation.ReflTransGen.cases_tail ht with h | ⟨v, hv, j, d, hj, rfl⟩
    · subst h
      simp [root, child] at hp
    · simp only [child, List.cons.injEq] at hp
      obtain ⟨rfl, hp⟩ := hp
      obtain rfl := ih hv hp
      rw [hi] at hj
      cases hj
      rfl

theorem scopes_eq (s : Spot) : s.scopes =
    match s.opens? with
    | some kind => ⟨.opener s.path, kind⟩ :: s.outerScopes
    | none => s.outerScopes := rfl

/-! ## Nodes as a list

The first pass meets the nodes one after the other. The list of them, every node before what lies below it,
is what the survey is compared with; as a set it is the relation above. With `keep` always true the list has
all nodes. -/

mutual

/-- The nodes of a tree at a path that are reached through nodes whose labels pass `keep`. -/
def nodesFrom (keep : Label → Bool) (path : TreePath) (ancestors : List Label) : Tree → List Spot
  | .node label children =>
    ⟨path, ancestors, .node label children⟩ :: nodesAmong keep path (label :: ancestors) 0 children

/-- The same for the children from number `i` on. -/
def nodesAmong (keep : Label → Bool) (path : TreePath) (ancestors : List Label) (i : Nat) :
    List Tree → List Spot
  | [] => []
  | tree :: more =>
    (if keep tree.label then nodesFrom keep (i :: path) ancestors tree else []) ++
      nodesAmong keep path ancestors (i + 1) more

end

mutual

theorem mem_nodesFrom (keep : Label → Bool) (path : TreePath) (ancestors : List Label) (s : Spot) :
    ∀ tree : Tree, s ∈ nodesFrom keep path ancestors tree ↔
      Relation.ReflTransGen (fun s t => s.HasChild t ∧ keep t.tree.label = true) ⟨path, ancestors, tree⟩ s
  | .node label children => by
    rw [nodesFrom, List.mem_cons, mem_nodesAmong keep path (label :: ancestors) s 0 children]
    constructor
    · rintro (rfl | ⟨k, c, hk, hn, hs⟩)
      · exact Relation.ReflTransGen.refl
      · rw [Nat.zero_add] at hs
        exact Relation.ReflTransGen.head ⟨⟨k, c, hk, rfl⟩, hn⟩ hs
    · intro h
      rcases Relation.ReflTransGen.cases_head h with rfl | ⟨t, ⟨⟨k, c, hk, rfl⟩, hn⟩, hs⟩
      · exact Or.inl rfl
      · exact Or.inr ⟨k, c, hk, hn, by rw [Nat.zero_add]; exact hs⟩

theorem mem_nodesAmong (keep : Label → Bool) (path : TreePath) (ancestors : List Label) (s : Spot)
    (i : Nat) :
    ∀ children : List Tree, s ∈ nodesAmong keep path ancestors i children ↔
      ∃ k c, children[k]? = some c ∧ keep c.label = true ∧
        Relation.ReflTransGen (fun s t => s.HasChild t ∧ keep t.tree.label = true)
          ⟨(i + k) :: path, ancestors, c⟩ s
  | [] => by simp [nodesAmong]
  | tree :: more => by
    rw [nodesAmong, List.mem_append, mem_nodesAmong keep path ancestors s (i + 1) more]
    constructor
    · rintro (h | ⟨k, c, hk, hn, hs⟩)
      · split at h
        · next hn => exact ⟨0, tree, rfl, hn, (mem_nodesFrom keep (i :: path) ancestors s tree).mp h⟩
        · simp at h
      · exact ⟨k + 1, c, hk, hn, by rw [Nat.add_assoc, Nat.add_comm 1] at hs; exact hs⟩
    · rintro ⟨k, c, hk, hn, hs⟩
      cases k with
      | zero =>
        simp only [List.getElem?_cons_zero, Option.some.injEq] at hk
        subst hk
        rw [if_pos hn]
        exact Or.inl ((mem_nodesFrom keep (i :: path) ancestors s tree).mpr hs)
      | succ k =>
        refine Or.inr ⟨k, c, hk, hn, ?_⟩
        rw [Nat.add_assoc, Nat.add_comm 1]
        exact hs

end

/-- The nodes that the first pass meets, in its order. -/
def visited (tree : Tree) : List Spot :=
  nodesFrom Label.named [] [] tree

theorem mem_visited {tree : Tree} {s : Spot} : s ∈ visited tree ↔ s.VisitedIn tree :=
  mem_nodesFrom Label.named [] [] s tree

theorem mem_nodes {tree : Tree} {s : Spot} : s ∈ nodesFrom (fun _ => true) [] [] tree ↔ s.In tree := by
  refine (mem_nodesFrom (fun _ => true) [] [] s tree).trans ?_
  constructor
  · exact Relation.ReflTransGen.mono (fun _ _ hc => hc.1) _ _
  · exact Relation.ReflTransGen.mono (fun _ _ hc => ⟨hc, rfl⟩) _ _

end Spot

theorem Tree.identifiersApart_iff {src : Source} {tree : Tree} : tree.IdentifiersApart src ↔
    ∀ s ∈ Spot.nodesFrom (fun _ => true) [] [] tree, isIdentifierKind s.tree.label.kind = true →
      s.tree.label.start ≤ src.size ∧
      ∀ t ∈ Spot.nodesFrom (fun _ => true) [] [] tree, isIdentifierKind t.tree.label.kind = true →
        s.tree.label.start = t.tree.label.start → s.path = t.path := by
  simp only [Spot.mem_nodes]
  constructor
  · exact fun h s hs hk => ⟨h.inside s hs hk, fun t ht hk' => h.apart s t hs ht hk hk'⟩
  · exact fun h => ⟨fun s hs hk => (h s hs hk).1, fun s t hs ht hk hk' => (h s hs hk).2 t ht hk'⟩

instance (src : Source) (tree : Tree) : Decidable (tree.IdentifiersApart src) :=
  decidable_of_iff _ Tree.identifiersApart_iff.symm

end VarCensus
