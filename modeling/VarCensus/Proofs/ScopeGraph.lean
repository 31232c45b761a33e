import VarCensus.Scope.Graph

/-!
# Scope graphs keep their two tables together

A graph says twice which names are bound where: once in the table of definitions and once in the bindings
themselves. `Linked` says that the two agree, and every operation that changes either keeps it. What a
sequence of bindings did is then read off two relations and nothing else: which names a scope defines
(`lookupLocal?`) and which records declare a name in a scope (`Declares`).

The second half is about walking outward. `Chain` is the walk as a relation; it has no step count in it, and
the three functions that walk (`scopeChain`, `hoistingScope`, `lookup?`) are shown to follow it. Their step
counts are large enough because parents have smaller numbers.
-/

namespace VarCensus
namespace Scope
namespace Graph

/-! ## Definitions and bindings -/

/-- The table of definitions points to exactly the bindings there are. -/
def Linked (g : Graph) : Prop :=
  ∀ scope name id, g.lookupLocal? scope name = some id ↔
    ∃ b, g.bindings[id]? = some b ∧ b.scope = scope ∧ b.name = name

/-- The record with number `i` declares a name in a scope. -/
def Declares (g : Graph) (i : Nat) (scope : ScopeId) (name : String) : Prop :=
  ∃ (id : BindingId) (b : Binding),
    g.bindings[id]? = some b ∧ b.scope = scope ∧ b.name = name ∧ i ∈ b.declarations

/-- No binding has been read yet. -/
def Unread (g : Graph) : Prop :=
  ∀ (id : BindingId) (b : Binding), g.bindings[id]? = some b → b.references = []

theorem linked_empty : empty.Linked := by
  intro scope name id
  simp [lookupLocal?, empty]

theorem unread_empty : empty.Unread := by
  intro id b h
  simp [empty] at h

theorem not_declares_empty (i : Nat) (scope : ScopeId) (name : String) :
    ¬ empty.Declares i scope name := by
  rintro ⟨id, b, h, -⟩
  simp [empty] at h

/-- Within a linked graph a scope and a name have one binding. -/
theorem Linked.unique {g : Graph} (h : g.Linked) {i j : BindingId} {a b : Binding}
    (ha : g.bindings[i]? = some a) (hb : g.bindings[j]? = some b) (hs : a.scope = b.scope)
    (hn : a.name = b.name) : i = j := by
  have h1 := (h b.scope b.name i).mpr ⟨a, ha, hs, hn⟩
  have h2 := (h b.scope b.name j).mpr ⟨b, hb, rfl, rfl⟩
  rw [h1] at h2
  exact Option.some.inj h2

/-! ### Making sure that a name is bound -/

theorem lookupLocal?_ensure (g : Graph) (scope : ScopeId) (name : String) (s : ScopeId) (n : String) :
    (g.ensure scope name).2.lookupLocal? s n =
      if s = scope ∧ n = name then some (g.ensure scope name).1 else g.lookupLocal? s n := by
  unfold ensure
  cases hl : g.lookupLocal? scope name with
  | some id =>
    by_cases hk : s = scope ∧ n = name
    · simp [hk, hl]
    · simp [hk]
  | none =>
    by_cases hk : s = scope ∧ n = name
    · obtain ⟨rfl, rfl⟩ := hk
      simp [Graph.lookupLocal?]
    · have hne : ((scope, name) == (s, n)) = false := by
        simp only [beq_eq_false_iff_ne, ne_eq, Prod.mk.injEq]
        rintro ⟨rfl, rfl⟩
        exact hk ⟨rfl, rfl⟩
      simp [Graph.lookupLocal?, hk, Std.HashMap.getElem?_insert, hne]

/-- Either the name was bound before and nothing changes, or a binding without declarations and references
comes last. -/
theorem ensure_cases (g : Graph) (scope : ScopeId) (name : String) :
    (g.ensure scope name).2 = g ∧ g.lookupLocal? scope name = some (g.ensure scope name).1 ∨
    g.lookupLocal? scope name = none ∧ (g.ensure scope name).1 = g.bindings.size ∧
      (g.ensure scope name).2.bindings = g.bindings.push ⟨name, scope, [], []⟩ := by
  unfold ensure
  cases hl : g.lookupLocal? scope name with
  | some id => exact Or.inl ⟨rfl, rfl⟩
  | none => exact Or.inr ⟨rfl, rfl, rfl⟩

theorem Linked.ensure {g : Graph} (h : g.Linked) (scope : ScopeId) (name : String) :
    (g.ensure scope name).2.Linked := by
  rcases g.ensure_cases scope name with ⟨hg, -⟩ | ⟨hnone, hid, hb⟩
  · rw [hg]
    exact h
  · intro s n id
    rw [lookupLocal?_ensure, hb, hid, Array.getElem?_push]
    by_cases hk : s = scope ∧ n = name
    · obtain ⟨rfl, rfl⟩ := hk
      simp only [and_self, ↓reduceIte, Option.some.injEq]
      constructor
      · rintro rfl
        exact ⟨⟨n, s, [], []⟩, by simp, rfl, rfl⟩
      · rintro ⟨b, hb', hs, hn⟩
        by_cases hsz : id = g.bindings.size
        · exact hsz.symm
        · -- an older binding of the same name would have been found
          rw [if_neg hsz] at hb'
          have := (h s n id).mpr ⟨b, hb', hs, hn⟩
          rw [hnone] at this
          cases this
    · rw [if_neg hk, h s n id]
      by_cases hsz : id = g.bindings.size
      · subst hsz
        simp only [↓reduceIte, Option.some.injEq, exists_eq_left']
        constructor
        · rintro ⟨b, hb', -⟩
          simp at hb'
        · rintro ⟨hs, hn⟩
          exact absurd ⟨hs.symm, hn.symm⟩ hk
      · simp [hsz]

/-- A binding right after `ensure` is an old one, or the fresh one of the name asked for. -/
theorem getElem?_ensure {g : Graph} {scope : ScopeId} {name : String} {id : BindingId} {b : Binding}
    (h : (g.ensure scope name).2.bindings[id]? = some b) :
    g.bindings[id]? = some b ∨ id = g.bindings.size ∧ b = ⟨name, scope, [], []⟩ := by
  rcases g.ensure_cases scope name with ⟨hg, -⟩ | ⟨-, -, hb⟩
  · rw [hg] at h
    exact Or.inl h
  · rw [hb, Array.getElem?_push] at h
    split at h
    · next hsz => exact Or.inr ⟨hsz, (Option.some.inj h).symm⟩
    · exact Or.inl h

theorem getElem?_ensure_of {g : Graph} (scope : ScopeId) (name : String) {id : BindingId} {b : Binding}
    (h : g.bindings[id]? = some b) : (g.ensure scope name).2.bindings[id]? = some b := by
  rcases g.ensure_cases scope name with ⟨hg, -⟩ | ⟨-, -, hb⟩
  · rw [hg]
    exact h
  · have hlt : id < g.bindings.size := (Array.getElem?_eq_some_iff.mp h).1
    rw [hb, Array.getElem?_push, if_neg (Nat.ne_of_lt hlt)]
    exact h

theorem declares_ensure (g : Graph) (scope : ScopeId) (name : String) (i : Nat) (s : ScopeId)
    (n : String) : (g.ensure scope name).2.Declares i s n ↔ g.Declares i s n := by
  constructor
  · rintro ⟨id, b, hb, hs, hn, hi⟩
    rcases getElem?_ensure hb with hb' | ⟨-, rfl⟩
    · exact ⟨id, b, hb', hs, hn, hi⟩
    · simp at hi
  · rintro ⟨id, b, hb, hs, hn, hi⟩
    exact ⟨id, b, getElem?_ensure_of scope name hb, hs, hn, hi⟩

/-! ### Binding a name -/

theorem bind_none (g : Graph) (scope : ScopeId) (name : String) :
    (g.bind scope name none).2 = (g.ensure scope name).2 := rfl

theorem bind_some (g : Graph) (scope : ScopeId) (name : String) (i : Nat) :
    (g.bind scope name (some i)).2 =
      (g.ensure scope name).2.addDeclaration (g.ensure scope name).1 i := rfl

theorem getElem?_addDeclaration (g : Graph) (id i : Nat) (j : BindingId) :
    (g.addDeclaration id i).bindings[j]? =
      (g.bindings[j]?).map fun b =>
        if id = j then { b with declarations := b.declarations ++ [i] } else b := by
  simp only [addDeclaration, Array.getElem?_modify]
  by_cases hj : id = j
  · simp [hj]
  · simp [hj]

/-- Changing bindings where they stand, their scopes and names apart, leaves the tables linked. -/
theorem Linked.map {g g' : Graph} (h : g.Linked) (hd : g'.definitions = g.definitions)
    {f : BindingId → Binding → Binding} (hb : ∀ id : BindingId, g'.bindings[id]? = (g.bindings[id]?).map (f id))
    (hf : ∀ id b, (f id b).scope = b.scope ∧ (f id b).name = b.name) : g'.Linked := by
  intro s n id
  have hsame : g'.lookupLocal? s n = g.lookupLocal? s n := by simp only [lookupLocal?, hd]
  rw [hsame, h s n id, hb id]
  simp only [Option.map_eq_some_iff]
  constructor
  · rintro ⟨b, hb, hs, hn⟩
    exact ⟨_, ⟨b, hb, rfl⟩, (hf id b).1.trans hs, (hf id b).2.trans hn⟩
  · rintro ⟨_, ⟨b, hb, rfl⟩, hs, hn⟩
    exact ⟨b, hb, (hf id b).1.symm.trans hs, (hf id b).2.symm.trans hn⟩

/-- Whatever is bound, the tables stay linked. -/
theorem Linked.bind {g : Graph} (h : g.Linked) (scope : ScopeId) (name : String) (d : Option Nat) :
    (g.bind scope name d).2.Linked := by
  cases d with
  | none => exact h.ensure scope name
  | some i =>
    rw [bind_some]
    refine (h.ensure scope name).map rfl (getElem?_addDeclaration _ _ _) fun id b => ?_
    by_cases hid : (g.ensure scope name).1 = id
    · simp [hid]
    · simp [hid]

theorem lookupLocal?_bind (g : Graph) (scope : ScopeId) (name : String) (d : Option Nat) (s : ScopeId)
    (n : String) :
    (g.bind scope name d).2.lookupLocal? s n =
      if s = scope ∧ n = name then some (g.ensure scope name).1 else g.lookupLocal? s n := by
  cases d with
  | none => exact lookupLocal?_ensure g scope name s n
  | some i => exact lookupLocal?_ensure g scope name s n

theorem lookupLocal?_bind_isSome (g : Graph) (scope : ScopeId) (name : String) (d : Option Nat)
    (s : ScopeId) (n : String) :
    ((g.bind scope name d).2.lookupLocal? s n).isSome ↔
      (g.lookupLocal? s n).isSome ∨ s = scope ∧ n = name := by
  rw [lookupLocal?_bind]
  by_cases hk : s = scope ∧ n = name
  · simp [hk]
  · simp [hk]

/-- Binding a name for a record adds that one declaration. -/
theorem Linked.declares_bind {g : Graph} (h : g.Linked) (scope : ScopeId) (name : String)
    (d : Option Nat) (i : Nat) (s : ScopeId) (n : String) :
    (g.bind scope name d).2.Declares i s n ↔
      g.Declares i s n ∨ d = some i ∧ s = scope ∧ n = name := by
  cases d with
  | none =>
    rw [bind_none, declares_ensure]
    simp
  | some j =>
    -- `b₀` is the binding that receives the declaration, whether it is fresh or not
    have hid : (g.ensure scope name).2.lookupLocal? scope name = some (g.ensure scope name).1 := by
      rw [lookupLocal?_ensure]
      simp
    obtain ⟨b₀, hb₀, hs₀, hn₀⟩ := (h.ensure scope name scope name _).mp hid
    rw [← declares_ensure g scope name i s n, bind_some]
    simp only [Declares, getElem?_addDeclaration, Option.map_eq_some_iff, Option.some.injEq]
    constructor
    · rintro ⟨id, _, ⟨b, hb, rfl⟩, hs, hn, hi⟩
      by_cases hk : (g.ensure scope name).1 = id
      · subst hk
        rw [hb₀] at hb
        cases hb
        simp only [↓reduceIte, List.mem_append, List.mem_singleton] at hs hn hi
        rcases hi with hi | rfl
        · exact Or.inl ⟨_, b₀, hb₀, hs, hn, hi⟩
        · exact Or.inr ⟨rfl, hs.symm.trans hs₀, hn.symm.trans hn₀⟩
      · simp only [if_neg hk] at hs hn hi
        exact Or.inl ⟨id, b, hb, hs, hn, hi⟩
    · rintro (⟨id, b, hb, hs, hn, hi⟩ | ⟨rfl, rfl, rfl⟩)
      · refine ⟨id, _, ⟨b, hb, rfl⟩, ?_⟩
        by_cases hk : (g.ensure scope name).1 = id
        · simp [hk, hs, hn, hi]
        · simp [hk, hs, hn, hi]
      · refine ⟨_, _, ⟨b₀, hb₀, rfl⟩, ?_⟩
        simp [hs₀, hn₀]

theorem Unread.bind {g : Graph} (h : g.Unread) (scope : ScopeId) (name : String) (d : Option Nat) :
    (g.bind scope name d).2.Unread := by
  have he : (g.ensure scope name).2.Unread := by
    intro id b hb
    rcases getElem?_ensure hb with hb' | ⟨-, rfl⟩
    · exact h id b hb'
    · rfl
  cases d with
  | none => exact he
  | some i =>
    intro id b hb
    rw [bind_some, getElem?_addDeclaration] at hb
    obtain ⟨b', hb', rfl⟩ := Option.map_eq_some_iff.mp hb
    have := he id b' hb'
    split
    · exact this
    · exact this

@[simp] theorem scopes_bind (g : Graph) (scope : ScopeId) (name : String) (d : Option Nat) :
    (g.bind scope name d).2.scopes = g.scopes := by
  have he : (g.ensure scope name).2.scopes = g.scopes := by
    unfold ensure
    split <;> rfl
  cases d with
  | none => exact he
  | some i => exact he

/-! ### Noting a read -/

theorem getElem?_addReference (g : Graph) (id : BindingId) (place : Location) (j : BindingId) :
    (g.addReference id place).bindings[j]? =
      (g.bindings[j]?).map fun b =>
        if id = j then { b with references := b.references ++ [place] } else b := by
  simp only [addReference, Array.getElem?_modify]
  by_cases hj : id = j
  · simp [hj]
  · simp [hj]

theorem Linked.addReference {g : Graph} (h : g.Linked) (id : BindingId) (place : Location) :
    (g.addReference id place).Linked := by
  refine h.map rfl (getElem?_addReference g id place) fun j b => ?_
  by_cases hj : id = j
  · simp [hj]
  · simp [hj]

/-! ## Walking outward -/

/-- The scopes met when walking outward from a scope, each inside the next and with a greater number. -/
inductive Chain (g : Graph) : ScopeId → List ScopeId → Prop
  | top {scope : Nat} (h : g.parent? scope = none) : Chain g scope [scope]
  | up {scope outer : Nat} {rest : List ScopeId} (h : g.parent? scope = some outer)
      (hlt : outer < scope) (hrest : Chain g outer rest) : Chain g scope (scope :: rest)

theorem Chain.length_le {g : Graph} {scope : Nat} {ids : List ScopeId} (h : g.Chain scope ids) :
    ids.length ≤ scope + 1 := by
  induction h with
  | top => simp
  | up _ hlt _ ih =>
    simp only [List.length_cons]
    omega

theorem Chain.chainFrom {g : Graph} {scope : ScopeId} {ids : List ScopeId} (h : g.Chain scope ids) :
    ∀ {steps : Nat}, ids.length ≤ steps → g.chainFrom steps scope = ids := by
  induction h with
  | top hp =>
    intro steps hs
    cases steps with
    | zero => simp at hs
    | succ n => simp [Graph.chainFrom, hp]
  | up hp _ _ ih =>
    intro steps hs
    cases steps with
    | zero => simp at hs
    | succ n =>
      simp only [List.length_cons, Nat.add_le_add_iff_right] at hs
      simp [Graph.chainFrom, hp, ih hs]

theorem Chain.lookupFrom? {g : Graph} {scope : ScopeId} {ids : List ScopeId} (h : g.Chain scope ids)
    (name : String) : ∀ {steps : Nat}, ids.length ≤ steps →
      g.lookupFrom? name steps scope = ids.findSome? (g.lookupLocal? · name) := by
  induction h with
  | @top scope hp =>
    intro steps hs
    cases steps with
    | zero => simp at hs
    | succ n => cases hl : g.lookupLocal? scope name <;> simp [Graph.lookupFrom?, hl, hp]
  | @up scope _ _ hp _ _ ih =>
    intro steps hs
    cases steps with
    | zero => simp at hs
    | succ n =>
      simp only [List.length_cons, Nat.add_le_add_iff_right] at hs
      cases hl : g.lookupLocal? scope name with
      | some id => simp [Graph.lookupFrom?, hl]
      | none => simp [Graph.lookupFrom?, hl, hp, ih hs]

theorem Chain.scopeChain {g : Graph} {scope : Nat} {ids : List ScopeId} (h : g.Chain scope ids)
    (hs : scope < g.scopes.size) : g.scopeChain scope = ids :=
  h.chainFrom (by have := h.length_le; omega)

/-- Declarations that rise stop at the first scope of the chain that takes them. -/
theorem Chain.hoistingScope {g : Graph} {scope : Nat} {ids : List ScopeId} (h : g.Chain scope ids)
    (hs : scope < g.scopes.size) :
    g.hoistingScope scope = (ids.find? fun s => (g.kind? s).any Kind.hoists).getD root := by
  unfold Graph.hoistingScope
  rw [h.scopeChain hs]

/-- A name means its binding in the first scope of the chain that has one. -/
theorem Chain.lookup? {g : Graph} {scope : Nat} {ids : List ScopeId} (h : g.Chain scope ids)
    (hs : scope < g.scopes.size) (name : String) :
    g.lookup? scope name = ids.findSome? (g.lookupLocal? · name) :=
  h.lookupFrom? name (by have := h.length_le; omega)

/-! ### Growing graphs -/

/-- The scopes of the first graph are scopes of the second, with the same numbers. -/
def Extends (g g' : Graph) : Prop :=
  ∀ (id : ScopeId) (node : Node), g.scopes[id]? = some node → g'.scopes[id]? = some node

theorem Extends.trans {g g' g'' : Graph} (h : g.Extends g') (h' : g'.Extends g'') : g.Extends g'' :=
  fun id node hn => h' id node (h id node hn)

theorem extends_addScope (g : Graph) (outer : ScopeId) (kind : Kind) :
    g.Extends (g.addScope outer kind).2 := by
  intro id node hn
  have hlt : id < g.scopes.size := (Array.getElem?_eq_some_iff.mp hn).1
  simp only [addScope, Array.getElem?_push, if_neg (Nat.ne_of_lt hlt)]
  exact hn

theorem Extends.parent? {g g' : Graph} (h : g.Extends g') {id : ScopeId} {node : Node}
    (hn : g.scopes[id]? = some node) : g'.parent? id = g.parent? id := by
  simp only [Graph.parent?, hn, h id node hn]

theorem Extends.kind? {g g' : Graph} (h : g.Extends g') {id : ScopeId} {kind : Kind}
    (hk : g.kind? id = some kind) : g'.kind? id = some kind := by
  unfold Graph.kind? at hk ⊢
  obtain ⟨node, hn, rfl⟩ := Option.map_eq_some_iff.mp hk
  rw [h id node hn]
  rfl

theorem Chain.mono {g g' : Graph} (he : g.Extends g') {scope : ScopeId} {ids : List ScopeId}
    (h : g.Chain scope ids) (hk : ∀ i ∈ ids, (g.kind? i).isSome) : g'.Chain scope ids := by
  have same {i : ScopeId} (hi : (g.kind? i).isSome) : g'.parent? i = g.parent? i := by
    obtain ⟨kind, hkind⟩ := Option.isSome_iff_exists.mp hi
    obtain ⟨node, hn, -⟩ := Option.map_eq_some_iff.mp hkind
    exact he.parent? hn
  induction h with
  | top hp => exact .top ((same (hk _ (by simp))).trans hp)
  | up hp hlt _ ih =>
    exact .up ((same (hk _ (by simp))).trans hp) hlt (ih fun i hi => hk i (by simp [hi]))

/-- The chain of a scope opens with the scope. -/
theorem Chain.eq_cons {g : Graph} {scope : ScopeId} {ids : List ScopeId} (h : g.Chain scope ids) :
    ∃ rest, ids = scope :: rest := by
  cases h with
  | top => exact ⟨[], rfl⟩
  | up => exact ⟨_, rfl⟩

end Graph
end Scope
end VarCensus
