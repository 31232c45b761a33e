/-!
# Loops

To say that a recursive function makes progress, its recursion is laid open as a `Loop`: one round as a
function that calls nothing back, and the position that a state of the loop stands at. `Loop.Progresses` then
says that the function is what the rounds compute, that a round that is not the last moves the position
forward, and that therefore the rounds come to an end, after no more of them than lie between the position
and its bound.
-/

namespace VarCensus

/-- The outcome of one round of a loop. -/
inductive Round (σ α : Type) where
  | done (result : α)
  /-- The loop goes on in a new state; what comes of it is handed on changed. -/
  | again (state : σ) (after : α → α)

/-- The loop goes on in a new state, and what comes of it is the result. -/
def Round.onward {σ α : Type} (state : σ) : Round σ α :=
  .again state id

/-- A loop over states, each of which stands at a position. -/
structure Loop (σ α : Type) where
  round : σ → Round σ α
  position : σ → Nat

namespace Loop

variable {σ α : Type}

/-- The result of a round, given the results of later ones. -/
def resume (f : σ → α) : Round σ α → α
  | .done result => result
  | .again state after => after (f state)

/-- From a state the loop ends after at most so many rounds that are not the last. -/
inductive HaltsWithin (loop : Loop σ α) : Nat → σ → Prop
  | done {n : Nat} {s : σ} {result : α} (h : loop.round s = .done result) : HaltsWithin loop n s
  | again {n : Nat} {s s' : σ} {after : α → α} (h : loop.round s = .again s' after)
      (hrest : HaltsWithin loop n s') : HaltsWithin loop (n + 1) s

/-- A function is computed by the rounds of a loop, and they lead forward up to a bound. -/
structure Progresses (loop : Loop σ α) (bound : Nat) (f : σ → α) : Prop where
  computes : ∀ s, f s = resume f (loop.round s)
  advances : ∀ s s' after, loop.round s = .again s' after →
    loop.position s < bound ∧ loop.position s < loop.position s'
  halts : ∀ s, loop.HaltsWithin (bound - loop.position s) s

/-- **A loop that leads forward ends.** The induction is on the distance to the bound. -/
theorem haltsWithin_of_advances {loop : Loop σ α} {bound : Nat}
    (h : ∀ s s' after, loop.round s = .again s' after →
      loop.position s < bound ∧ loop.position s < loop.position s') :
    ∀ n s, bound - loop.position s ≤ n → loop.HaltsWithin n s := by
  intro n
  induction n with
  | zero =>
    intro s hn
    cases hr : loop.round s with
    | done result => exact .done hr
    | again s' after =>
      have := (h s s' after hr).1
      omega
  | succ n ih =>
    intro s hn
    cases hr : loop.round s with
    | done result => exact .done hr
    | again s' after =>
      have hforward := h s s' after hr
      exact .again hr (ih s' (by omega))

theorem Progresses.intro {loop : Loop σ α} {bound : Nat} {f : σ → α}
    (hf : ∀ s, f s = resume f (loop.round s))
    (h : ∀ s s' after, loop.round s = .again s' after →
      loop.position s < bound ∧ loop.position s < loop.position s') : loop.Progresses bound f :=
  ⟨hf, h, fun s => haltsWithin_of_advances h _ s (Nat.le_refl _)⟩

end Loop

end VarCensus
