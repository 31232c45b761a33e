import VarCensus.Source.Piece

/-!
# Trivia

Blanks, comments and directives are trivia: they separate the parts of a declaration and belong to none
of them. `triviaEnd?` recognises one piece of trivia and `skipTrivia` repeats it, so a property of the
whole skip follows from the same property of one piece.
-/

namespace VarCensus
namespace Source

/-- Whether a text, its trailing blanks apart, ends in a backslash. -/
def endsInBackslash (text : String) : Bool :=
  (text.toList.reverse.dropWhile Text.isBlank).head? == some '\\'

/-- The end of the directive at `pos` when its lines up to `stop` have been read: a line that ends in a
backslash takes the next line with it. -/
def directiveEndFrom (src : Source) (pos stop : Nat) : Nat :=
  if stop < src.size && endsInBackslash (src.slice pos stop) then
    src.directiveEndFrom pos (max (stop + 1) (src.lineEnd (stop + 1)))
  else stop
termination_by src.size - stop
decreasing_by
  simp only [Bool.and_eq_true, decide_eq_true_eq] at *
  omega

/-- The end of the directive that starts at `pos`. -/
def directiveEnd (src : Source) (pos : Nat) : Nat :=
  src.directiveEndFrom pos (src.lineEnd pos)

theorem le_directiveEndFrom (src : Source) (pos stop : Nat) :
    stop ≤ src.directiveEndFrom pos stop := by
  fun_induction directiveEndFrom src pos stop with
  | case1 stop _ ih => omega
  | case2 => exact Nat.le_refl _

theorem directiveEndFrom_le (src : Source) (pos : Nat) {stop : Nat} (h : stop ≤ src.size) :
    src.directiveEndFrom pos stop ≤ src.size := by
  fun_induction directiveEndFrom src pos stop with
  | case1 stop hs ih =>
    simp only [Bool.and_eq_true, decide_eq_true_eq] at hs
    have := lineEnd_le src (stop + 1)
    exact ih (by omega)
  | case2 => exact h

theorem directiveEnd_bounds {src : Source} {pos : Nat} (h : src.byte? pos = some '#'.toUInt8) :
    pos < src.directiveEnd pos ∧ src.directiveEnd pos ≤ src.size := by
  have h1 := lt_lineEnd h (by decide)
  have h2 := le_directiveEndFrom src pos (src.lineEnd pos)
  have h3 := directiveEndFrom_le src pos (lineEnd_le src pos)
  unfold directiveEnd
  omega

/-- Whether a directive starts at `pos`. -/
def startsDirective (lex : Lexicon) (src : Source) (pos : Nat) : Bool :=
  lex.directives && src.byte? pos == some '#'.toUInt8 && src.atLineStart pos

/-- If a piece of trivia starts at `pos`, the position just past it. -/
def triviaEnd? (lex : Lexicon) (src : Source) (pos : Nat) : Option Nat :=
  match src.byte? pos with
  | none => none
  | some b =>
    if isAsciiBlank b then some (pos + 1)
    else match src.commentEnd? lex pos with
      | some e => some e
      | none => if src.startsDirective lex pos then some (src.directiveEnd pos) else none

theorem triviaEnd?_bounds {lex : Lexicon} {src : Source} {pos e : Nat}
    (h : src.triviaEnd? lex pos = some e) : pos < e ∧ e ≤ src.size := by
  unfold triviaEnd? at h
  split at h
  · cases h
  · next b hb =>
    have hlt := byte?_eq_some_lt hb
    split at h
    · cases h; omega
    · split at h
      · next hc => cases h; exact commentEnd?_bounds hc
      · split at h
        · next hd =>
          cases h
          simp only [startsDirective, Bool.and_eq_true, beq_iff_eq] at hd
          exact directiveEnd_bounds hd.1.2
        · cases h

/-- The first position at or after `pos` where no trivia starts. -/
def skipTrivia (lex : Lexicon) (src : Source) (pos : Nat) : Nat :=
  match _h : src.triviaEnd? lex pos with
  | some e => src.skipTrivia lex e
  | none => pos
termination_by src.size - pos
decreasing_by
  have := triviaEnd?_bounds _h
  omega

theorem le_skipTrivia (lex : Lexicon) (src : Source) (pos : Nat) : pos ≤ src.skipTrivia lex pos := by
  fun_induction skipTrivia lex src pos with
  | case1 pos e h ih => have := triviaEnd?_bounds h; omega
  | case2 => exact Nat.le_refl _

theorem skipTrivia_le (lex : Lexicon) {src : Source} {pos : Nat} (h : pos ≤ src.size) :
    src.skipTrivia lex pos ≤ src.size := by
  fun_induction skipTrivia lex src pos with
  | case1 pos e he ih => exact ih (triviaEnd?_bounds he).2
  | case2 => exact h

end Source
end VarCensus
