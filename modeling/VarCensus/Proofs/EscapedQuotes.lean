import Mathlib.Algebra.Group.Nat.Even
import Mathlib.Order.Bounds.Defs
import VarCensus.Proofs.FaithfulValues

/-!
# Where literals end

A literal is read in steps of one byte, and of two bytes at a backslash. Where the reading stands depends on where it
has come from; whether a place counts can be told from the bytes before it. A position of the body is unescaped if an
even number of backslashes stand in a row right before it (`Unescaped`), and the reading passes over no such position
without looking at it (`ReadsUpTo`). So a literal ends at the first unescaped place that can end it: in three quotes at
the next three of them, on one line at the quote or at the line feed, whichever comes first.

Nothing is asked of the text. A backslash may stand in front of a character of several bytes, so that the reading goes
on in the middle of it, or at the very end, so that it leaves the source; still the literal ends between characters.
-/

namespace VarCensus
namespace Source

variable {lex : Lexicon} {src : Source} {quote : UInt8} {first pos : Nat}

/-! ## Escaped and unescaped -/

/-- The number of backslashes in a row that end right before a position, as far as they belong to a body that starts
at `first`. -/
def backslashesBefore (src : Source) (first : Nat) : Nat → Nat
  | 0 => 0
  | pos + 1 =>
    if first ≤ pos ∧ src.byte? pos = some '\\'.toUInt8 then src.backslashesBefore first pos + 1 else 0

/-- A position of the body that starts at `first` is not taken up by a backslash before it. -/
def Unescaped (src : Source) (first pos : Nat) : Prop :=
  first ≤ pos ∧ Even (src.backslashesBefore first pos)

theorem backslashesBefore_first (src : Source) (first : Nat) : src.backslashesBefore first first = 0 := by
  cases first with
  | zero => rfl
  | succ first =>
    rw [backslashesBefore, if_neg]
    rintro ⟨hle, -⟩
    exact Nat.not_succ_le_self first hle

/-- A body starts with an unescaped position. -/
theorem unescaped_first (src : Source) (first : Nat) : src.Unescaped first first :=
  ⟨Nat.le_refl first, by rw [backslashesBefore_first]; exact Even.zero⟩

/-- Behind any byte but a backslash stands an unescaped position. -/
theorem unescaped_succ (hle : first ≤ pos) (hb : src.byte? pos ≠ some '\\'.toUInt8) :
    src.Unescaped first (pos + 1) := by
  refine ⟨Nat.le_succ_of_le hle, ?_⟩
  rw [backslashesBefore, if_neg fun h => hb h.2]
  exact Even.zero

/-- A backslash turns the next position into the other kind. -/
theorem unescaped_succ_iff (hle : first ≤ pos) (hb : src.byte? pos = some '\\'.toUInt8) :
    src.Unescaped first (pos + 1) ↔ ¬ src.Unescaped first pos := by
  have hrun : src.backslashesBefore first (pos + 1) = src.backslashesBefore first pos + 1 := by
    rw [backslashesBefore, if_pos ⟨hle, hb⟩]
  simp only [Unescaped, hrun, Nat.even_add_one, hle, Nat.le_succ_of_le hle, true_and]

/-- The position two behind an unescaped backslash is unescaped, whatever stands between them. -/
theorem unescaped_add_two (h : src.Unescaped first pos) (hb : src.byte? pos = some '\\'.toUInt8) :
    src.Unescaped first (pos + 2) := by
  have hescaped : ¬ src.Unescaped first (pos + 1) := fun hnext => (unescaped_succ_iff h.1 hb).mp hnext h
  by_cases hnext : src.byte? (pos + 1) = some '\\'.toUInt8
  · exact (unescaped_succ_iff (Nat.le_succ_of_le h.1) hnext).mpr hescaped
  · exact unescaped_succ (Nat.le_succ_of_le h.1) hnext

/-! ## Reading a body -/

/-- The reading of a body stands at an unescaped position, with no unescaped place to end before it. -/
structure ReadsUpTo (src : Source) (first : Nat) (ends : Nat → Prop) (pos : Nat) : Prop where
  here : src.Unescaped first pos
  none_before : ∀ i < pos, src.Unescaped first i → ¬ ends i

namespace ReadsUpTo

variable {ends : Nat → Prop}

theorem start (src : Source) (first : Nat) (ends : Nat → Prop) : src.ReadsUpTo first ends first :=
  ⟨unescaped_first src first, fun _ hlt h => absurd h.1 (Nat.not_le.mpr hlt)⟩

/-- Over one byte that is no backslash. -/
theorem next (h : src.ReadsUpTo first ends pos) (hb : src.byte? pos ≠ some '\\'.toUInt8) (hends : ¬ ends pos) :
    src.ReadsUpTo first ends (pos + 1) := by
  refine ⟨unescaped_succ h.here.1 hb, fun i hi hun => ?_⟩
  rcases Nat.lt_succ_iff_lt_or_eq.mp hi with hlt | rfl
  · exact h.none_before i hlt hun
  · exact hends

/-- Over a backslash and the byte behind it, which is escaped and therefore ends nothing. -/
theorem escape (h : src.ReadsUpTo first ends pos) (hb : src.byte? pos = some '\\'.toUInt8) (hends : ¬ ends pos) :
    src.ReadsUpTo first ends (pos + 2) := by
  refine ⟨unescaped_add_two h.here hb, fun i hi hun => ?_⟩
  rcases Nat.lt_succ_iff_lt_or_eq.mp hi with hlt | rfl
  · rcases Nat.lt_succ_iff_lt_or_eq.mp hlt with hlt | rfl
    · exact h.none_before i hlt hun
    · exact hends
  · exact absurd h.here ((unescaped_succ_iff h.here.1 hb).mp hun)

/-- Where the reading finds a place to end, it is the first one. -/
theorem isLeast (h : src.ReadsUpTo first ends pos) (hends : ends pos) :
    IsLeast {i | src.Unescaped first i ∧ ends i} pos :=
  ⟨⟨h.here, hends⟩, fun i hi => Nat.not_lt.mp fun hlt => h.none_before i hlt hi.1 hi.2⟩

/-- Where the reading leaves the source, there is no place to end. -/
theorem none_at_all (h : src.ReadsUpTo first ends pos) (hsize : src.size ≤ pos)
    (hinside : ∀ i, ends i → i < src.size) (i : Nat) (hun : src.Unescaped first i) : ¬ ends i :=
  fun hends => h.none_before i (Nat.lt_of_lt_of_le (hinside i hends) hsize) hun hends

end ReadsUpTo

/-! ## Literals in three quotes -/

/-- Where a literal in three quotes ends whose body starts at `first`. -/
inductive TripleEnd (src : Source) (quote : UInt8) (first : Nat) : Nat → Prop
  | closed {i : Nat}
      (h : IsLeast {j | src.Unescaped first j ∧ src.startsWith j [quote, quote, quote] = true} i) :
      TripleEnd src quote first (i + 3)
  | unclosed (h : ∀ j, src.Unescaped first j → src.startsWith j [quote, quote, quote] = false) :
      TripleEnd src quote first src.size

theorem tripleEnd_of_readsUpTo (hq : isQuote quote = true)
    (h : src.ReadsUpTo first (fun i => src.startsWith i [quote, quote, quote] = true) pos) :
    src.TripleEnd quote first (src.tripleQuotedEnd quote pos) := by
  fun_induction tripleQuotedEnd src quote pos with
  | case1 pos hlt hslash ih =>
    have hb : src.byte? pos = some '\\'.toUInt8 := by
      rw [byte?, Array.getElem?_eq_getElem hlt, beq_iff_eq.mp hslash]
    refine ih (h.escape hb fun hstarts => ?_)
    rw [startsWith_cons hstarts] at hb
    rcases isQuote_cases hq with rfl | rfl <;> cases hb
  | case2 pos hlt hslash hstarts => exact .closed (h.isLeast hstarts)
  | case3 pos hlt hslash hstarts ih =>
    have hb : src.byte? pos ≠ some '\\'.toUInt8 := by
      rw [byte?, Array.getElem?_eq_getElem hlt]
      simpa using hslash
    exact ih (h.next hb hstarts)
  | case4 pos hge =>
    refine .unclosed fun j hun => Bool.eq_false_iff.mpr (h.none_at_all (Nat.not_lt.mp hge) (fun i hi => ?_) j hun)
    exact byte?_eq_some_lt (startsWith_cons hi)

/-! ## Literals on one line -/

/-- Where a literal on one line ends whose body starts at `first`. -/
inductive OneLineEnd (src : Source) (quote : UInt8) (first : Nat) : Nat → Prop
  | closed {i : Nat} (h : IsLeast {j | src.Unescaped first j ∧ src.byte? j = some quote} i)
      (hfeed : ∀ j < i, src.Unescaped first j → src.byte? j ≠ some '\n'.toUInt8) : OneLineEnd src quote first (i + 1)
  /-- The line ends before the literal does. -/
  | broken {i : Nat} (h : IsLeast {j | src.Unescaped first j ∧ src.byte? j = some '\n'.toUInt8} i)
      (hquote : ∀ j < i, src.Unescaped first j → src.byte? j ≠ some quote) : OneLineEnd src quote first i
  | unclosed (h : ∀ j, src.Unescaped first j → src.byte? j ≠ some quote ∧ src.byte? j ≠ some '\n'.toUInt8) :
      OneLineEnd src quote first src.size

theorem oneLineEnd_of_readsUpTo (hq : isQuote quote = true)
    (h : src.ReadsUpTo first (fun i => src.byte? i = some quote ∨ src.byte? i = some '\n'.toUInt8) pos) :
    src.OneLineEnd quote first (src.quotedEnd quote pos) := by
  fun_induction quotedEnd src quote pos with
  | case1 pos hlt hslash ih =>
    have hb : src.byte? pos = some '\\'.toUInt8 := by
      rw [byte?, Array.getElem?_eq_getElem hlt, beq_iff_eq.mp hslash]
    refine ih (h.escape hb ?_)
    rw [hb]
    rcases isQuote_cases hq with rfl | rfl <;> decide
  | case2 pos hlt hslash hfeed =>
    have hb : src.byte? pos = some '\n'.toUInt8 := by
      rw [byte?, Array.getElem?_eq_getElem hlt, beq_iff_eq.mp hfeed]
    have hleast := h.isLeast (Or.inr hb)
    refine .broken ⟨⟨h.here, hb⟩, fun j hj => hleast.2 ⟨hj.1, Or.inr hj.2⟩⟩ fun j hj hun hquote => ?_
    exact h.none_before j hj hun (Or.inl hquote)
  | case3 pos hlt hslash hfeed hquote =>
    have hb : src.byte? pos = some quote := by
      rw [byte?, Array.getElem?_eq_getElem hlt, beq_iff_eq.mp hquote]
    have hleast := h.isLeast (Or.inl hb)
    refine .closed ⟨⟨h.here, hb⟩, fun j hj => hleast.2 ⟨hj.1, Or.inl hj.2⟩⟩ fun j hj hun hfeed => ?_
    exact h.none_before j hj hun (Or.inr hfeed)
  | case4 pos hlt hslash hfeed hquote ih =>
    have hb : src.byte? pos = some src.bytes[pos] := Array.getElem?_eq_getElem hlt
    rw [beq_iff_eq] at hslash hfeed hquote
    refine ih (h.next ?_ ?_)
    · simpa [hb] using hslash
    · simpa [hb] using ⟨hquote, hfeed⟩
  | case5 pos hge =>
    refine .unclosed fun j hun => not_or.mp (h.none_at_all (Nat.not_lt.mp hge) (fun i hi => ?_) j hun)
    rcases hi with hi | hi <;> exact byte?_eq_some_lt hi

/-! ## Ordinary literals -/

/-- A quote at `pos` opens a literal that is no raw one. -/
structure OpensOrdinaryAt (lex : Lexicon) (src : Source) (quote : UInt8) (pos : Nat) : Prop where
  here : src.byte? pos = some quote
  quotes : isQuote quote = true
  separates : src.isDigitSeparator lex quote pos = false
  announced : src.opensRaw lex quote pos = true → src.rawStringEnd? pos = none

theorem OpensOrdinaryAt.literalEnd? (h : src.OpensOrdinaryAt lex quote pos) :
    src.literalEnd? lex pos = some (src.ordinaryEnd lex quote pos) := by
  have hquote : ¬ (quote != '"'.toUInt8 && quote != '\''.toUInt8) = true := by
    rcases isQuote_cases h.quotes with rfl | rfl <;> decide
  rw [Source.literalEnd?, h.here]
  dsimp only
  rw [if_neg hquote, h.separates, if_neg Bool.false_ne_true]
  split
  · next hraw => rw [h.announced hraw, Option.getD_none]
  · rfl

/-- **A literal ends at the first unescaped place that can end it**, for every text and every quote that opens a
literal and no raw one: in three quotes, where the lexicon has them, behind the next three, and else behind the next
quote or at the line feed in front of it; with the text if there is none. That place lies ahead of the opening quote,
in the text and between two characters of it. -/
theorem literalEnd?_unescaped {text : String} (h : (ofString text).OpensOrdinaryAt lex quote pos) :
    ∃ e, (ofString text).literalEnd? lex pos = some e ∧
      (if lex.tripleQuotes = true ∧ (ofString text).startsWith pos [quote, quote, quote] = true then
        (ofString text).TripleEnd quote (pos + 3) e
      else (ofString text).OneLineEnd quote (pos + 1) e) ∧
      pos < e ∧ e ≤ (ofString text).size ∧ String.Pos.Raw.IsValid text ⟨e⟩ := by
  have hliteral := h.literalEnd?
  have hbounds := literalEnd?_bounds hliteral
  refine ⟨_, hliteral, ?_, hbounds.1, hbounds.2, (edge_literalEnd? hliteral).isValid hbounds.2⟩
  unfold ordinaryEnd
  simp only [Bool.and_eq_true]
  split
  · exact tripleEnd_of_readsUpTo h.quotes (.start _ _ _)
  · exact oneLineEnd_of_readsUpTo h.quotes (.start _ _ _)

/-- A backslash in front of a character of two bytes, and a quote behind three backslashes. -/
def escapedTwice : String :=
  "p = \"\\ä\\\\\\\"\"\n"

theorem literalEnd?_unescaped_escapedTwice :
    (ofString escapedTwice).OpensOrdinaryAt .python '"'.toUInt8 4 ∧
    (ofString escapedTwice).literalEnd? .python 4 = some 13 ∧
    (ofString escapedTwice).OneLineEnd '"'.toUInt8 5 13 ∧ String.Pos.Raw.IsValid escapedTwice ⟨13⟩ := by
  have hopens : (ofString escapedTwice).OpensOrdinaryAt .python '"'.toUInt8 4 :=
    ⟨by decide +kernel, by decide +kernel, by decide +kernel, by decide +kernel⟩
  obtain ⟨e, hliteral, hend, -, -, hvalid⟩ := literalEnd?_unescaped hopens
  obtain rfl : e = 13 := by
    have h : (ofString escapedTwice).literalEnd? .python 4 = some 13 := by decide +kernel
    rw [h] at hliteral
    exact (Option.some.inj hliteral).symm
  rw [if_neg (by decide +kernel)] at hend
  exact ⟨hopens, hliteral, hend, hvalid⟩

end Source
end VarCensus
