import Mathlib.Data.List.Forall2
import VarCensus.Location
import VarCensus.Proofs.SearchReach
import VarCensus.Proofs.SourceParts

/-!
# What a comment says

Two sources that differ in nothing but the body of one comment are read alike, as long as each scan comes to
the comment and none gets into it from in front, out of a literal, another comment or a directive that reaches
across its opening. The positions that scans of both sources come to are the `Shared` ones. Every step from a
shared position is made in both sources and leads to a shared one (`Twins.shared_goes`), and each reading function
then gives the same in both.

Both sources are asked not to lead a scan into the comment. One of the two would not be enough: what a comment says
can make a raw literal of what is an ordinary one otherwise, and that literal reaches into the comment.
-/

namespace VarCensus
namespace Source

/-! ## One comment, two bodies -/

/-- A comment on one line opens at `k`, and the star that closes it stands at `m`. -/
structure HasComment (src : Source) (k m : Nat) : Prop where
  le : k + 2 ≤ m
  opens : src.startsWith k ['/'.toUInt8, '*'.toUInt8] = true
  closes : src.startsWith m ['*'.toUInt8, '/'.toUInt8] = true
  first : ∀ i, k + 2 ≤ i → i < m → ¬ src.startsWith i ['*'.toUInt8, '/'.toUInt8] = true
  oneLine : ∀ i, k + 2 ≤ i → i < m → src.byte? i ≠ some '\n'.toUInt8

/-- Two sources that differ at most in the body of a comment. -/
structure Twins (lex : Lexicon) (k m : Nat) (src src' : Source) : Prop where
  slash : lex.comments = .slash
  comment : src.HasComment k m
  comment' : src'.HasComment k m
  size : src'.size = src.size
  same : ∀ i, i < k + 2 ∨ m ≤ i → src'.byte? i = src.byte? i

/-- A position outside the comment; its two ends are outside. -/
def Beside (k m pos : Nat) : Prop :=
  pos ≤ k ∨ m + 2 ≤ pos

theorem Beside.succ {k m pos : Nat} (h : Beside k m pos) (hne : pos ≠ k) : Beside k m (pos + 1) := by
  unfold Beside at h ⊢
  omega

/-- No scan from a position on reaches across `k`. -/
def Clear (lex : Lexicon) (src : Source) (k pos : Nat) : Prop :=
  ∀ p q, src.Goes lex pos p → Step lex src p q → p < k → q ≤ k

/-- A position that scans of both sources come to. -/
structure Shared (lex : Lexicon) (k m : Nat) (src src' : Source) (pos : Nat) : Prop where
  beside : Beside k m pos
  clear : src.Clear lex k pos
  clear' : src'.Clear lex k pos

variable {lex : Lexicon} {k m pos : Nat} {src src' : Source}

namespace HasComment

theorem slash (h : src.HasComment k m) : src.byte? k = some '/'.toUInt8 :=
  startsWith_cons h.opens

theorem star (h : src.HasComment k m) : src.byte? (k + 1) = some '*'.toUInt8 := by
  have hopens := h.opens
  rw [startsWith, Bool.and_eq_true] at hopens
  exact startsWith_cons hopens.2

theorem closingSlash (h : src.HasComment k m) : src.byte? (m + 1) = some '/'.toUInt8 := by
  have hcloses := h.closes
  rw [startsWith, Bool.and_eq_true] at hcloses
  exact startsWith_cons hcloses.2

theorem le_size (h : src.HasComment k m) : m + 2 ≤ src.size :=
  startsWith_le h.closes

theorem ne_of_byte? (h : src.HasComment k m) {b : UInt8} (hb : src.byte? pos = some b) (hne : b ≠ '/'.toUInt8) :
    pos ≠ k := by
  rintro rfl
  rw [h.slash, Option.some.injEq] at hb
  exact hne hb.symm

/-- No line feed, in the body or in what opens and closes it. -/
theorem byte?_ne_feed (h : src.HasComment k m) {i : Nat} (hk : k ≤ i) (hm : i < m + 2) :
    src.byte? i ≠ some '\n'.toUInt8 := by
  intro hfeed
  have hcases : i = k ∨ i = k + 1 ∨ (k + 2 ≤ i ∧ i < m) ∨ i = m ∨ i = m + 1 := by
    have := h.le
    omega
  rcases hcases with rfl | rfl | ⟨hle, hlt⟩ | rfl | rfl
  · rw [h.slash] at hfeed
    exact absurd hfeed (by decide)
  · rw [h.star] at hfeed
    exact absurd hfeed (by decide)
  · exact h.oneLine i hle hlt hfeed
  · rw [startsWith_cons h.closes] at hfeed
    exact absurd hfeed (by decide)
  · rw [h.closingSlash] at hfeed
    exact absurd hfeed (by decide)

/-- A line that starts behind a line feed does not start in the comment. -/
theorem beside_succ (h : src.HasComment k m) (hfeed : src.byte? pos = some '\n'.toUInt8) :
    Beside k m (pos + 1) := by
  rcases Nat.lt_or_ge pos k with hlt | hle
  · exact Or.inl hlt
  · refine Or.inr (Nat.not_lt.mp fun hlt => ?_)
    exact h.byte?_ne_feed hle (Nat.lt_of_succ_lt hlt) hfeed

theorem beside_lineEnd (h : src.HasComment k m) (pos : Nat) : Beside k m (src.lineEnd pos + 1) := by
  rcases src.byte?_lineEnd pos with hnone | hfeed
  · have hle : src.size ≤ src.lineEnd pos := Array.getElem?_eq_none_iff.mp hnone
    exact Or.inr (Nat.le_succ_of_le (Nat.le_trans h.le_size hle))
  · exact h.beside_succ hfeed

theorem beside_lineStartBelow (h : src.HasComment k m) (pos : Nat) : Beside k m (src.lineStartBelow pos) := by
  induction pos with
  | zero => exact Or.inl (Nat.zero_le _)
  | succ pos ih =>
    rw [lineStartBelow]
    split
    · next hfeed => exact h.beside_succ (beq_iff_eq.mp hfeed)
    · exact ih

theorem find?_eq (h : src.HasComment k m) : src.find? ['*'.toUInt8, '/'.toUInt8] (k + 2) = some m := by
  have hsearch (n : Nat) (hle : k + 2 ≤ m - n) :
      src.find? ['*'.toUInt8, '/'.toUInt8] (m - n) = some m := by
    induction n with
    | zero =>
      have hlt : m < src.size := Nat.lt_of_succ_lt h.le_size
      rw [Nat.sub_zero, find?, if_pos hlt, if_pos h.closes]
    | succ n ih =>
      have hlt := h.le_size
      by_cases hn : n < m
      · have hnext : m - (n + 1) + 1 = m - n := by omega
        rw [find?, if_pos (by omega), if_neg (h.first _ hle (by omega)), hnext]
        exact ih (by omega)
      · rw [Nat.sub_eq_zero_of_le (by omega)] at hle
        cases hle
  have hle := h.le
  have hstart : m - (m - (k + 2)) = k + 2 := by omega
  exact hstart ▸ hsearch (m - (k + 2)) (by omega)

theorem commentEnd?_eq (h : src.HasComment k m) (hlex : lex.comments = .slash) :
    src.commentEnd? lex k = some (m + 2) := by
  have hline : ¬ src.startsWith k ['/'.toUInt8, '/'.toUInt8] = true := by
    simp [startsWith, h.star, show ('*'.toUInt8 == '/'.toUInt8) = false from rfl]
  simp only [commentEnd?, hlex]
  rw [if_neg hline, if_pos h.opens, h.find?_eq]

theorem literalEnd?_eq_none (h : src.HasComment k m) : src.literalEnd? lex k = none := by
  rw [literalEnd?, h.slash]
  rfl

theorem not_startsDirective (h : src.HasComment k m) : ¬ src.startsDirective lex k = true := by
  simp [startsDirective, h.slash, show ('/'.toUInt8 == '#'.toUInt8) = false from rfl]

end HasComment

namespace Twins

theorem symm (h : Twins lex k m src src') : Twins lex k m src' src :=
  ⟨h.slash, h.comment', h.comment, h.size.symm, fun i hi => (h.same i hi).symm⟩

theorem byte?_eq (h : Twins lex k m src src') (hp : Beside k m pos) : src'.byte? pos = src.byte? pos := by
  refine h.same pos ?_
  unfold Beside at hp
  omega

theorem byte?_eq_getElem (h : Twins lex k m src src') (hp : Beside k m pos) (hlt : pos < src.bytes.size) :
    src'.byte? pos = some src.bytes[pos] :=
  (h.byte?_eq hp).trans (Array.getElem?_eq_getElem hlt)

theorem byte?_succ_eq (h : Twins lex k m src src') (hp : Beside k m pos) :
    src'.byte? (pos + 1) = src.byte? (pos + 1) := by
  refine h.same (pos + 1) ?_
  unfold Beside at hp
  omega

theorem byteBefore?_eq (h : Twins lex k m src src') (hp : Beside k m pos) :
    src'.byteBefore? pos = src.byteBefore? pos := by
  cases pos with
  | zero => rfl
  | succ pos =>
    refine h.same pos ?_
    unfold Beside at hp
    omega

/-- Bytes on one side of the comment are the same. -/
theorem same_of_side (h : Twins lex k m src src') {stop i : Nat} (hp : Beside k m pos) (hstop : pos ≤ k → stop ≤ k)
    (hi : pos ≤ i) (hi' : i ≤ stop + 1) : src'.byte? i = src.byte? i := by
  refine h.same i ?_
  unfold Beside at hp
  omega

theorem slice_eq (h : Twins lex k m src src') {first stop : Nat} (hside : stop ≤ k ∨ m + 2 ≤ first) :
    src'.slice first stop = src.slice first stop := by
  refine slice_congr h.size fun i hi hi' => h.same i ?_
  omega

/-- A slice from beside the comment that does not reach across its opening. -/
theorem slice_of_side (h : Twins lex k m src src') {stop : Nat} (hp : Beside k m pos) (hstop : pos ≤ k → stop ≤ k) :
    src'.slice pos stop = src.slice pos stop :=
  h.slice_eq (hp.imp_left hstop)

/-- Lines end at the same places. -/
theorem feed_iff (h : Twins lex k m src src') (pos : Nat) :
    src'.byte? pos = some '\n'.toUInt8 ↔ src.byte? pos = some '\n'.toUInt8 := by
  by_cases hbody : k + 2 ≤ pos ∧ pos < m
  · exact iff_of_false (h.comment'.oneLine pos hbody.1 hbody.2) (h.comment.oneLine pos hbody.1 hbody.2)
  · rw [h.same pos (by omega)]

theorem feed_eq (h : Twins lex k m src src') (pos : Nat) :
    (src'.byte? pos == some '\n'.toUInt8) = (src.byte? pos == some '\n'.toUInt8) := by
  rw [Bool.eq_iff_iff, beq_iff_eq, beq_iff_eq]
  exact h.feed_iff pos

theorem lineEnd_eq (h : Twins lex k m src src') (pos : Nat) : src'.lineEnd pos = src.lineEnd pos := by
  rw [lineEnd, lineEnd, h.size, skipWhile_congr h.size]
  intro i _ _
  have hfeed := h.feed_iff i
  cases hb : src.byte? i with
  | none =>
    rw [byte?_eq_none (h.size ▸ Array.getElem?_eq_none_iff.mp hb)]
  | some b =>
    obtain ⟨b', hb'⟩ : ∃ b', src'.byte? i = some b' :=
      Option.isSome_iff_exists.mp (byte?_isSome_iff.mpr (h.size ▸ byte?_eq_some_lt hb))
    rw [hb, hb', Option.some.injEq, Option.some.injEq] at hfeed
    rw [hb', Option.map_some, Option.map_some, Option.some.injEq, Bool.eq_iff_iff, bne_iff_ne, bne_iff_ne, ne_eq,
      ne_eq, hfeed]

theorem lineStartBelow_eq (h : Twins lex k m src src') (pos : Nat) :
    src'.lineStartBelow pos = src.lineStartBelow pos := by
  induction pos with
  | zero => rfl
  | succ pos ih => rw [lineStartBelow, lineStartBelow, h.feed_eq, ih]

/-! ## Runs of bytes -/

theorem skipWhile_le_slash (h : src.HasComment k m) {test : UInt8 → Bool} (htest : test '/'.toUInt8 = false)
    (hle : pos ≤ k) : src.skipWhile test pos ≤ k := by
  fun_induction skipWhile src test pos with
  | case1 pos hlt ht ih =>
    refine ih (Nat.lt_of_le_of_ne hle (h.ne_of_byte? (Array.getElem?_eq_getElem hlt) fun heq => ?_))
    rw [heq, htest] at ht
    cases ht
  | case2 => exact hle
  | case3 => exact hle

/-- A run of bytes that a slash ends is on one side of the comment. -/
theorem skipWhile_eq (h : Twins lex k m src src') {test : UInt8 → Bool} (htest : test '/'.toUInt8 = false)
    (hp : Beside k m pos) : src'.skipWhile test pos = src.skipWhile test pos := by
  refine skipWhile_congr h.size fun i hi hi' => ?_
  have hside : pos ≤ k → src.skipWhile test pos ≤ k := skipWhile_le_slash h.comment htest
  rw [h.same_of_side hp hside hi (Nat.le_succ_of_le hi')]

theorem skipInlineSpace_eq (h : Twins lex k m src src') (hp : Beside k m pos) :
    src'.skipInlineSpace pos = src.skipInlineSpace pos :=
  h.skipWhile_eq (by decide) hp

theorem indentation_eq (h : Twins lex k m src src') (pos : Nat) : src'.indentation pos = src.indentation pos := by
  have hline := h.comment.beside_lineStartBelow (min pos src.size)
  rw [indentation, indentation, lineStart, lineStart, h.size, h.lineStartBelow_eq, h.skipInlineSpace_eq hline]

theorem identEnd?_eq (h : Twins lex k m src src') (hp : Beside k m pos) :
    src'.identEnd? pos = src.identEnd? pos ∧ ∀ e, src.identEnd? pos = some e → pos ≤ k → e ≤ k := by
  unfold identEnd?
  rw [h.byte?_eq hp]
  cases hb : src.byte? pos with
  | none => simp
  | some b =>
    by_cases hstart : isIdentStart b
    · have hne : pos ≠ k := by
        refine h.comment.ne_of_byte? hb ?_
        rintro rfl
        exact absurd hstart (by decide)
      have hnext := hp.succ hne
      simp only [hstart, ↓reduceIte, h.skipWhile_eq (show isIdentByte '/'.toUInt8 = false by decide) hnext,
        Option.some.injEq, true_and]
      rintro e rfl hle
      exact skipWhile_le_slash h.comment (by decide) (Nat.lt_of_le_of_ne hle hne)
    · simp [hstart]

theorem identAt?_eq (h : Twins lex k m src src') (hp : Beside k m pos) : src'.identAt? pos = src.identAt? pos := by
  obtain ⟨heq, hside⟩ := h.identEnd?_eq hp
  rw [identAt?, identAt?, heq]
  cases he : src.identEnd? pos with
  | none => rfl
  | some e =>
    rw [Option.map_some, Option.map_some, h.slice_of_side hp (hside e he)]

theorem isLoneEquals_eq (h : Twins lex k m src src') (hp : Beside k m pos) :
    src'.isLoneEquals pos = src.isLoneEquals pos := by
  rw [isLoneEquals, isLoneEquals, h.byte?_eq hp, h.byte?_succ_eq hp, h.byteBefore?_eq hp]

theorem atLineStart_eq (h : Twins lex k m src src') (hp : Beside k m pos) :
    src'.atLineStart pos = src.atLineStart pos := by
  induction pos with
  | zero => rfl
  | succ pos ih =>
    have hbyte : src'.byte? pos = src.byte? pos := h.byteBefore?_eq hp
    rw [atLineStart, atLineStart, hbyte]
    by_cases hslash : pos = m + 1
    · -- what closes the comment is no blank
      rw [hslash, h.comment.closingSlash]
      rfl
    · have hbefore : Beside k m pos := by
        unfold Beside at hp ⊢
        omega
      rw [ih hbefore]

theorem startsWith_two_eq (h : Twins lex k m src src') (hp : Beside k m pos) (b c : UInt8) :
    src'.startsWith pos [b, c] = src.startsWith pos [b, c] := by
  refine startsWith_congr h.size fun i hi hlt => h.same i ?_
  simp only [List.length_cons, List.length_nil] at hlt
  unfold Beside at hp
  omega

/-- Bytes that open nothing end before a comment does. -/
theorem startsWith_plain_eq (h : Twins lex k m src src') {pattern : List UInt8}
    (hplain : pattern.all isPlain = true) (hp : Beside k m pos) :
    src'.startsWith pos pattern = src.startsWith pos pattern := by
  induction pattern generalizing pos with
  | nil => simp only [startsWith, h.size]
  | cons b rest ih =>
    rw [List.all_cons, Bool.and_eq_true] at hplain
    rw [startsWith, startsWith, h.byte?_eq hp]
    by_cases hb : src.byte? pos = some b
    · have hne : pos ≠ k := by
        refine h.comment.ne_of_byte? hb ?_
        rintro rfl
        exact absurd hplain.1 (by decide)
      rw [ih hplain.2 (hp.succ hne)]
    · rw [beq_eq_false_iff_ne.mpr hb, Bool.false_and, Bool.false_and]

end Twins

/-! ## Pieces -/

theorem Clear.of_goes {p : Nat} (h : src.Clear lex k pos) (hgo : src.Goes lex pos p) : src.Clear lex k p :=
  fun q r hq hr => h q r (hgo.trans hq) hr

theorem Clear.enclosed_le {e : Nat} (h : src.Clear lex k pos) (he : src.enclosedEnd? lex pos = some e)
    (hlt : pos < k) : e ≤ k := by
  have hb := enclosedEnd?_bounds he
  have hstep : Step lex src pos (src.lexNext lex pos) := .next (Nat.lt_of_lt_of_le hb.1 hb.2)
  rw [lexNext, he] at hstep
  exact h pos e (.refl pos) hstep hlt

/-- A literal opens with a quote, and a comment does not. -/
theorem enclosedEnd?_of_literal {e : Nat} (h : src.literalEnd? lex pos = some e) :
    src.enclosedEnd? lex pos = some e := by
  have hcomment : src.commentEnd? lex pos = none := by
    unfold literalEnd? at h
    split at h
    · cases h
    · next quote hq =>
      split at h
      · cases h
      · next hquote =>
        have hsign : quote ≠ '#'.toUInt8 ∧ quote ≠ '/'.toUInt8 := by
          simp only [Bool.not_eq_true, Bool.and_eq_false_iff, bne_eq_false_iff_eq] at hquote
          rcases hquote with rfl | rfl <;> decide
        unfold commentEnd?
        cases lex.comments <;> simp [startsWith, hq, hsign]
  rw [enclosedEnd?, hcomment]
  exact h

namespace Twins

theorem commentEnd?_eq (h : Twins lex k m src src') (hp : Shared lex k m src src' pos) :
    src'.commentEnd? lex pos = src.commentEnd? lex pos := by
  by_cases hk : pos = k
  · rw [hk, h.comment.commentEnd?_eq h.slash, h.comment'.commentEnd?_eq h.slash]
  · have hbound {e : Nat} (he : src.commentEnd? lex pos = some e) (hle : pos ≤ k) : e ≤ k :=
      hp.clear.enclosed_le (by rw [enclosedEnd?, he]) (Nat.lt_of_le_of_ne hle hk)
    unfold commentEnd? at hbound ⊢
    rw [h.slash] at hbound ⊢
    dsimp only at hbound ⊢
    rw [h.startsWith_two_eq hp.beside, h.startsWith_two_eq hp.beside, h.lineEnd_eq]
    split
    · rfl
    · next hline =>
      split
      · next hopen =>
        rw [if_neg hline, if_pos hopen] at hbound
        -- on either side of the comment the closing marks are the same
        cases hfind : src.find? ['*'.toUInt8, '/'.toUInt8] (pos + 2) with
        | some i =>
          have hi : pos ≤ k → i + 2 ≤ k := hbound (by rw [hfind])
          rw [find?_congr h.size (fun j hj hj' => h.same_of_side hp.beside hi (by omega) (Nat.le_of_lt (by
            simpa using Nat.lt_succ_of_lt hj'))) hfind]
        | none =>
          have hside : ¬ pos ≤ k := fun hle => by
            have hsize : src.size ≤ k := hbound (by rw [hfind]) hle
            exact Nat.not_le.mpr (byte?_eq_some_lt h.comment.slash) hsize
          rw [find?_eq_of_rest h.size fun j hj => h.same_of_side hp.beside (fun hle => absurd hle hside)
            (by omega) (Nat.le_succ j), hfind, h.size]
      · rfl

theorem rawStringEnd?_eq (h : Twins lex k m src src') (hp : Beside k m pos)
    (hbound : ∀ e, src.rawStringEnd? pos = some e → pos ≤ k → e ≤ k)
    (hbound' : ∀ e, src'.rawStringEnd? pos = some e → pos ≤ k → e ≤ k) :
    src'.rawStringEnd? pos = src.rawStringEnd? pos := by
  cases hraw : src.rawStringEnd? pos with
  | some e =>
    exact rawStringEnd?_congr h.size (fun i hi hlt => h.same_of_side hp (hbound e hraw) hi (by omega)) hraw
  | none =>
    cases hraw' : src'.rawStringEnd? pos with
    | none => rfl
    | some e =>
      rw [rawStringEnd?_congr h.symm.size
        (fun i hi hlt => h.symm.same_of_side hp (hbound' e hraw') hi (by omega)) hraw'] at hraw
      cases hraw

theorem literalEnd?_eq (h : Twins lex k m src src') (hp : Shared lex k m src src' pos) :
    src'.literalEnd? lex pos = src.literalEnd? lex pos := by
  by_cases hk : pos = k
  · rw [hk, h.comment.literalEnd?_eq_none, h.comment'.literalEnd?_eq_none]
  · have hbound {e : Nat} (he : src.literalEnd? lex pos = some e) (hle : pos ≤ k) : e ≤ k :=
      hp.clear.enclosed_le (enclosedEnd?_of_literal he) (Nat.lt_of_le_of_ne hle hk)
    have hbound' {e : Nat} (he : src'.literalEnd? lex pos = some e) (hle : pos ≤ k) : e ≤ k :=
      hp.clear'.enclosed_le (enclosedEnd?_of_literal he) (Nat.lt_of_le_of_ne hle hk)
    have hordinary (quote : UInt8) (hle : pos ≤ k → src.ordinaryEnd lex quote pos ≤ k) :
        src'.ordinaryEnd lex quote pos = src.ordinaryEnd lex quote pos := by
      have hstop : pos ≤ k → max (pos + 1) (src.ordinaryEnd lex quote pos) ≤ k := by omega
      exact ordinaryEnd_congr h.size fun i hi hi' => h.same_of_side hp.beside hstop hi (by omega)
    have hseparator (quote : UInt8) : src'.isDigitSeparator lex quote pos = src.isDigitSeparator lex quote pos := by
      rw [isDigitSeparator, isDigitSeparator, h.byteBefore?_eq hp.beside]
    have hopens (quote : UInt8) : src'.opensRaw lex quote pos = src.opensRaw lex quote pos := by
      rw [opensRaw, opensRaw, h.byteBefore?_eq hp.beside]
    unfold literalEnd? at hbound hbound' ⊢
    rw [h.byte?_eq hp.beside] at hbound' ⊢
    cases hb : src.byte? pos with
    | none => rfl
    | some quote =>
      rw [hb] at hbound hbound'
      dsimp only at hbound hbound' ⊢
      rw [hseparator, hopens] at hbound' ⊢
      split
      · rfl
      · next hquote =>
        split
        · rfl
        · next hdigit =>
          rw [if_neg hquote, if_neg hdigit] at hbound hbound'
          split
          · next hopen =>
            rw [if_pos hopen] at hbound hbound'
            have hraw := h.rawStringEnd?_eq hp.beside (fun e he => hbound (by rw [he]; rfl))
              (fun e he => hbound' (by rw [he]; rfl))
            rw [hraw]
            cases hnone : src.rawStringEnd? pos with
            | some e => rfl
            | none =>
              rw [hnone] at hbound
              rw [Option.getD_none, Option.getD_none, hordinary quote (hbound rfl)]
          · next hopen =>
            rw [if_neg hopen] at hbound
            rw [hordinary quote (hbound rfl)]

theorem enclosedEnd?_eq (h : Twins lex k m src src') (hp : Shared lex k m src src' pos) :
    src'.enclosedEnd? lex pos = src.enclosedEnd? lex pos := by
  rw [enclosedEnd?, enclosedEnd?, h.commentEnd?_eq hp, h.literalEnd?_eq hp]

theorem startsDirective_eq (h : Twins lex k m src src') (hp : Beside k m pos) :
    src'.startsDirective lex pos = src.startsDirective lex pos := by
  rw [startsDirective, startsDirective, h.byte?_eq hp, h.atLineStart_eq hp]

theorem directiveEnd_eq (h : Twins lex k m src src') (hp : Shared lex k m src src' pos)
    (hd : src.startsDirective lex pos = true) : src'.directiveEnd pos = src.directiveEnd pos := by
  have hside : pos ≤ k → src.directiveEnd pos ≤ k := by
    intro hle
    refine hp.clear pos _ (.refl pos) (.directive hd) (Nat.lt_of_le_of_ne hle ?_)
    rintro rfl
    exact h.comment.not_startsDirective hd
  rw [directiveEnd, directiveEnd, h.lineEnd_eq]
  exact directiveEndFrom_congr h.size h.lineEnd_eq fun i hi hlt =>
    h.same_of_side hp.beside hside hi (Nat.le_succ_of_le (Nat.le_of_lt hlt))

theorem step_twin (h : Twins lex k m src src') (hp : Shared lex k m src src' pos) {q : Nat}
    (hs : Step lex src pos q) : Step lex src' pos q := by
  cases hs with
  | next hlt =>
    have heq : src'.lexNext lex pos = src.lexNext lex pos := by rw [lexNext, lexNext, h.enclosedEnd?_eq hp]
    exact heq ▸ .next (h.size ▸ hlt)
  | directive hd => exact h.directiveEnd_eq hp hd ▸ .directive ((h.startsDirective_eq hp.beside).trans hd)

/-- **A step from a shared position leads to a shared position.** -/
theorem shared_step (h : Twins lex k m src src') (hp : Shared lex k m src src' pos) {q : Nat}
    (hs : Step lex src pos q) : Shared lex k m src src' q := by
  refine ⟨?_, hp.clear.of_goes (.single hs), hp.clear'.of_goes (.single (h.step_twin hp hs))⟩
  rcases hp.beside with hle | hle
  · rcases Nat.lt_or_eq_of_le hle with hlt | rfl
    · exact Or.inl (hp.clear pos q (.refl pos) hs hlt)
    · -- from the opening of the comment there is one step
      cases hs with
      | next hlt =>
        rw [lexNext, enclosedEnd?, h.comment.commentEnd?_eq h.slash]
        exact Or.inr (Nat.le_refl _)
      | directive hd => exact absurd hd h.comment.not_startsDirective
  · exact Or.inr (Nat.le_trans hle (Nat.le_of_lt hs.bounds.1))

theorem shared_goes (h : Twins lex k m src src') (hp : Shared lex k m src src' pos) {q : Nat}
    (hgo : src.Goes lex pos q) : Shared lex k m src src' q := by
  unfold Goes at hgo
  induction hgo with
  | refl => exact hp
  | tail _ hs ih => exact h.shared_step ih hs

theorem goes_twin (h : Twins lex k m src src') (hp : Shared lex k m src src' pos) {q : Nat}
    (hgo : src.Goes lex pos q) : src'.Goes lex pos q := by
  unfold Goes at hgo
  induction hgo with
  | refl => exact .refl pos
  | tail hgo hs ih => exact ih.tail (h.step_twin (h.shared_goes hp hgo) hs)

theorem shared_byte (h : Twins lex k m src src') (hp : Shared lex k m src src' pos) {b : UInt8}
    (hb : src.byte? pos = some b) (hplain : isPlain b = true) : Shared lex k m src src' (pos + 1) :=
  h.shared_goes hp (.plain hb hplain)

theorem continuationEnd?_eq (h : Twins lex k m src src') (hp : Beside k m pos) :
    src'.continuationEnd? lex pos = src.continuationEnd? lex pos := by
  by_cases hslash : src.byte? pos = some '\\'.toUInt8
  · have hnext := hp.succ (h.comment.ne_of_byte? hslash (by decide))
    rw [continuationEnd?, continuationEnd?, h.byte?_eq hp, h.startsWith_two_eq hnext, h.byte?_eq hnext]
  · rw [continuationEnd?, continuationEnd?, h.byte?_eq hp, beq_eq_false_iff_ne.mpr hslash, Bool.and_false]
    rfl

theorem pieceAt?_eq (h : Twins lex k m src src') (hp : Shared lex k m src src' pos) :
    src'.pieceAt? lex pos = src.pieceAt? lex pos := by
  rw [pieceAt?, pieceAt?, h.byte?_eq hp.beside, h.commentEnd?_eq hp, h.literalEnd?_eq hp,
    h.continuationEnd?_eq hp.beside]

/-! ## Trivia and groups -/

theorem triviaEnd?_eq (h : Twins lex k m src src') (hp : Shared lex k m src src' pos) :
    src'.triviaEnd? lex pos = src.triviaEnd? lex pos := by
  rw [triviaEnd?, triviaEnd?, h.byte?_eq hp.beside, h.commentEnd?_eq hp, h.startsDirective_eq hp.beside]
  by_cases hd : src.startsDirective lex pos = true
  · rw [h.directiveEnd_eq hp hd]
  · simp only [Bool.eq_false_iff.mpr hd, Bool.false_eq_true, ↓reduceIte]

theorem skipTrivia_eq (h : Twins lex k m src src') (hp : Shared lex k m src src' pos) :
    src'.skipTrivia lex pos = src.skipTrivia lex pos := by
  fun_induction skipTrivia lex src pos with
  | case1 pos e he ih =>
    have he' := (h.triviaEnd?_eq hp).trans he
    rw [skipTrivia]
    split
    · next e' hsome =>
      rw [he'] at hsome
      cases hsome
      exact ih (h.shared_goes hp (Lands.triviaEnd? he).goes)
    · next hnone =>
      rw [he'] at hnone
      cases hnone
  | case2 pos he => exact skipTrivia_eq_self ((h.triviaEnd?_eq hp).trans he)

theorem shared_skipTrivia (h : Twins lex k m src src') (hp : Shared lex k m src src' pos) :
    Shared lex k m src src' (src.skipTrivia lex pos) :=
  h.shared_goes hp (Lands.trivia pos).goes

theorem groupEndFrom?_eq_ite {lex : Lexicon} {src : Source} {opener closer : UInt8} {start limit depth : Nat}
    {b : UInt8} (hb : src.byte? pos = some b) :
    src.groupEndFrom? lex opener closer start limit depth pos =
      if limit < pos - start then none
      else match src.enclosedEnd? lex pos with
        | some e => src.groupEndFrom? lex opener closer start limit depth e
        | none =>
          if b == opener then src.groupEndFrom? lex opener closer start limit (depth + 1) (pos + 1)
          else if b == closer then
            if depth == 1 then some (pos + 1)
            else src.groupEndFrom? lex opener closer start limit (depth - 1) (pos + 1)
          else src.groupEndFrom? lex opener closer start limit depth (pos + 1) := by
  obtain ⟨hlt, rfl⟩ := Array.getElem?_eq_some_iff.mp hb
  rw [groupEndFrom?, dif_pos hlt]
  split
  · rfl
  · split
    · next e he => rw [he]
    · next he => rw [he]

theorem groupEndFrom?_eq (h : Twins lex k m src src') {opener closer : UInt8} {start limit depth : Nat}
    (hp : Shared lex k m src src' pos) :
    src'.groupEndFrom? lex opener closer start limit depth pos =
      src.groupEndFrom? lex opener closer start limit depth pos := by
  have hnext {pos : Nat} (hp : Shared lex k m src src' pos) (hlt : pos < src.bytes.size)
      (he : src.enclosedEnd? lex pos = none) : Shared lex k m src src' (pos + 1) :=
    h.shared_goes hp (.byte (Array.getElem?_eq_getElem hlt) he)
  fun_induction groupEndFrom? lex src opener closer start limit depth pos with
  | case1 depth pos hlt hlimit => rw [groupEndFrom?_eq_ite (h.byte?_eq_getElem hp.beside hlt), if_pos hlimit]
  | case2 depth pos hlt hlimit e he ih =>
    rw [groupEndFrom?_eq_ite (h.byte?_eq_getElem hp.beside hlt), if_neg hlimit, h.enclosedEnd?_eq hp, he]
    exact ih (h.shared_goes hp (.enclosed he))
  | case3 depth pos hlt hlimit he hopen ih =>
    rw [groupEndFrom?_eq_ite (h.byte?_eq_getElem hp.beside hlt), if_neg hlimit, h.enclosedEnd?_eq hp, he]
    dsimp only
    rw [if_pos hopen]
    exact ih (hnext hp hlt he)
  | case4 depth pos hlt hlimit he hopen hclose hdepth =>
    rw [groupEndFrom?_eq_ite (h.byte?_eq_getElem hp.beside hlt), if_neg hlimit, h.enclosedEnd?_eq hp, he]
    dsimp only
    rw [if_neg hopen, if_pos hclose, if_pos hdepth]
  | case5 depth pos hlt hlimit he hopen hclose hdepth ih =>
    rw [groupEndFrom?_eq_ite (h.byte?_eq_getElem hp.beside hlt), if_neg hlimit, h.enclosedEnd?_eq hp, he]
    dsimp only
    rw [if_neg hopen, if_pos hclose, if_neg hdepth]
    exact ih (hnext hp hlt he)
  | case6 depth pos hlt hlimit he hopen hclose ih =>
    rw [groupEndFrom?_eq_ite (h.byte?_eq_getElem hp.beside hlt), if_neg hlimit, h.enclosedEnd?_eq hp, he]
    dsimp only
    rw [if_neg hopen, if_neg hclose]
    exact ih (hnext hp hlt he)
  | case7 depth pos hlt => rw [groupEndFrom?, dif_neg (by rwa [show src'.bytes.size = src.bytes.size from h.size])]

theorem groupEnd?_eq (h : Twins lex k m src src') {opener closer : UInt8} {limit : Nat}
    (hp : Shared lex k m src src' pos) :
    src'.groupEnd? lex opener closer limit pos = src.groupEnd? lex opener closer limit pos := by
  rw [groupEnd?, groupEnd?, h.byte?_eq hp.beside, h.groupEndFrom?_eq hp]

/-! ## Values -/

theorem isPointerMark_eq (h : Twins lex k m src src') (hp : Beside k m pos) :
    src'.isPointerMark pos = src.isPointerMark pos := by
  rw [isPointerMark, isPointerMark, h.byte?_eq hp]

theorem skipPointerMarks_eq (h : Twins lex k m src src') (hp : Shared lex k m src src' pos) :
    src'.skipPointerMarks lex pos = src.skipPointerMarks lex pos ∧
      Shared lex k m src src' (src.skipPointerMarks lex pos) := by
  fun_induction skipPointerMarks lex src pos with
  | case1 pos hpos ih =>
    have hnext : Shared lex k m src src' (pos + 1) := h.shared_goes hp (Lands.pointerMark hpos.2).goes
    rw [skipPointerMarks, dif_pos ⟨h.size ▸ hpos.1, (h.isPointerMark_eq hp.beside).trans hpos.2⟩, h.skipTrivia_eq hnext]
    exact ih (h.shared_skipTrivia hnext)
  | case2 pos hpos =>
    rw [skipPointerMarks, dif_neg (by rwa [h.size, h.isPointerMark_eq hp.beside])]
    exact ⟨rfl, hp⟩

theorem declaratorFollows_eq (h : Twins lex k m src src') (hp : Shared lex k m src src' pos) :
    src'.declaratorFollows lex pos = src.declaratorFollows lex pos := by
  obtain ⟨hmarks, hshared⟩ := h.skipPointerMarks_eq (h.shared_skipTrivia hp)
  rw [declaratorFollows, declaratorFollows, h.skipTrivia_eq hp, hmarks, (h.identEnd?_eq hshared.beside).1]
  cases he : src.identEnd? (src.skipPointerMarks lex (src.skipTrivia lex pos)) with
  | none => rfl
  | some e =>
    have hend : Shared lex k m src src' e := h.shared_goes hshared (Lands.word he).goes
    have hnext := h.shared_skipTrivia hend
    dsimp only
    rw [h.skipTrivia_eq hend, h.isLoneEquals_eq hnext.beside, h.byte?_eq hnext.beside]

theorem isTerminator_eq (h : Twins lex k m src src') {stops : Stops} {b : UInt8}
    (hp : Shared lex k m src src' pos) (hb : src.byte? pos = some b) :
    src'.isTerminator lex stops b pos = src.isTerminator lex stops b pos := by
  have hcolon : src'.inDoubleColon pos = src.inDoubleColon pos := by
    rw [inDoubleColon, inDoubleColon, h.byte?_succ_eq hp.beside, h.byteBefore?_eq hp.beside]
  rw [isTerminator, isTerminator, hcolon, h.isLoneEquals_eq hp.beside]
  by_cases hcomma : b = ','.toUInt8
  · rw [h.declaratorFollows_eq (h.shared_byte hp hb (by rw [hcomma]; decide))]
  · simp only [beq_eq_false_iff_ne.mpr hcomma, Bool.false_eq_true, ↓reduceIte]

theorem verdict_eq (h : Twins lex k m src src') {stops : Stops} {starts starts' : Nat → Bool}
    (hstarts : ∀ pos, Shared lex k m src src' pos → starts' pos = starts pos) {closers : List UInt8} {b : UInt8}
    (hp : Shared lex k m src src' pos) (hb : src.byte? pos = some b) :
    src'.verdict lex stops starts' closers b pos = src.verdict lex stops starts closers b pos := by
  unfold verdict
  rw [h.isTerminator_eq hp hb]
  by_cases hfeed : b = '\n'.toUInt8
  · rw [hstarts (pos + 1) (h.shared_byte hp hb (by rw [hfeed]; decide))]
  · simp only [beq_eq_false_iff_ne.mpr hfeed, Bool.false_and]

/-- **A value ends at the same place.** -/
theorem scanFrom_eq (h : Twins lex k m src src') {stops : Stops} {starts starts' : Nat → Bool}
    (hstarts : ∀ pos, Shared lex k m src src' pos → starts' pos = starts pos) {start limit codeEnd : Nat}
    {closers : List UInt8} (hp : Shared lex k m src src' pos) :
    src'.scanFrom lex stops starts' start limit closers pos codeEnd =
      src.scanFrom lex stops starts start limit closers pos codeEnd := by
  fun_induction scanFrom lex src stops starts start limit closers pos codeEnd with
  | case1 closers pos codeEnd hpiece => rw [scanFrom_eq_match, h.pieceAt?_eq hp, hpiece]
  | case2 closers pos codeEnd piece hpiece hlimit =>
    rw [scanFrom_eq_match, h.pieceAt?_eq hp, hpiece]
    simp only [hlimit, ↓reduceIte]
  | case3 closers pos codeEnd hlimit e hpiece _ ih | case4 closers pos codeEnd hlimit e hpiece _ ih
  | case5 closers pos codeEnd hlimit e hpiece _ ih =>
    rw [scanFrom_eq_match, h.pieceAt?_eq hp, hpiece]
    simp only [hlimit, ↓reduceIte]
    exact ih (h.shared_goes hp (Lands.piece hpiece (by simp)).goes)
  | case6 closers pos codeEnd hlimit b hpiece stop hv =>
    obtain ⟨hb, -⟩ := pieceAt?_eq_byte hpiece
    rw [scanFrom_eq_match, h.pieceAt?_eq hp, hpiece]
    simp only [hlimit, ↓reduceIte, h.verdict_eq hstarts hp hb, hv]
  | case7 closers pos codeEnd hlimit b hpiece closers' hv _ ih =>
    obtain ⟨hb, he⟩ := pieceAt?_eq_byte hpiece
    simp only [dite_eq_ite] at ih
    rw [scanFrom_eq_match, h.pieceAt?_eq hp, hpiece]
    simp only [hlimit, ↓reduceIte, h.verdict_eq hstarts hp hb, hv]
    exact ih (h.shared_goes hp (.byte hb he))

theorem beside_codeEnd (h : Twins lex k m src src') {stops : Stops} {starts : Nat → Bool}
    {start limit codeEnd : Nat} {closers : List UInt8} (hp : Shared lex k m src src' pos)
    (hcode : Beside k m codeEnd) :
    Beside k m (src.scanFrom lex stops starts start limit closers pos codeEnd).codeEnd := by
  fun_induction scanFrom lex src stops starts start limit closers pos codeEnd with
  | case1 => exact hcode
  | case2 => exact hcode
  | case3 closers pos codeEnd _ e hpiece _ ih | case5 closers pos codeEnd _ e hpiece _ ih =>
    exact ih (h.shared_goes hp (Lands.piece hpiece (by simp)).goes) hcode
  | case4 closers pos codeEnd _ e hpiece _ ih =>
    have he : Shared lex k m src src' e := h.shared_goes hp (Lands.piece hpiece (by simp)).goes
    exact ih he he.beside
  | case6 => exact hcode
  | case7 closers pos codeEnd _ b hpiece closers' hv _ ih =>
    obtain ⟨hb, he⟩ := pieceAt?_eq_byte hpiece
    have hnext : Shared lex k m src src' (pos + 1) := h.shared_goes hp (.byte hb he)
    refine ih hnext ?_
    split
    · exact hcode
    · exact hnext.beside

theorem codeTextFrom_of_literal {stop chunk e : Nat} (hlt : pos < stop) (he : src.literalEnd? lex pos = some e) :
    src.codeTextFrom lex stop chunk pos = src.codeTextFrom lex stop chunk e := by
  rw [codeTextFrom, dif_pos hlt]
  split
  · next e' he' =>
    rw [he] at he'
    cases he'
    rfl
  · next hnone =>
    rw [he] at hnone
    cases hnone

theorem blankedEnd?_eq (h : Twins lex k m src src') (hp : Shared lex k m src src' pos) :
    src'.blankedEnd? lex pos = src.blankedEnd? lex pos := by
  rw [blankedEnd?, blankedEnd?, h.commentEnd?_eq hp, joinsLines, joinsLines, h.byte?_eq hp.beside,
    h.byte?_succ_eq hp.beside]

/-- What is left out at a position ends at a shared one. -/
theorem shared_blankedEnd? (h : Twins lex k m src src') (hp : Shared lex k m src src' pos) {e : Nat}
    (he : src.blankedEnd? lex pos = some e) : Shared lex k m src src' e := by
  unfold blankedEnd? at he
  split at he
  · next hc =>
    cases he
    exact h.shared_goes hp (Lands.comment hc).goes
  · split at he
    · next hj =>
      cases he
      simp only [joinsLines, Bool.and_eq_true, beq_iff_eq] at hj
      exact h.shared_byte hp hj.1.2 (by decide)
    · cases he

/-- **The text of a value is the same.** The comment is left out of it, and what is copied at once lies on one
side of the comment. -/
theorem codeTextFrom_eq (h : Twins lex k m src src') {stop chunk : Nat} (hstop : Beside k m stop)
    (hsize : stop ≤ src.size) (hp : pos < stop → Shared lex k m src src' pos)
    (hside : pos ≤ k ∨ m + 2 ≤ chunk) :
    src'.codeTextFrom lex stop chunk pos = src.codeTextFrom lex stop chunk pos := by
  fun_induction codeTextFrom lex src stop chunk pos with
  | case1 chunk pos hlt e he ih =>
    have hpos := hp hlt
    have hend : Shared lex k m src src' e := h.shared_goes hpos (.enclosed (enclosedEnd?_of_literal he))
    rw [codeTextFrom_of_literal hlt ((h.literalEnd?_eq hpos).trans he)]
    refine ih (fun _ => hend) (hside.imp_left fun hk => ?_)
    rcases Nat.lt_or_eq_of_le hk with hlt | rfl
    · exact hpos.clear.enclosed_le (enclosedEnd?_of_literal he) hlt
    · rw [h.comment.literalEnd?_eq_none] at he
      cases he
  | case2 chunk pos hlt hliteral e he ih =>
    have hpos := hp hlt
    have hend := h.shared_blankedEnd? hpos he
    have hslice : src'.slice chunk pos = src.slice chunk pos := h.slice_eq hside
    rw [codeTextFrom_of_lt hlt ((h.literalEnd?_eq hpos).trans hliteral), h.blankedEnd?_eq hpos, he]
    dsimp only
    rw [hslice, ih]
    · intro hmin
      rw [Nat.min_eq_left (by omega)]
      exact hend
    · rcases hend.beside with hk | hk
      · exact Or.inl (Nat.le_trans (Nat.min_le_left _ _) hk)
      · rcases hstop with hk' | hk'
        · exact Or.inl (Nat.le_trans (Nat.min_le_right _ _) hk')
        · exact Or.inr (Nat.le_min.mpr ⟨hk, hk'⟩)
  | case3 chunk pos hlt hliteral hblank ih =>
    have hpos := hp hlt
    have hnone : src.enclosedEnd? lex pos = none := by
      unfold blankedEnd? at hblank
      split at hblank
      · cases hblank
      · next hc => rw [enclosedEnd?, hc, hliteral]
    rw [codeTextFrom_of_lt hlt ((h.literalEnd?_eq hpos).trans hliteral), h.blankedEnd?_eq hpos, hblank]
    obtain ⟨b, hb⟩ := Option.isSome_iff_exists.mp (byte?_isSome_iff.mpr (Nat.lt_of_lt_of_le hlt hsize))
    refine ih (fun _ => h.shared_goes hpos (.byte hb hnone)) (hside.imp_left fun hk => ?_)
    refine Nat.lt_of_le_of_ne hk ?_
    rintro rfl
    rw [enclosedEnd?, h.comment.commentEnd?_eq h.slash] at hnone
    cases hnone
  | case4 chunk pos hlt =>
    rw [codeTextFrom_of_le (Nat.le_of_not_lt hlt)]
    exact slice_congr h.size fun i hi hi' => h.same i (by omega)

theorem codeText_eq (h : Twins lex k m src src') {stop : Nat} (hp : Shared lex k m src src' pos)
    (hstop : Beside k m stop) (hsize : stop ≤ src.size) : src'.codeText lex pos stop = src.codeText lex pos stop :=
  h.codeTextFrom_eq hstop hsize (fun _ => hp) hp.beside

/-! ## Places -/

theorem startsFrom_eq {bytes bytes' : List UInt8}
    (h : List.Forall₂ (fun b b' => (b' == '\n'.toUInt8) = (b == '\n'.toUInt8)) bytes bytes') (pos : Nat) :
    LineIndex.startsFrom pos bytes' = LineIndex.startsFrom pos bytes := by
  induction h generalizing pos with
  | nil => rfl
  | cons hb _ ih => rw [LineIndex.startsFrom, LineIndex.startsFrom, hb, ih]

/-- Every position has the same place. -/
theorem lineIndex_eq (h : Twins lex k m src src') : LineIndex.ofSource src' = LineIndex.ofSource src := by
  rw [LineIndex.ofSource, LineIndex.ofSource, startsFrom_eq]
  refine List.forall₂_iff_get.mpr ⟨h.size.symm, fun i hi hi' => ?_⟩
  have hfeed := h.feed_eq i
  rw [byte?, byte?, Array.getElem?_eq_getElem hi, Array.getElem?_eq_getElem hi'] at hfeed
  exact hfeed

end Twins

end Source
end VarCensus
