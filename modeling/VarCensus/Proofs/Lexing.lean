import Mathlib.Logic.Relation
import VarCensus.Source.Group
import VarCensus.Source.ValueScan

/-!
# Where scans can come to stand

The scanning functions read a source from many places, and each of them moves on in a way of its own. What
they have in common is said here once. `Goes` are the positions that come after a position when comments,
literals and directives are stepped over whole and everything else byte by byte. `Edge` holds of a position
that no word runs across. `Lands` puts the two together: a move along `Goes` that ends at an edge if it
started at one.

`Lands` is reflexive and transitive, so there is one lemma for each scanning function, and the lemmas compose
the way the functions call each other. Nothing here depends on what is being looked for.
-/

namespace VarCensus

/-- A byte that opens neither a comment nor a literal, in any of the lexicons. -/
def isPlain (b : UInt8) : Bool :=
  b != '#'.toUInt8 && b != '/'.toUInt8 && b != '"'.toUInt8 && b != '\''.toUInt8

theorem isPlain_of_isIdentByte {b : UInt8} (h : isIdentByte b = true) : isPlain b = true := by
  cases hp : isPlain b with
  | true => rfl
  | false =>
    simp only [isPlain, Bool.and_eq_false_iff, bne_eq_false_iff_eq] at hp
    rcases hp with ((rfl | rfl) | rfl) | rfl <;> exact absurd h (by decide)

theorem isPlain_of_isAsciiBlank {b : UInt8} (h : isAsciiBlank b = true) :
    isPlain b = true ∧ isIdentByte b = false := by
  simp only [isAsciiBlank, Bool.or_eq_true, beq_iff_eq] at h
  rcases h with (((rfl | rfl) | rfl) | rfl) | rfl <;> decide

theorem isAsciiBlank_of_isInlineSpace {b : UInt8} (h : isInlineSpace b = true) : isAsciiBlank b = true := by
  simp only [isInlineSpace, Bool.or_eq_true, beq_iff_eq] at h
  rcases h with ((rfl | rfl) | rfl) | rfl <;> decide

theorem closerOf?_cases {b c : UInt8} (h : closerOf? b = some c) :
    b = '('.toUInt8 ∨ b = '['.toUInt8 ∨ b = '\x7b'.toUInt8 := by
  unfold closerOf? at h
  split at h
  · next hb => exact Or.inl (beq_iff_eq.mp hb)
  · split at h
    · next hb => exact Or.inr (Or.inl (beq_iff_eq.mp hb))
    · split at h
      · next hb => exact Or.inr (Or.inr (beq_iff_eq.mp hb))
      · cases h

theorem isCloser_cases {b : UInt8} (h : isCloser b = true) :
    b = ')'.toUInt8 ∨ b = ']'.toUInt8 ∨ b = '\x7d'.toUInt8 := by
  simpa [isCloser, or_assoc] using h

namespace Source

variable {lex : Lexicon} {src : Source}

/-! ## Edges of words -/

/-- No word runs across a position. -/
def Edge (src : Source) (pos : Nat) : Prop :=
  ¬ ((src.byteBefore? pos).any isIdentByte = true ∧ (src.byte? pos).any isIdentByte = true)

theorem edge_zero : src.Edge 0 := by
  simp [Edge, byteBefore?]

theorem edge_of_byte {pos : Nat} {b : UInt8} (h : src.byte? pos = some b) (hb : isIdentByte b = false) :
    src.Edge pos := by
  simp [Edge, h, hb]

theorem edge_of_end {pos : Nat} (h : src.byte? pos = none) : src.Edge pos := by
  simp [Edge, h]

theorem byte?_eq_none {pos : Nat} (h : src.size ≤ pos) : src.byte? pos = none := by
  rw [byte?, Array.getElem?_eq_none_iff]
  exact h

theorem edge_size : src.Edge src.size :=
  edge_of_end (byte?_eq_none (Nat.le_refl _))

theorem edge_succ {pos : Nat} {b : UInt8} (h : src.byte? pos = some b) (hb : isIdentByte b = false) :
    src.Edge (pos + 1) := by
  simp [Edge, byteBefore?, h, hb]

/-- The byte at which a forward search stops fails its test. -/
theorem byte?_skipWhile {test : UInt8 → Bool} {pos : Nat} {b : UInt8}
    (h : src.byte? (src.skipWhile test pos) = some b) : test b = false := by
  fun_induction skipWhile src test pos with
  | case1 pos _ _ ih => exact ih h
  | case2 pos hlt ht =>
    rw [byte?, Array.getElem?_eq_getElem hlt] at h
    cases h
    simpa using ht
  | case3 pos hlt =>
    rw [byte?_eq_none (Nat.le_of_not_lt hlt)] at h
    cases h

/-- A line end is a line feed or the end of the source. -/
theorem byte?_lineEnd (src : Source) (pos : Nat) :
    src.byte? (src.lineEnd pos) = none ∨ src.byte? (src.lineEnd pos) = some '\n'.toUInt8 := by
  cases hb : src.byte? (src.lineEnd pos) with
  | none => exact Or.inl rfl
  | some b =>
    have hlt := byte?_eq_some_lt hb
    have heq : src.lineEnd pos = src.skipWhile (· != '\n'.toUInt8) pos := by
      unfold lineEnd at hlt ⊢
      omega
    rw [heq] at hb
    have := byte?_skipWhile hb
    simp only [bne_eq_false_iff_eq] at this
    exact Or.inr (by rw [this])

theorem edge_lineEnd (src : Source) (pos : Nat) : src.Edge (src.lineEnd pos) := by
  rcases src.byte?_lineEnd pos with h | h
  · exact edge_of_end h
  · exact edge_of_byte h (by decide)

/-- The start of a line is an edge, also when the line before it is the last one. -/
theorem edge_lineEnd_succ (src : Source) (pos : Nat) : src.Edge (src.lineEnd pos + 1) := by
  rcases src.byte?_lineEnd pos with h | h
  · have hle : src.size ≤ src.lineEnd pos := Array.getElem?_eq_none_iff.mp h
    exact edge_of_end (byte?_eq_none (Nat.le_succ_of_le hle))
  · exact edge_succ h (by decide)

/-- A word ends at an edge, wherever it was entered. -/
theorem edge_identEnd? {pos e : Nat} (h : src.identEnd? pos = some e) : src.Edge e := by
  unfold identEnd? at h
  split at h
  · split at h
    · cases h
      cases hc : src.byte? (src.skipWhile isIdentByte (pos + 1)) with
      | none => exact edge_of_end hc
      | some c => exact edge_of_byte hc (byte?_skipWhile hc)
    · cases h
  · cases h

theorem edge_identAt? {pos e : Nat} {name : String} (h : src.identAt? pos = some (name, e)) :
    src.Edge e := by
  obtain ⟨e', he, heq⟩ := Option.map_eq_some_iff.mp h
  cases heq
  exact edge_identEnd? he

/-- After the bytes of a pattern comes an edge if its last byte is no identifier byte. -/
theorem edge_startsWith (init : List UInt8) {b : UInt8} (hb : isIdentByte b = false) :
    ∀ {pos : Nat}, src.startsWith pos (init ++ [b]) = true → src.Edge (pos + (init ++ [b]).length) := by
  induction init with
  | nil =>
    intro pos h
    exact edge_succ (startsWith_cons h) hb
  | cons c rest ih =>
    intro pos h
    simp only [List.cons_append, startsWith, Bool.and_eq_true] at h
    have := ih h.2
    rw [List.cons_append, List.length_cons, Nat.add_comm _ 1, ← Nat.add_assoc]
    exact this

theorem startsWith_of_find? {pattern : List UInt8} {pos i : Nat}
    (h : src.find? pattern pos = some i) : src.startsWith i pattern = true := by
  fun_induction find? src pattern pos with
  | case1 pos _ hs =>
    cases h
    exact hs
  | case2 pos _ _ ih => exact ih h
  | case3 => cases h

/-! ## Comments and literals end at edges -/

theorem edge_commentEnd? {pos e : Nat} (h : src.commentEnd? lex pos = some e) : src.Edge e := by
  unfold commentEnd? at h
  split at h
  · split at h
    · cases h
      exact src.edge_lineEnd pos
    · cases h
  · split at h
    · cases h
      exact src.edge_lineEnd pos
    · split at h
      · split at h
        · next i hi =>
          cases h
          exact edge_startsWith ['*'.toUInt8] (by decide) (startsWith_of_find? hi)
        · cases h
          exact edge_size
      · cases h

theorem edge_quotedEnd {quote : UInt8} (hq : isIdentByte quote = false) (pos : Nat) :
    src.Edge (src.quotedEnd quote pos) := by
  fun_induction quotedEnd src quote pos with
  | case1 pos _ _ ih => exact ih
  | case2 pos hlt _ hb => exact edge_of_byte (Array.getElem?_eq_getElem hlt) (by rw [beq_iff_eq.mp hb]; decide)
  | case3 pos hlt _ _ hb => exact edge_succ (Array.getElem?_eq_getElem hlt) (by rw [beq_iff_eq.mp hb]; exact hq)
  | case4 pos _ _ _ _ ih => exact ih
  | case5 => exact edge_size

theorem edge_tripleQuotedEnd {quote : UInt8} (hq : isIdentByte quote = false) (pos : Nat) :
    src.Edge (src.tripleQuotedEnd quote pos) := by
  fun_induction tripleQuotedEnd src quote pos with
  | case1 pos _ _ ih => exact ih
  | case2 pos _ _ hs => exact edge_startsWith [quote, quote] hq hs
  | case3 pos _ _ _ ih => exact ih
  | case4 => exact edge_size

theorem edge_ordinaryEnd (lex : Lexicon) {quote : UInt8} (hq : isIdentByte quote = false) (pos : Nat) :
    src.Edge (src.ordinaryEnd lex quote pos) := by
  unfold ordinaryEnd
  split
  · exact edge_tripleQuotedEnd hq _
  · exact edge_quotedEnd hq _

theorem edge_rawStringEnd? {pos e : Nat} (h : src.rawStringEnd? pos = some e) : src.Edge e := by
  unfold rawStringEnd? at h
  split at h
  · cases h
  · dsimp only at h
    split at h
    · cases h
    · split at h
      · next i hi =>
        cases h
        exact edge_startsWith _ (by decide) (startsWith_of_find? hi)
      · cases h
        exact edge_size

theorem edge_literalEnd? {pos e : Nat} (h : src.literalEnd? lex pos = some e) : src.Edge e := by
  unfold literalEnd? at h
  split at h
  · cases h
  · next quote _ =>
    split at h
    · cases h
    · next hquote =>
      have hq : isIdentByte quote = false := by
        simp only [Bool.not_eq_true, Bool.and_eq_false_iff, bne_eq_false_iff_eq] at hquote
        rcases hquote with rfl | rfl <;> decide
      split at h
      · cases h
      · split at h
        · cases h
          cases hraw : src.rawStringEnd? pos with
          | none => exact edge_ordinaryEnd lex hq pos
          | some e => exact edge_rawStringEnd? hraw
        · cases h
          exact edge_ordinaryEnd lex hq pos

theorem edge_enclosedEnd? {pos e : Nat} (h : src.enclosedEnd? lex pos = some e) : src.Edge e := by
  unfold enclosedEnd? at h
  split at h
  · next hc =>
    cases h
    exact edge_commentEnd? hc
  · exact edge_literalEnd? h

/-- Nothing is enclosed from a plain byte on. -/
theorem enclosedEnd?_eq_none {pos : Nat} {b : UInt8} (h : src.byte? pos = some b) (hb : isPlain b = true) :
    src.enclosedEnd? lex pos = none := by
  simp only [isPlain, Bool.and_eq_true, bne_iff_ne, ne_eq] at hb
  obtain ⟨⟨⟨hhash, hslash⟩, hdouble⟩, hsingle⟩ := hb
  have hcomment : src.commentEnd? lex pos = none := by
    unfold commentEnd?
    cases lex.comments <;> simp [startsWith, h, hhash, hslash]
  simp [enclosedEnd?, hcomment, literalEnd?, h, hdouble, hsingle]

/-! ## Moves -/

/-- One step of a plain reading: over the comment or literal that starts here, else over one byte. -/
def lexNext (lex : Lexicon) (src : Source) (pos : Nat) : Nat :=
  (src.enclosedEnd? lex pos).getD (pos + 1)

/-- One step of a scan: a step of a plain reading, or a whole directive. -/
inductive Step (lex : Lexicon) (src : Source) : Nat → Nat → Prop
  | next {pos : Nat} (h : pos < src.size) : Step lex src pos (src.lexNext lex pos)
  | directive {pos : Nat} (h : src.startsDirective lex pos = true) : Step lex src pos (src.directiveEnd pos)

/-- A scan can come from the first position to the second. -/
def Goes (lex : Lexicon) (src : Source) (p q : Nat) : Prop :=
  Relation.ReflTransGen (Step lex src) p q

/-- A scan can come from the first position to the second, and then stands at an edge if it started at
one. -/
structure Lands (lex : Lexicon) (src : Source) (p q : Nat) : Prop where
  goes : src.Goes lex p q
  edge : src.Edge p → src.Edge q

theorem lexNext_bounds (lex : Lexicon) {pos : Nat} (h : pos < src.size) :
    pos < src.lexNext lex pos ∧ src.lexNext lex pos ≤ src.size := by
  unfold lexNext
  cases he : src.enclosedEnd? lex pos with
  | none => exact ⟨Nat.lt_succ_self pos, h⟩
  | some e => exact enclosedEnd?_bounds he

theorem Step.bounds {p q : Nat} (h : Step lex src p q) : p < q ∧ q ≤ src.size := by
  cases h with
  | next h => exact lexNext_bounds lex h
  | directive h =>
    simp only [startsDirective, Bool.and_eq_true, beq_iff_eq] at h
    exact directiveEnd_bounds h.1.2

namespace Goes

theorem refl (p : Nat) : src.Goes lex p p :=
  Relation.ReflTransGen.refl

theorem trans {p q r : Nat} (h : src.Goes lex p q) (h' : src.Goes lex q r) : src.Goes lex p r :=
  Relation.ReflTransGen.trans h h'

theorem le {p q : Nat} (h : src.Goes lex p q) : p ≤ q := by
  unfold Goes at h
  induction h with
  | refl => exact Nat.le_refl p
  | tail _ hs ih => exact Nat.le_trans ih (Nat.le_of_lt hs.bounds.1)

theorem le_size {p q : Nat} (h : src.Goes lex p q) (hp : p ≤ src.size) : q ≤ src.size := by
  unfold Goes at h
  cases h with
  | refl => exact hp
  | tail _ hs => exact hs.bounds.2

theorem byte {pos : Nat} {b : UInt8} (h : src.byte? pos = some b) (he : src.enclosedEnd? lex pos = none) :
    src.Goes lex pos (pos + 1) := by
  have hstep : Step lex src pos (src.lexNext lex pos) := .next (byte?_eq_some_lt h)
  rw [lexNext, he] at hstep
  exact Relation.ReflTransGen.single hstep

theorem plain {pos : Nat} {b : UInt8} (h : src.byte? pos = some b) (hb : isPlain b = true) :
    src.Goes lex pos (pos + 1) :=
  byte h (enclosedEnd?_eq_none h hb)

theorem enclosed {pos e : Nat} (h : src.enclosedEnd? lex pos = some e) : src.Goes lex pos e := by
  have hb := enclosedEnd?_bounds h
  have hstep : Step lex src pos (src.lexNext lex pos) := .next (Nat.lt_of_lt_of_le hb.1 hb.2)
  rw [lexNext, h] at hstep
  exact Relation.ReflTransGen.single hstep

theorem skipWhile {test : UInt8 → Bool} (ht : ∀ b, test b = true → isPlain b = true) (pos : Nat) :
    src.Goes lex pos (src.skipWhile test pos) := by
  fun_induction Source.skipWhile src test pos with
  | case1 pos hlt hb ih => exact (plain (Array.getElem?_eq_getElem hlt) (ht _ hb)).trans ih
  | case2 => exact refl _
  | case3 => exact refl _

theorem startsWith {pattern : List UInt8} (hp : pattern.all isPlain = true) :
    ∀ {pos : Nat}, src.startsWith pos pattern = true → src.Goes lex pos (pos + pattern.length) := by
  induction pattern with
  | nil =>
    intro pos _
    exact refl pos
  | cons b rest ih =>
    intro pos h
    have hb := startsWith_cons h
    simp only [Source.startsWith, List.all_cons, Bool.and_eq_true] at h hp
    have hrest := ih hp.2 h.2
    rw [List.length_cons, Nat.add_comm _ 1, ← Nat.add_assoc]
    exact (plain hb hp.1).trans hrest

end Goes

namespace Lands

theorem refl (p : Nat) : src.Lands lex p p :=
  ⟨Goes.refl p, id⟩

theorem trans {p q r : Nat} (h : src.Lands lex p q) (h' : src.Lands lex q r) : src.Lands lex p r :=
  ⟨h.goes.trans h'.goes, fun hp => h'.edge (h.edge hp)⟩

theorem le {p q : Nat} (h : src.Lands lex p q) : p ≤ q :=
  h.goes.le

/-- One byte on, past a byte of no word. -/
theorem byte {pos : Nat} {b : UInt8} (h : src.byte? pos = some b) (he : src.enclosedEnd? lex pos = none)
    (hb : isIdentByte b = false) : src.Lands lex pos (pos + 1) :=
  ⟨Goes.byte h he, fun _ => edge_succ h hb⟩

theorem plain {pos : Nat} {b : UInt8} (h : src.byte? pos = some b)
    (hb : isPlain b = true ∧ isIdentByte b = false) : src.Lands lex pos (pos + 1) :=
  byte h (enclosedEnd?_eq_none h hb.1) hb.2

theorem enclosed {pos e : Nat} (h : src.enclosedEnd? lex pos = some e) : src.Lands lex pos e :=
  ⟨Goes.enclosed h, fun _ => edge_enclosedEnd? h⟩

theorem comment {pos e : Nat} (h : src.commentEnd? lex pos = some e) : src.Lands lex pos e :=
  enclosed (by simp [enclosedEnd?, h])

/-- To the end of a word. -/
theorem word {pos e : Nat} (h : src.identEnd? pos = some e) : src.Lands lex pos e := by
  refine ⟨?_, fun _ => edge_identEnd? h⟩
  unfold identEnd? at h
  split at h
  · next b hb =>
    split at h
    · next hs =>
      cases h
      have hident : isIdentByte b = true := by simp [isIdentByte, hs]
      exact (Goes.plain hb (isPlain_of_isIdentByte hident)).trans
        (Goes.skipWhile (fun _ => isPlain_of_isIdentByte) _)
    · cases h
  · cases h

theorem wordAt {pos e : Nat} {name : String} (h : src.identAt? pos = some (name, e)) :
    src.Lands lex pos e := by
  obtain ⟨e', he, heq⟩ := Option.map_eq_some_iff.mp h
  cases heq
  exact word he

theorem inlineSpace (pos : Nat) : src.Lands lex pos (src.skipInlineSpace pos) := by
  unfold skipInlineSpace
  fun_induction Source.skipWhile src isInlineSpace pos with
  | case1 pos hlt hb ih =>
    exact (plain (Array.getElem?_eq_getElem hlt)
      (isPlain_of_isAsciiBlank (isAsciiBlank_of_isInlineSpace hb))).trans ih
  | case2 => exact refl _
  | case3 => exact refl _

/-- A plain assignment is one byte. -/
theorem equals {pos : Nat} (h : src.isLoneEquals pos = true) : src.Lands lex pos (pos + 1) := by
  simp only [isLoneEquals, Bool.and_eq_true, beq_iff_eq] at h
  exact plain h.1.1 (by decide)

end Lands

/-! ## Trivia -/

/-- A directive ends where a line does. -/
theorem edge_directiveEndFrom {pos stop : Nat} (h : src.Edge stop) :
    src.Edge (src.directiveEndFrom pos stop) := by
  fun_induction directiveEndFrom src pos stop with
  | case1 stop hs ih =>
    simp only [Bool.and_eq_true, decide_eq_true_eq] at hs
    have hle : stop + 1 ≤ src.lineEnd (stop + 1) := le_lineEnd hs.1
    rw [Nat.max_eq_right hle] at ih ⊢
    exact ih (src.edge_lineEnd _)
  | case2 => exact h

theorem Lands.directive {pos : Nat} (h : src.startsDirective lex pos = true) :
    src.Lands lex pos (src.directiveEnd pos) :=
  ⟨Relation.ReflTransGen.single (.directive h), fun _ => edge_directiveEndFrom (src.edge_lineEnd pos)⟩

theorem Lands.triviaEnd? {pos e : Nat} (h : src.triviaEnd? lex pos = some e) : src.Lands lex pos e := by
  unfold Source.triviaEnd? at h
  split at h
  · cases h
  · next b hb =>
    split at h
    · next hblank =>
      cases h
      exact plain hb (isPlain_of_isAsciiBlank hblank)
    · split at h
      · next hc =>
        cases h
        exact comment hc
      · split at h
        · next hd =>
          cases h
          exact directive hd
        · cases h

theorem Lands.trivia (pos : Nat) : src.Lands lex pos (src.skipTrivia lex pos) := by
  fun_induction skipTrivia lex src pos with
  | case1 pos e h ih => exact (triviaEnd? h).trans ih
  | case2 => exact refl _

theorem isPointerMark_iff {pos : Nat} : src.isPointerMark pos = true ↔
    ∃ b, src.byte? pos = some b ∧ (b = '*'.toUInt8 ∨ b = '&'.toUInt8) := by
  simp only [isPointerMark, Bool.or_eq_true, beq_iff_eq]
  constructor
  · rintro (h | h)
    · exact ⟨_, h, Or.inl rfl⟩
    · exact ⟨_, h, Or.inr rfl⟩
  · rintro ⟨b, h, rfl | rfl⟩
    · exact Or.inl h
    · exact Or.inr h

theorem Lands.pointerMark {pos : Nat} (h : src.isPointerMark pos = true) : src.Lands lex pos (pos + 1) := by
  obtain ⟨b, hb, rfl | rfl⟩ := isPointerMark_iff.mp h
  · exact plain hb (by decide)
  · exact plain hb (by decide)

/-! ## Groups -/

theorem Lands.groupEndFrom? {opener closer : UInt8} (hc : isIdentByte closer = false)
    {start limit depth pos e : Nat}
    (h : src.groupEndFrom? lex opener closer start limit depth pos = some e) :
    src.Goes lex pos e ∧ src.Edge e := by
  fun_induction Source.groupEndFrom? lex src opener closer start limit depth pos with
  | case1 => cases h
  | case2 _ pos _ _ e' he ih => exact ⟨(Goes.enclosed he).trans (ih h).1, (ih h).2⟩
  | case3 _ pos hlt _ hn _ ih =>
    exact ⟨(Goes.byte (Array.getElem?_eq_getElem hlt) hn).trans (ih h).1, (ih h).2⟩
  | case4 _ pos hlt _ hn _ hb =>
    cases h
    have hbyte : src.byte? pos = some closer := by
      rw [byte?, Array.getElem?_eq_getElem hlt, beq_iff_eq.mp hb]
    exact ⟨Goes.byte hbyte hn, edge_succ hbyte hc⟩
  | case5 _ pos hlt _ hn _ _ _ ih =>
    exact ⟨(Goes.byte (Array.getElem?_eq_getElem hlt) hn).trans (ih h).1, (ih h).2⟩
  | case6 _ pos hlt _ hn _ _ ih =>
    exact ⟨(Goes.byte (Array.getElem?_eq_getElem hlt) hn).trans (ih h).1, (ih h).2⟩
  | case7 => cases h

theorem Lands.group {opener closer : UInt8} (hc : isIdentByte closer = false) {limit pos e : Nat}
    (h : src.groupEnd? lex opener closer limit pos = some e) : src.Lands lex pos e := by
  unfold groupEnd? at h
  split at h
  · obtain ⟨hgoes, hedge⟩ := groupEndFrom? hc h
    exact ⟨hgoes, fun _ => hedge⟩
  · cases h

/-! ## Values -/

theorem Lands.continuation {pos e : Nat} (h : src.continuationEnd? lex pos = some e) :
    src.Lands lex pos e := by
  unfold continuationEnd? at h
  split at h
  · next hslash =>
    simp only [Bool.and_eq_true, beq_iff_eq] at hslash
    have hfirst : src.Lands lex pos (pos + 1) := plain hslash.2 (by decide)
    split at h
    · next hs =>
      cases h
      exact hfirst.trans ⟨Goes.startsWith (by decide) hs, fun _ => edge_startsWith ['\r'.toUInt8] (by decide) hs⟩
    · split at h
      · next hb =>
        cases h
        exact hfirst.trans (plain (beq_iff_eq.mp hb) (by decide))
      · cases h
  · cases h

/-- The bytes that end a value outside brackets, as far as they are asked for. -/
inductive EndsValue (lex : Lexicon) (src : Source) (stops : Stops) (pos : Nat) : UInt8 → Prop
  | newline (h : stops.newline = true) : EndsValue lex src stops pos '\n'.toUInt8
  | semicolon (h : stops.semicolon = true) : EndsValue lex src stops pos ';'.toUInt8
  /-- A colon with no other one beside it. -/
  | colon (h : stops.colon = true) (hnext : src.byte? (pos + 1) ≠ some ':'.toUInt8)
      (hbefore : src.byteBefore? pos ≠ some ':'.toUInt8) : EndsValue lex src stops pos ':'.toUInt8
  | assignment (h : stops.assignment = true) (hlone : src.isLoneEquals pos = true) :
      EndsValue lex src stops pos '='.toUInt8
  | comma (h : stops.declaratorComma = true) (hnext : src.declaratorFollows lex (pos + 1) = true) :
      EndsValue lex src stops pos ','.toUInt8

theorem isTerminator_iff {stops : Stops} {b : UInt8} {pos : Nat} :
    src.isTerminator lex stops b pos = true ↔ src.EndsValue lex stops pos b := by
  constructor
  · intro h
    unfold isTerminator at h
    split at h
    · next hb => rw [beq_iff_eq.mp hb]; exact .newline h
    · split at h
      · next hb => rw [beq_iff_eq.mp hb]; exact .semicolon h
      · split at h
        · next hb =>
          simp only [inDoubleColon, Bool.and_eq_true, Bool.not_eq_true', Bool.or_eq_false_iff,
            beq_eq_false_iff_ne] at h
          rw [beq_iff_eq.mp hb]
          exact .colon h.1 h.2.1 h.2.2
        · split at h
          · next hb =>
            rw [Bool.and_eq_true] at h
            rw [beq_iff_eq.mp hb]
            exact .assignment h.1 h.2
          · split at h
            · next hb =>
              rw [Bool.and_eq_true] at h
              rw [beq_iff_eq.mp hb]
              exact .comma h.1 h.2
            · cases h
  · intro h
    cases h with
    | newline h => exact h
    | semicolon h => exact h
    | colon h hnext hbefore =>
      have hdouble : src.inDoubleColon pos = false := by simp [inDoubleColon, hnext, hbefore]
      change (stops.colon && !src.inDoubleColon pos) = true
      rw [h, hdouble]
      rfl
    | assignment h hlone =>
      change (stops.assignment && src.isLoneEquals pos) = true
      rw [h, hlone]
      rfl
    | comma h hnext =>
      change (stops.declaratorComma && src.declaratorFollows lex (pos + 1)) = true
      rw [h, hnext]
      rfl

instance (lex : Lexicon) (src : Source) (stops : Stops) (pos : Nat) (b : UInt8) :
    Decidable (src.EndsValue lex stops pos b) :=
  decidable_of_iff _ isTerminator_iff

theorem isIdentByte_of_isTerminator {stops : Stops} {b : UInt8} {pos : Nat}
    (h : src.isTerminator lex stops b pos = true) : isIdentByte b = false := by
  cases isTerminator_iff.mp h <;> decide

/-- A byte that ends a value belongs to no word. -/
theorem isIdentByte_of_verdict {stops : Stops} {startsStatement : Nat → Bool} {closers : List UInt8}
    {b : UInt8} {pos : Nat} {stop : Stop}
    (h : src.verdict lex stops startsStatement closers b pos = .error stop) : isIdentByte b = false := by
  unfold verdict at h
  split at h
  · cases h
  · split at h
    · next hc => rcases isCloser_cases hc with rfl | rfl | rfl <;> decide
    · split at h
      · split at h
        · next hb =>
          simp only [Bool.and_eq_true, beq_iff_eq] at hb
          rw [hb.1]
          decide
        · cases h
      · split at h
        · next ht => exact isIdentByte_of_isTerminator ht
        · cases h

/-- What stands at a position where a piece of one byte is read. -/
theorem pieceAt?_eq_byte {pos : Nat} {b : UInt8} (h : src.pieceAt? lex pos = some (.byte b)) :
    src.byte? pos = some b ∧ src.enclosedEnd? lex pos = none := by
  unfold pieceAt? at h
  split at h
  · cases h
  · next c hc =>
    split at h
    · cases h
    · next hcomment =>
      split at h
      · cases h
      · next hliteral =>
        split at h
        · cases h
        · cases h
          exact ⟨hc, by simp [enclosedEnd?, hcomment, hliteral]⟩

/-- Where nothing is read, the source is at its end. -/
theorem size_le_of_pieceAt? {pos : Nat} (h : src.pieceAt? lex pos = none) : src.size ≤ pos := by
  unfold pieceAt? at h
  split at h
  · next hb => exact Array.getElem?_eq_none_iff.mp hb
  · split at h
    · cases h
    · split at h
      · cases h
      · split at h
        · cases h
        · cases h

theorem Lands.piece {pos : Nat} {piece : Piece} (h : src.pieceAt? lex pos = some piece)
    (hb : ∀ b, piece ≠ .byte b) : src.Lands lex pos (piece.stop pos) := by
  unfold pieceAt? at h
  split at h
  · cases h
  · split at h
    · next hc =>
      cases h
      exact comment hc
    · next hc =>
      split at h
      · next hl =>
        cases h
        exact enclosed (by simp only [enclosedEnd?, hc]; exact hl)
      · split at h
        · next hj =>
          cases h
          exact continuation hj
        · cases h
          exact absurd rfl (hb _)

/-- **A scan stops between words, outside comments and literals.** -/
theorem scanFrom_stop {stops : Stops} {startsStatement : Nat → Bool} {start limit : Nat}
    {closers : List UInt8} {pos codeEnd e : Nat}
    (h : (src.scanFrom lex stops startsStatement start limit closers pos codeEnd).stop.pos? = some e) :
    src.Goes lex pos e ∧
      ∃ b, src.byte? e = some b ∧ src.enclosedEnd? lex e = none ∧ isIdentByte b = false := by
  fun_induction scanFrom lex src stops startsStatement start limit closers pos codeEnd with
  | case1 => cases h
  | case2 => cases h
  | case3 closers pos codeEnd _ e hp _ ih =>
    exact ⟨(Lands.piece hp (by simp)).goes.trans (ih h).1, (ih h).2⟩
  | case4 closers pos codeEnd _ e hp _ ih =>
    exact ⟨(Lands.piece hp (by simp)).goes.trans (ih h).1, (ih h).2⟩
  | case5 closers pos codeEnd _ e hp _ ih =>
    exact ⟨(Lands.piece hp (by simp)).goes.trans (ih h).1, (ih h).2⟩
  | case6 closers pos codeEnd _ b hp stop hv =>
    -- whichever way the byte ends the scan, the stop is at the byte
    obtain ⟨hbyte, hnone⟩ := pieceAt?_eq_byte hp
    have hpos : pos = e := by
      rcases verdict_stop hv with rfl | rfl <;> exact Option.some.inj h
    subst hpos
    exact ⟨Goes.refl pos, b, hbyte, hnone, isIdentByte_of_verdict hv⟩
  | case7 closers pos codeEnd _ b hp _ _ _ ih =>
    obtain ⟨hbyte, hnone⟩ := pieceAt?_eq_byte hp
    exact ⟨(Goes.byte hbyte hnone).trans (ih h).1, (ih h).2⟩

/-- To the stop of a scan, and past it. -/
theorem Lands.scan {stops : Stops} {limit : Nat} {startsStatement : Nat → Bool} {start e : Nat}
    (h : (src.scanValueUntil lex stops limit startsStatement start).stop.pos? = some e) :
    src.Lands lex start e ∧ src.Lands lex start (e + 1) := by
  obtain ⟨hgoes, b, hbyte, hnone, hb⟩ := scanFrom_stop h
  have hlands : src.Lands lex start e := ⟨hgoes, fun _ => edge_of_byte hbyte hb⟩
  exact ⟨hlands, hlands.trans (byte hbyte hnone hb)⟩

/-- A scan that finds no stop goes to the end. -/
theorem scanFrom_endOfText {stops : Stops} {startsStatement : Nat → Bool} {start limit : Nat}
    {closers : List UInt8} {pos codeEnd : Nat} (hle : pos ≤ src.size)
    (h : (src.scanFrom lex stops startsStatement start limit closers pos codeEnd).stop = .endOfText) :
    src.Goes lex pos src.size := by
  fun_induction scanFrom lex src stops startsStatement start limit closers pos codeEnd with
  | case1 closers pos codeEnd hnone =>
    rw [Nat.le_antisymm hle (size_le_of_pieceAt? hnone)]
    exact Goes.refl _
  | case2 => cases h
  | case3 closers pos codeEnd _ e hp _ ih => exact (Lands.piece hp (by simp)).goes.trans (ih (pieceAt?_bounds hp).2 h)
  | case4 closers pos codeEnd _ e hp _ ih => exact (Lands.piece hp (by simp)).goes.trans (ih (pieceAt?_bounds hp).2 h)
  | case5 closers pos codeEnd _ e hp _ ih => exact (Lands.piece hp (by simp)).goes.trans (ih (pieceAt?_bounds hp).2 h)
  | case6 closers pos codeEnd _ b hp stop hv => rcases verdict_stop hv with rfl | rfl <;> cases h
  | case7 closers pos codeEnd _ b hp _ _ _ ih =>
    obtain ⟨hbyte, hnone⟩ := pieceAt?_eq_byte hp
    exact (Goes.byte hbyte hnone).trans (ih (byte?_eq_some_lt hbyte) h)

theorem Lands.scanToEnd {stops : Stops} {limit : Nat} {startsStatement : Nat → Bool} {start : Nat}
    (hle : start ≤ src.size)
    (h : (src.scanValueUntil lex stops limit startsStatement start).stop = .endOfText) :
    src.Lands lex start src.size :=
  ⟨scanFrom_endOfText hle h, fun _ => edge_size⟩

/-- A bound as long as the source is never reached. -/
theorem scanFrom_stop_ne_limit {stops : Stops} {startsStatement : Nat → Bool} {start limit : Nat}
    {closers : List UInt8} {pos codeEnd : Nat} (h : src.size ≤ limit) :
    (src.scanFrom lex stops startsStatement start limit closers pos codeEnd).stop ≠ .limit := by
  fun_induction scanFrom lex src stops startsStatement start limit closers pos codeEnd with
  | case1 => simp
  | case2 closers pos codeEnd piece hp hl =>
    have := pieceAt?_bounds hp
    omega
  | case3 _ _ _ _ _ _ _ ih => exact ih
  | case4 _ _ _ _ _ _ _ ih => exact ih
  | case5 _ _ _ _ _ _ _ ih => exact ih
  | case6 closers pos codeEnd _ b hp stop hv => rcases verdict_stop hv with rfl | rfl <;> simp
  | case7 _ _ _ _ _ _ _ _ _ ih => exact ih

end Source
end VarCensus
