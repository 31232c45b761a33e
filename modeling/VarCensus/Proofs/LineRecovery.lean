import VarCensus.Proofs.PrintedAssignments

/-!
# No assignment at the start of a line is lost

A bracket that is never closed, a quote that is never closed or a statement that makes no sense spoils the line it
stands on, and perhaps the lines behind it, but never a line that evidently starts an assignment. The reason is the
line feed in front of that line. In a text whose literals stay on their lines no piece reaches across a line feed,
and at this one every scan of a statement stops: outside brackets since a statement ends there, inside brackets
since a declaration comes next (`scan_stops`). So the search, which goes from stop to stop, comes to stand at the
line (`recordsFrom_reaches`), whatever it went through before.
-/

namespace VarCensus
namespace Source

variable {src : Source} {pos feed : Nat}

/-! ## Searches stop at a line feed -/

theorem skipWhile_le_of_byte {test : UInt8 → Bool} {b : UInt8} (hb : src.byte? feed = some b) (ht : test b = false)
    (hle : pos ≤ feed) : src.skipWhile test pos ≤ feed := by
  fun_induction skipWhile src test pos with
  | case1 pos hlt htest ih =>
    refine ih (Nat.lt_of_le_of_ne hle ?_)
    rintro rfl
    rw [byte?, Array.getElem?_eq_getElem hlt] at hb
    cases hb
    rw [ht] at htest
    cases htest
  | case2 => exact hle
  | case3 => exact hle

theorem skipInlineSpace_le (hb : src.byte? feed = some '\n'.toUInt8) (hle : pos ≤ feed) :
    src.skipInlineSpace pos ≤ feed :=
  skipWhile_le_of_byte hb (by decide) hle

theorem lineEnd_le_feed (hb : src.byte? feed = some '\n'.toUInt8) (hle : pos ≤ feed) : src.lineEnd pos ≤ feed :=
  Nat.le_trans (Nat.min_le_left _ _) (skipWhile_le_of_byte hb (by decide) hle)

/-- A byte other than a line feed stands in front of the next line feed. -/
theorem lt_feed {b : UInt8} (hb : src.byte? feed = some '\n'.toUInt8) (h : src.byte? pos = some b)
    (hne : b ≠ '\n'.toUInt8) (hle : pos ≤ feed) : pos < feed := by
  refine Nat.lt_of_le_of_ne hle ?_
  rintro rfl
  rw [h] at hb
  exact hne (Option.some.inj hb)

theorem identAt?_le_feed {name : String} {e : Nat} (hb : src.byte? feed = some '\n'.toUInt8)
    (h : src.identAt? pos = some (name, e)) (hle : pos ≤ feed) : e ≤ feed := by
  have hend := identEnd?_of_identAt? h
  unfold identEnd? at hend
  split at hend
  · next b hbyte =>
    split at hend
    · next hstart =>
      cases hend
      have hlt := lt_feed hb hbyte (by rintro rfl; exact absurd hstart (by decide)) hle
      exact skipWhile_le_of_byte hb (by decide) hlt
    · cases hend
  · cases hend

/-! ## Pieces stay on their lines -/

/-- No literal goes on from line to line: no backslash hides a line feed, and none opens with three quotes. -/
structure SingleLined (src : Source) : Prop where
  slash : ∀ pos, src.byte? pos ≠ some '\\'.toUInt8
  triple : ∀ pos quote, isQuote quote = true → src.startsWith pos [quote, quote, quote] = false

theorem quotedEnd_le_feed {quote : UInt8} (hs : src.SingleLined) (hb : src.byte? feed = some '\n'.toUInt8)
    (hle : pos ≤ feed) : src.quotedEnd quote pos ≤ feed := by
  fun_induction quotedEnd src quote pos with
  | case1 pos hlt hslash =>
    refine absurd ?_ (hs.slash pos)
    rw [byte?, Array.getElem?_eq_getElem hlt, beq_iff_eq.mp hslash]
  | case2 => exact hle
  | case3 pos hlt _ hfeed _ => exact lt_feed hb (Array.getElem?_eq_getElem hlt) (by simpa using hfeed) hle
  | case4 pos hlt _ hfeed _ ih => exact ih (lt_feed hb (Array.getElem?_eq_getElem hlt) (by simpa using hfeed) hle)
  | case5 pos hlt => exact absurd (Nat.lt_of_le_of_lt hle (byte?_eq_some_lt hb)) hlt

theorem literalEnd?_le_feed {e : Nat} (hs : src.SingleLined) (hb : src.byte? feed = some '\n'.toUInt8)
    (h : src.literalEnd? .python pos = some e) (hle : pos ≤ feed) : e ≤ feed := by
  unfold literalEnd? at h
  split at h
  · cases h
  · next quote hbyte =>
    split at h
    · cases h
    · next hquote =>
      have hq : isQuote quote = true := by
        simp only [Bool.not_eq_true, Bool.and_eq_false_iff, bne_eq_false_iff_eq] at hquote
        simpa [isQuote] using hquote
      have hlt := lt_feed hb hbyte (by rintro rfl; exact absurd hq (by decide)) hle
      have hordinary : src.ordinaryEnd .python quote pos ≤ feed := by
        rw [ordinaryEnd, hs.triple pos quote hq, Bool.and_false, if_neg (by decide)]
        exact quotedEnd_le_feed hs hb hlt
      split at h
      · cases h
      · split at h
        · next hraw => simp [opensRaw, Lexicon.python] at hraw
        · cases h
          exact hordinary

theorem commentEnd?_le_feed {e : Nat} (hb : src.byte? feed = some '\n'.toUInt8)
    (h : src.commentEnd? .python pos = some e) (hle : pos ≤ feed) : e ≤ feed := by
  unfold commentEnd? at h
  simp only [Lexicon.python] at h
  split at h
  · cases h
    exact lineEnd_le_feed hb hle
  · cases h

/-- **No piece reaches across a line feed**, itself apart. -/
theorem stop_le_feed {piece : Piece} (hs : src.SingleLined) (hb : src.byte? feed = some '\n'.toUInt8)
    (h : src.pieceAt? .python pos = some piece) (hle : pos ≤ feed) (hpiece : ∀ b, piece ≠ .byte b) :
    piece.stop pos ≤ feed := by
  unfold pieceAt? at h
  split at h
  · cases h
  · split at h
    · next e he =>
      cases h
      exact commentEnd?_le_feed hb he hle
    · split at h
      · next e he =>
        cases h
        exact literalEnd?_le_feed hs hb he hle
      · split at h
        · next e he =>
          cases h
          unfold continuationEnd? at he
          split at he
          · next hslash =>
            simp only [Bool.and_eq_true, beq_iff_eq] at hslash
            exact absurd hslash.2 (hs.slash pos)
          · cases he
        · cases h
          exact absurd rfl (hpiece _)

theorem verdict_of_statement {lex : Lexicon} {stops : Stops} {startsStatement : Nat → Bool} {c : UInt8}
    {closers : List UInt8} (h : startsStatement (pos + 1) = true) :
    src.verdict lex stops startsStatement (c :: closers) '\n'.toUInt8 pos = .error (.unbalanced pos) := by
  have hopener : closerOf? '\n'.toUInt8 = none := rfl
  have hcloser : isCloser '\n'.toUInt8 = false := rfl
  rw [verdict.eq_def, hopener]
  simp [hcloser, h]

/-- **A scan stops at or before a line feed** that ends statements and has a statement behind it. -/
theorem scanFrom_stops {stops : Stops} {startsStatement : Nat → Bool} {start limit : Nat} {closers : List UInt8}
    {codeEnd : Nat} (hs : src.SingleLined) (hb : src.byte? feed = some '\n'.toUInt8) (hnewline : stops.newline = true)
    (hstarts : startsStatement (feed + 1) = true) (hl : src.size ≤ limit) (hle : pos ≤ feed) :
    ∃ e ≤ feed,
      (src.scanFrom .python stops startsStatement start limit closers pos codeEnd).stop.pos? = some e := by
  have hsize := byte?_eq_some_lt hb
  fun_induction scanFrom .python src stops startsStatement start limit closers pos codeEnd with
  | case1 closers pos codeEnd hnone => exact absurd (size_le_of_pieceAt? hnone) (by omega)
  | case2 closers pos codeEnd piece hp hlimit => omega
  | case3 closers pos codeEnd _ e hp _ ih => exact ih (stop_le_feed hs hb hp hle (by simp))
  | case4 closers pos codeEnd _ e hp _ ih => exact ih (stop_le_feed hs hb hp hle (by simp))
  | case5 closers pos codeEnd _ e hp _ ih => exact ih (stop_le_feed hs hb hp hle (by simp))
  | case6 closers pos codeEnd _ b hp stop hv => rcases verdict_stop hv with rfl | rfl <;> exact ⟨pos, hle, rfl⟩
  | case7 closers pos codeEnd _ b hp closers' hv _ ih =>
    -- at the line feed itself the scan would have stopped
    refine ih (Nat.lt_of_le_of_ne hle ?_)
    rintro rfl
    obtain ⟨hbyte, -⟩ := pieceAt?_eq_byte hp
    obtain rfl : '\n'.toUInt8 = b := Option.some.inj (hb.symm.trans hbyte)
    cases closers with
    | nil =>
      have hterminator : src.isTerminator .python stops '\n'.toUInt8 pos = true := hnewline
      rw [verdict_of_terminator rfl rfl hterminator] at hv
      cases hv
    | cons c closers =>
      rw [verdict_of_statement hstarts] at hv
      cases hv

/-! ## A value that starts with a character holds it

Where a value ends is found byte by byte, but it is a place between characters: bytes outside ASCII belong to the
value, and what stops it is ASCII. So the text of the value is no slice that cuts a character in two. -/

section Text

variable {text : String} {lex : Lexicon} {stops : Stops} {startsStatement : Nat → Bool} {start limit : Nat}
  {closers : List UInt8} {codeEnd : Nat}

theorem isValid_of_commentEnd? {e : Nat} (h : (ofString text).commentEnd? lex pos = some e) :
    String.Pos.Raw.IsValid text ⟨pos⟩ := by
  unfold commentEnd? at h
  split at h
  · split at h
    · next hs => exact isValid_of_ascii (startsWith_cons hs) (by decide)
    · cases h
  · split at h
    · next hs => exact isValid_of_ascii (startsWith_cons hs) (by decide)
    · split at h
      · next hs => exact isValid_of_ascii (startsWith_cons hs) (by decide)
      · cases h

theorem isValid_of_pieceAt? {piece : Piece} (h : (ofString text).pieceAt? lex pos = some piece)
    (hpiece : ∀ b, piece ≠ .byte b) (hliteral : ∀ e, piece ≠ .literal e) :
    String.Pos.Raw.IsValid text ⟨pos⟩ := by
  unfold pieceAt? at h
  split at h
  · cases h
  · split at h
    · next hcomment => exact isValid_of_commentEnd? hcomment
    · split at h
      · cases h
        exact absurd rfl (hliteral _)
      · split at h
        · next e he =>
          unfold continuationEnd? at he
          split at he
          · next hslash =>
            simp only [Bool.and_eq_true, beq_iff_eq] at hslash
            exact isValid_of_ascii hslash.2 (by decide)
          · cases he
        · cases h
          exact absurd rfl (hpiece _)

theorem isValid_of_blankedEnd? {e : Nat} (h : (ofString text).blankedEnd? lex pos = some e) :
    String.Pos.Raw.IsValid text ⟨pos⟩ := by
  unfold blankedEnd? at h
  split at h
  · next hcomment => exact isValid_of_commentEnd? hcomment
  · split at h
    · next hjoins =>
      simp only [joinsLines, Bool.and_eq_true, beq_iff_eq] at hjoins
      exact isValid_of_ascii hjoins.1.2 (by decide)
    · cases h

/-- The scan of a value keeps the end of the value between characters, or at the place that it has come to. -/
theorem isValid_codeEnd
    (hstop : ((ofString text).scanFrom lex stops startsStatement start limit closers pos codeEnd).stop ≠ .limit)
    (hle : pos ≤ (ofString text).size) (h : String.Pos.Raw.IsValid text ⟨codeEnd⟩ ∨ codeEnd = pos) :
    String.Pos.Raw.IsValid text
      ⟨((ofString text).scanFrom lex stops startsStatement start limit closers pos codeEnd).codeEnd⟩ := by
  have hhere {pos codeEnd : Nat} (h : String.Pos.Raw.IsValid text ⟨codeEnd⟩ ∨ codeEnd = pos)
      (hpos : String.Pos.Raw.IsValid text ⟨pos⟩) : String.Pos.Raw.IsValid text ⟨codeEnd⟩ := by
    rcases h with h | rfl
    · exact h
    · exact hpos
  fun_induction scanFrom lex (ofString text) stops startsStatement start limit closers pos codeEnd with
  | case1 closers pos codeEnd hnone =>
    have hpos : pos = text.utf8ByteSize := Nat.le_antisymm hle (size_le_of_pieceAt? hnone)
    exact hhere h (hpos ▸ String.Pos.Raw.isValid_rawEndPos)
  | case2 => exact absurd rfl hstop
  | case3 closers pos codeEnd _ e hp _ ih =>
    exact ih hstop (pieceAt?_bounds hp).2 (Or.inl (hhere h (isValid_of_pieceAt? hp (by simp) (by simp))))
  | case4 closers pos codeEnd _ e hp _ ih => exact ih hstop (pieceAt?_bounds hp).2 (Or.inr rfl)
  | case5 closers pos codeEnd _ e hp _ ih =>
    exact ih hstop (pieceAt?_bounds hp).2 (Or.inl (hhere h (isValid_of_pieceAt? hp (by simp) (by simp))))
  | case6 closers pos codeEnd _ b hp stop hv =>
    obtain ⟨hbyte, -⟩ := pieceAt?_eq_byte hp
    exact hhere h (isValid_of_ascii hbyte (ascii_of_isIdentByte_eq_false (isIdentByte_of_verdict hv)))
  | case7 closers pos codeEnd _ b hp closers' hv _ ih =>
    obtain ⟨hbyte, -⟩ := pieceAt?_eq_byte hp
    refine ih hstop (byte?_eq_some_lt hbyte) ?_
    split
    · next hblank =>
      have hident := (isPlain_of_isAsciiBlank hblank).2
      exact Or.inl (hhere h (isValid_of_ascii hbyte (ascii_of_isIdentByte_eq_false hident)))
    · exact Or.inr rfl

theorem le_codeEnd {n : Nat} (hend : n ≤ codeEnd) (hpos : n ≤ pos) :
    n ≤ (src.scanFrom lex stops startsStatement start limit closers pos codeEnd).codeEnd := by
  fun_induction scanFrom lex src stops startsStatement start limit closers pos codeEnd with
  | case1 => exact hend
  | case2 => exact hend
  | case3 closers pos codeEnd _ e hp _ ih => exact ih hend (Nat.le_trans hpos (Nat.le_of_lt (pieceAt?_bounds hp).1))
  | case4 closers pos codeEnd _ e hp _ ih =>
    have hle := Nat.le_trans hpos (Nat.le_of_lt (pieceAt?_bounds hp).1)
    exact ih hle hle
  | case5 closers pos codeEnd _ e hp _ ih => exact ih hend (Nat.le_trans hpos (Nat.le_of_lt (pieceAt?_bounds hp).1))
  | case6 => exact hend
  | case7 closers pos codeEnd _ b hp closers' hv _ ih =>
    refine ih ?_ (Nat.le_succ_of_le hpos)
    split
    · exact hend
    · exact Nat.le_succ_of_le hpos

/-- The text of a value that does not start with a comment starts with a slice of the source. -/
theorem codeTextFrom_front {stop chunk : Nat} (hstop : String.Pos.Raw.IsValid text ⟨stop⟩) (hlt : chunk < stop)
    (hfirst : (ofString text).blankedEnd? lex chunk = none) (hle : chunk ≤ pos) :
    ∃ p tail, (ofString text).codeTextFrom lex stop chunk pos = (ofString text).slice chunk p ++ tail ∧
      chunk < p ∧ String.Pos.Raw.IsValid text ⟨p⟩ := by
  fun_induction codeTextFrom lex (ofString text) stop chunk pos with
  | case1 chunk pos _ e he ih => exact ih hlt hfirst (Nat.le_trans hle (Nat.le_of_lt (literalEnd?_bounds he).1))
  | case2 chunk pos _ _ e he ih =>
    refine ⟨pos, _, String.append_assoc, Nat.lt_of_le_of_ne hle ?_, isValid_of_blankedEnd? he⟩
    rintro rfl
    rw [hfirst] at he
    cases he
  | case3 chunk pos _ _ _ ih => exact ih hlt hfirst (Nat.le_succ_of_le hle)
  | case4 chunk pos _ =>
    exact ⟨stop, "", by rw [Nat.max_eq_left (Nat.le_of_lt hlt), String.append_empty], hlt, hstop⟩

end Text

end Source

namespace Python

open Source Written

variable {src : Source} {index : LineIndex} {limit feed pos : Nat} {found : Finding}

/-! ## The search comes to every line -/

/-- A line feed with a declaration behind it, in a text whose pieces stay on their lines and that is no longer than
the bound on scans. -/
structure Recovers (src : Source) (limit feed : Nat) : Prop where
  lined : src.SingleLined
  isFeed : src.byte? feed = some '\n'.toUInt8
  starts : ∀ indent, startsDeclaration src indent (feed + 1) = true
  bound : src.size ≤ limit

theorem scan_stops (h : Recovers src limit feed) {stops : Stops} (hnewline : stops.newline = true) (statement : Nat)
    (hle : pos ≤ feed) : ∃ e ≤ feed, (scan src limit statement stops pos).stop.pos? = some e :=
  scanFrom_stops h.lined h.isFeed hnewline (h.starts _) h.bound hle

theorem next_le_of_matchValue? (h : Recovers src limit feed) {first : Target} {more : List Target}
    (hle : pos ≤ feed) (hm : matchValue? src index limit first more pos = some found) : found.next ≤ feed + 1 := by
  have hstart := skipInlineSpace_le h.isFeed hle
  obtain ⟨e, he, hstop⟩ := scan_stops h (rfl : statementStops.newline = true) first.pos hstart
  unfold matchValue? at hm
  simp only at hm
  split at hm
  · next hlimit => simp [hlimit, Stop.pos?] at hstop
  · next e' hterminator =>
    rw [hterminator] at hstop
    cases hstop
    split at hm
    · cases hm
    · cases hm
      exact Nat.succ_le_succ he
  · next e' hunbalanced =>
    rw [hunbalanced] at hstop
    cases hstop
    split at hm
    · cases hm
    · cases hm
      exact Nat.le_succ_of_le he
  · next hend => simp [hend, Stop.pos?] at hstop

theorem next_le_of_matchAnnotated? (h : Recovers src limit feed) {target : Target} (hle : pos ≤ feed)
    (hm : matchAnnotated? src index limit target pos = some found) : found.next ≤ feed + 1 := by
  obtain ⟨e, he, hstop⟩ := scan_stops h (rfl : annotationStops.newline = true) target.pos hle
  unfold matchAnnotated? at hm
  simp only at hm
  split at hm
  · next hlimit => simp [hlimit, Stop.pos?] at hstop
  · cases hm
  · next e' hterminator =>
    rw [hterminator] at hstop
    cases hstop
    split at hm
    · cases hm
    · split at hm
      · next hequals =>
        exact next_le_of_matchValue? h (lt_feed h.isFeed (beq_iff_eq.mp hequals) (by decide) he) hm
      · cases hm
        exact Nat.succ_le_succ he
  · next hend => simp [hend, Stop.pos?] at hstop

theorem lt_feed_of_isLoneEquals (hb : src.byte? feed = some '\n'.toUInt8) (h : src.isLoneEquals pos = true)
    (hle : pos ≤ feed) : pos < feed :=
  lt_feed hb (byte?_of_isLoneEquals h) (by decide) hle

theorem chainedTargets_le (hb : src.byte? feed = some '\n'.toUInt8) (hle : pos ≤ feed) :
    (chainedTargets src pos).2 ≤ feed := by
  fun_induction chainedTargets src pos with
  | case1 => exact hle
  | case2 => exact hle
  | case3 pos name e hid eq hcond targets stop hrec ih =>
    simp only [Bool.or_eq_true, Bool.not_eq_true', not_or, Bool.not_eq_true, Bool.not_eq_false] at hcond
    have heq : eq ≤ feed := skipInlineSpace_le hb (identAt?_le_feed hb hid hle)
    have hlt := lt_feed_of_isLoneEquals hb hcond.2 heq
    rw [hrec] at ih
    exact ih (skipInlineSpace_le hb hlt)

theorem next_le_of_matchStatement? (h : Recovers src limit feed) (hle : pos ≤ feed)
    (hm : matchStatement? src index limit pos = some found) : found.next ≤ feed + 1 := by
  unfold matchStatement? at hm
  split at hm
  · cases hm
  · next name e hid =>
    have hafter := skipInlineSpace_le h.isFeed (identAt?_le_feed h.isFeed hid hle)
    simp only at hm
    split at hm
    · cases hm
    · split at hm
      · next hcolon =>
        simp only [isAnnotationColon, Bool.and_eq_true, beq_iff_eq] at hcolon
        exact next_le_of_matchAnnotated? h (lt_feed h.isFeed hcolon.1 (by decide) hafter) hm
      · split at hm
        · next hequals =>
          have hlt := lt_feed_of_isLoneEquals h.isFeed hequals hafter
          exact next_le_of_matchValue? h (chainedTargets_le h.isFeed (skipInlineSpace_le h.isFeed hlt)) hm
        · cases hm

theorem skipStatement_le (h : Recovers src limit feed) (hle : pos ≤ feed) :
    skipStatement src limit pos ≤ feed + 1 := by
  obtain ⟨e, he, hstop⟩ := scan_stops h (rfl : skipStops.newline = true) pos hle
  unfold skipStatement
  split
  · next e' hterminator =>
    rw [hterminator] at hstop
    cases hstop
    exact Nat.succ_le_succ he
  · next e' hunbalanced =>
    rw [hunbalanced] at hstop
    cases hstop
    exact Nat.succ_le_succ he
  · next hend => simp [hend, Stop.pos?] at hstop
  · next hlimit => simp [hlimit, Stop.pos?] at hstop

/-- One round of the search in front of the line goes forward, and not beyond the start of the line. -/
theorem recordsFrom_step (h : Recovers src limit feed) (hle : pos ≤ feed) :
    ∃ records next, pos < next ∧ next ≤ feed + 1 ∧
      recordsFrom src index limit pos = records ++ recordsFrom src index limit next := by
  have hstart := skipInlineSpace_le h.isFeed hle
  have hforward := src.le_skipInlineSpace pos
  rw [recordsFrom]
  split
  · next hnone =>
    have hsize : src.size ≤ src.skipInlineSpace pos := Array.getElem?_eq_none_iff.mp hnone
    have hlt := byte?_eq_some_lt h.isFeed
    omega
  · next b hb =>
    split
    · exact ⟨[], _, Nat.lt_succ_of_le hforward, Nat.succ_le_succ hstart, rfl⟩
    · split
      · next e he =>
        have hlt := (commentEnd?_bounds he).1
        have hstop := commentEnd?_le_feed h.isFeed he hstart
        exact ⟨[], e, Nat.lt_of_le_of_lt hforward hlt, Nat.le_succ_of_le hstop, rfl⟩
      · split
        · next found hm =>
          have hlt := lt_next_of_matchStatement? hm
          exact ⟨found.records, found.next, Nat.lt_of_le_of_lt hforward hlt,
            next_le_of_matchStatement? h hstart hm, rfl⟩
        · have hlt := lt_skipStatement limit (byte?_eq_some_lt hb)
          exact ⟨[], _, Nat.lt_of_le_of_lt hforward hlt, skipStatement_le h hstart, rfl⟩

/-- **The search comes to the line.** From any position up to its start the search finds something, and then all
that is found from the line on. -/
theorem recordsFrom_reaches (index : LineIndex) (h : Recovers src limit feed) (hle : pos ≤ feed + 1) :
    ∃ front, recordsFrom src index limit pos = front ++ recordsFrom src index limit (feed + 1) := by
  -- on the distance to the line, which every round makes smaller
  induction hdistance : feed + 1 - pos using Nat.strong_induction_on generalizing pos with
  | _ distance ih =>
    rcases Nat.eq_or_lt_of_le hle with rfl | hlt
    · exact ⟨[], rfl⟩
    · obtain ⟨records, next, hforward, hnext, hstep⟩ := recordsFrom_step h (Nat.le_of_lt_succ hlt)
      obtain ⟨front, hfront⟩ := ih (feed + 1 - next) (by omega) hnext rfl
      exact ⟨records ++ front, by rw [hstep, hfront, List.append_assoc]⟩

/-! ## The line is found -/

/-- The characters that a number or a string starts with. -/
def literalOpeners : List Char :=
  ['"', '\'', '0', '1', '2', '3', '4', '5', '6', '7', '8', '9']

/-- A text starts with an assignment to a name, of a value that starts like a number or a string: inline space may
stand on both sides of the equals sign. -/
def AssignsLiteral (name : String) (text : List UInt8) : Prop :=
  ∃ gap gap' c rest, (∀ b ∈ gap, isInlineSpace b = true) ∧ (∀ b ∈ gap', isInlineSpace b = true) ∧
    c ∈ literalOpeners ∧ text = Text.bytes name ++ gap ++ '='.toUInt8 :: (gap' ++ c.toUInt8 :: rest)

/-- What stands where a line assigns: its name, its equals sign and its value. -/
structure AssignmentAt (src : Source) (line : Nat) (name : String) (value : Nat) : Prop where
  target : IsTarget name
  equals : ∃ e, src.identAt? line = some (name, e) ∧ src.isLoneEquals (src.skipInlineSpace e) = true ∧
    src.skipInlineSpace (src.skipInlineSpace e + 1) = value
  value : ∃ c rest, c ∈ literalOpeners ∧ src.after value = c.toUInt8 :: rest

theorem isOperatorByte_eq_false {b : UInt8} (h : isIdentByte b = true ∨ isInlineSpace b = true) :
    isOperatorByte b = false := by
  by_contra hop
  rw [Bool.not_eq_false, isOperatorByte, List.any_eq_true] at hop
  obtain ⟨c, hc, heq⟩ := hop
  rw [beq_iff_eq] at heq
  subst heq
  have hops : ∀ c ∈ ['=', '!', '<', '>', ':', '+', '-', '*', '/', '%', '&', '|', '^', '@', '~'],
      isIdentByte c.toUInt8 = false ∧ isInlineSpace c.toUInt8 = false :=
    List.all_iff_forall_prop.mp (by decide)
  rcases h with h | h
  · rw [(hops c hc).1] at h
    cases h
  · rw [(hops c hc).2] at h
    cases h

/-- The equals sign behind a name and inline space is a plain one, if no second one follows. -/
theorem isLoneEquals_of_after {line : Nat} {name : String} {gap rest : List UInt8} (hname : IsTarget name)
    (hgap : ∀ b ∈ gap, isInlineSpace b = true) (hrest : rest.head? ≠ some '='.toUInt8)
    (h : src.after line = Text.bytes name ++ gap ++ '='.toUInt8 :: rest) :
    src.isLoneEquals (line + name.utf8ByteSize + gap.length) = true := by
  obtain ⟨first, tail, hfirst, -, hall⟩ := Text.exists_of_isIdent hname.ident
  obtain ⟨b, hb⟩ := Option.ne_none_iff_exists'.mp
    (mt List.getLast?_eq_none_iff.mp (by simp [hfirst] : Text.bytes name ++ gap ≠ []))
  have hoperator : isOperatorByte b = false := by
    rcases List.mem_append.mp (List.mem_of_getLast? hb) with hmem | hmem
    · exact isOperatorByte_eq_false (Or.inl (hall b hmem))
    · exact isOperatorByte_eq_false (Or.inr (hgap b hmem))
  have hprev := byteBefore?_add h hb
  have hequals := after_add h
  rw [List.length_append, Text.length_bytes, ← Nat.add_assoc] at hprev hequals
  have hnext : src.byte? (line + name.utf8ByteSize + gap.length + 1) ≠ some '='.toUInt8 := by
    rw [← head?_after, after_succ hequals]
    exact hrest
  simp [isLoneEquals, byte?_of_after hequals, hnext, hprev, hoperator]

theorem assignmentAt_of_after {line : Nat} {name : String} (hname : IsTarget name)
    (h : AssignsLiteral name (src.after line)) : ∃ value, AssignmentAt src line name value := by
  obtain ⟨gap, gap', c, rest, hgap, hgap', hc, hafter⟩ := h
  have hopeners : ∀ c ∈ literalOpeners, isInlineSpace c.toUInt8 = false ∧ c.toUInt8 ≠ '='.toUInt8 :=
    List.all_iff_forall_prop.mp (by decide)
  obtain ⟨hspace, hequals⟩ := hopeners c hc
  have hlone := isLoneEquals_of_after hname hgap (by
    cases gap' with
    | nil => simpa using hequals
    | cons b gap' =>
      rintro heq
      cases heq
      exact absurd (hgap' _ List.mem_cons_self) (by decide)) hafter
  rw [List.append_assoc] at hafter
  have hident := identAt?_of_after hname.ident hafter (by
    cases gap with
    | nil => rfl
    | cons b gap => exact (isPlain_of_isAsciiBlank (isAsciiBlank_of_isInlineSpace (hgap b List.mem_cons_self))).2)
  have hbehind := after_add hafter
  rw [Text.length_bytes] at hbehind
  have hskip : src.skipInlineSpace (line + name.utf8ByteSize) = line + name.utf8ByteSize + gap.length :=
    skipWhile_of_after hbehind hgap rfl
  have hvalue := after_succ (after_add hbehind)
  refine ⟨line + name.utf8ByteSize + gap.length + 1 + gap'.length, hname, ⟨_, hident, ?_, ?_⟩,
    c, rest, hc, after_add hvalue⟩
  · rw [hskip]
    exact hlone
  · rw [hskip]
    exact skipWhile_of_after hvalue hgap' hspace

theorem byte?_of_identAt? {name : String} {e : Nat} (h : src.identAt? pos = some (name, e)) :
    ∃ b, src.byte? pos = some b ∧ isIdentByte b = true := by
  have hword := isWord_of_identEnd? (identEnd?_of_identAt? h)
  exact (Option.any_eq_true _ _).mp (hword.bytes pos (Nat.le_refl _) hword.lt)

theorem startsDeclaration_of_assignmentAt {line value : Nat} {name : String} (h : AssignmentAt src line name value)
    (indent : Nat) : startsDeclaration src indent line = true := by
  obtain ⟨e, hident, hequals, -⟩ := h.equals
  obtain ⟨b, hb, hbyte⟩ := byte?_of_identAt? hident
  rw [startsDeclaration, skipInlineSpace_of_isIdentByte hb hbyte, Nat.sub_self]
  simp only [Nat.not_lt_zero, hident, h.target.free, hequals]
  rfl

variable {text : String} {c : Char} {rest : List UInt8}

theorem pieceAt?_of_quote {quote : UInt8} (hq : isQuote quote = true) (hb : src.byte? pos = some quote) :
    ∃ e, src.pieceAt? .python pos = some (.literal e) := by
  have hcomment : src.commentEnd? .python pos = none :=
    commentEnd?_eq_none (after_eq_cons hb ▸ opensComment_of_isQuote hq)
  have hliteral : src.literalEnd? .python pos = some (src.ordinaryEnd .python quote pos) := by
    rw [literalEnd?, hb]
    rcases isQuote_cases hq with rfl | rfl <;> rfl
  exact ⟨_, by rw [pieceAt?, hb, hcomment, hliteral]⟩

/-- A scan goes past the first character of a number or a string. -/
theorem lt_codeEnd {statement : Nat} (hc : c ∈ literalOpeners)
    (h : src.after pos = c.toUInt8 :: rest) : pos < (scan src limit statement statementStops pos).codeEnd := by
  have hbyte := byte?_of_after h
  by_cases hquote : isQuote c.toUInt8 = true
  · obtain ⟨e, he⟩ := pieceAt?_of_quote hquote hbyte
    rw [scan, scanValueUntil, scanFrom_of_literal he (by omega)]
    have hlt := (pieceAt?_bounds he).1
    exact le_codeEnd hlt hlt
  · have hfacts : ∀ c ∈ literalOpeners, isQuote c.toUInt8 = false → isPlain c.toUInt8 = true ∧
        c.toUInt8 ≠ '\\'.toUInt8 ∧ c.toUInt8 ≠ '\n'.toUInt8 ∧ closerOf? c.toUInt8 = none ∧
        isCloser c.toUInt8 = false ∧ isAsciiBlank c.toUInt8 = false ∧ endsStatement true c.toUInt8 = false :=
      List.all_iff_forall_prop.mp (by decide)
    obtain ⟨hplain, hslash, hfeed, hopener, hcloser, hblank, hstop⟩ := hfacts c hc (by simpa using hquote)
    rw [scan, scanValueUntil, scanFrom_of_byte (pieceAt?_of_isPlain hbyte hplain hslash) (by omega)
      (verdict_of_byte hopener hcloser hfeed fun _ => isTerminator_eq_false src _ pos hstop hfeed), hblank]
    exact le_codeEnd (Nat.lt_succ_self pos) (Nat.lt_succ_self pos)

/-- The value read there is not empty. -/
theorem value_ne_empty {statement : Nat} (hl : (ofString text).size ≤ limit) (hc : c ∈ literalOpeners)
    (h : (ofString text).after pos = c.toUInt8 :: rest) :
    Text.collapse ((ofString text).codeText .python pos
      (scan (ofString text) limit statement statementStops pos).codeEnd) ≠ "" := by
  have hfacts : ∀ c ∈ literalOpeners, c.utf8Size = 1 ∧ c.toUInt8 < 0x80 ∧ Text.isBlank c = false ∧
      c.toUInt8 ≠ '#'.toUInt8 ∧ c.toUInt8 ≠ '/'.toUInt8 ∧ c.toUInt8 ≠ '\\'.toUInt8 :=
    List.all_iff_forall_prop.mp (by decide)
  obtain ⟨hsize, hascii, hblank, hhash, hslash, hback⟩ := hfacts c hc
  have hbyte := byte?_of_after h
  have hfirst : (ofString text).blankedEnd? .python pos = none := by
    rw [blankedEnd?, commentEnd?_of_byte hbyte hhash hslash]
    simp [joinsLines, hbyte, hback]
  have hend : String.Pos.Raw.IsValid text ⟨(scan (ofString text) limit statement statementStops pos).codeEnd⟩ :=
    isValid_codeEnd (scanFrom_stop_ne_limit hl) (Nat.le_of_lt (byte?_eq_some_lt hbyte)) (Or.inr rfl)
  obtain ⟨p, tail, htext, hlt, hp⟩ := codeTextFrom_front hend (lt_codeEnd hc h) hfirst (Nat.le_refl pos)
  refine Text.collapse_ne_empty ?_ hblank
  rw [codeText, htext, String.toList_append]
  refine List.mem_append_left _ (Text.mem_toList_of_mem_bytes hsize hascii ?_)
  rw [bytes_slice (Nat.le_of_lt hlt) (isValid_of_ascii hbyte hascii) hp, h]
  obtain ⟨n, hn⟩ : ∃ n, p - pos = n + 1 := ⟨p - pos - 1, by omega⟩
  rw [hn, List.take_succ_cons]
  exact List.mem_cons_self

/-- A value that is not empty and whose scan stays below its bound makes records. -/
theorem exists_matchValue? {first : Target} {more : List Target}
    (hspace : src.skipInlineSpace pos = pos)
    (hlimit : (scan src limit first.pos statementStops pos).stop ≠ .limit)
    (hvalue : Text.collapse (src.codeText .python pos (scan src limit first.pos statementStops pos).codeEnd) ≠ "") :
    ∃ found, matchValue? src index limit first more pos = some found ∧
      ∃ r ∈ found.records, r.name = first.name ∧ r.declaredAt.offset = first.pos := by
  have hne : (Text.collapse (src.codeText .python pos
      (scan src limit first.pos statementStops pos).codeEnd)).isEmpty = false := by simpa using hvalue
  unfold matchValue?
  simp only [hspace, hne]
  cases hstop : (scan src limit first.pos statementStops pos).stop with
  | limit => exact absurd hstop hlimit
  | terminator e => exact ⟨_, rfl, _, List.mem_cons_self, rfl, rfl⟩
  | unbalanced e => exact ⟨_, rfl, _, List.mem_cons_self, rfl, rfl⟩
  | endOfText => exact ⟨_, rfl, _, List.mem_cons_self, rfl, rfl⟩

/-- **The assignment on the line is found.** -/
theorem matchStatement?_of_assignmentAt {line value : Nat} {name : String} (index : LineIndex)
    (h : AssignmentAt (ofString text) line name value) (hl : (ofString text).size ≤ limit) :
    ∃ found, matchStatement? (ofString text) index limit line = some found ∧
      ∃ r ∈ found.records, r.name = name ∧ r.declaredAt.offset = line := by
  obtain ⟨e, hident, hequals, hnext⟩ := h.equals
  obtain ⟨c, rest, hc, hafter⟩ := h.value
  have hfacts : ∀ c ∈ literalOpeners, isIdentStart c.toUInt8 = false ∧ isInlineSpace c.toUInt8 = false :=
    List.all_iff_forall_prop.mp (by decide)
  have hword : (ofString text).identAt? value = none := by
    simp [identAt?, identEnd?, byte?_of_after hafter, (hfacts c hc).1]
  have hchain : chainedTargets (ofString text) value = ([], value) := by
    rw [chainedTargets]
    split
    · rfl
    · next hsome => simp [hword] at hsome
  have hspace : (ofString text).skipInlineSpace value = value :=
    skipInlineSpace_eq_self (by rw [hafter]; exact (hfacts c hc).2)
  simp only [matchStatement?, hident, h.target.free, isAnnotationColon_of_isLoneEquals hequals, hequals,
    matchChained?, hnext, hchain]
  exact exists_matchValue? hspace (scanFrom_stop_ne_limit hl) (value_ne_empty hl hc hafter)

/-! ## Texts -/

/-- A text whose literals stay on their lines: no backslash, and nowhere three quotes in a row. -/
structure IsSingleLined (text : String) : Prop where
  slash : '\\'.toUInt8 ∉ Text.bytes text
  double : ¬ Text.bytes "\"\"\"" <:+: Text.bytes text
  single : ¬ Text.bytes "'''" <:+: Text.bytes text

theorem IsSingleLined.singleLined (h : IsSingleLined text) : (ofString text).SingleLined where
  slash pos hb := h.slash (Array.mem_toList_iff.mpr (Array.mem_of_getElem? hb))
  triple pos quote hq := by
    by_contra hstarts
    rw [Bool.not_eq_false, startsWith_iff (by simp)] at hstarts
    have hinfix : [quote, quote, quote] <:+: Text.bytes text :=
      hstarts.isInfix.trans (List.drop_suffix pos (Text.bytes text)).isInfix
    rcases isQuote_cases hq with rfl | rfl
    · exact h.double hinfix
    · exact h.single hinfix

/-- A line starts at a position. -/
def IsLineStart (src : Source) (pos : Nat) : Prop :=
  pos = 0 ∨ src.byteBefore? pos = some '\n'.toUInt8

theorem exists_recordsFrom {line value : Nat} {name : String} (index : LineIndex)
    (h : AssignmentAt (ofString text) line name value) (hl : (ofString text).size ≤ limit) :
    ∃ r ∈ recordsFrom (ofString text) index limit line, r.name = name ∧ r.declaredAt.offset = line := by
  obtain ⟨found, hmatch, r, hr, hname, hplace⟩ := matchStatement?_of_assignmentAt index h hl
  obtain ⟨e, hident, -⟩ := h.equals
  obtain ⟨b, hb, hbyte⟩ := byte?_of_identAt? hident
  refine ⟨r, ?_, hname, hplace⟩
  rw [recordsFrom_of_match hb hbyte hmatch]
  exact List.mem_append_left _ hr

/-- **No assignment at the start of a line is lost.** Take a text whose literals stay on their lines, however broken
it may be otherwise, and a bound on scans that is no smaller than the text. Then every line that starts with an
assignment of something that starts like a number or a string has a record for it, at the start of the line. -/
theorem extract_keeps_assignments (text : String) (tree : Option Tree) {limit : Nat} (htext : IsSingleLined text)
    (hl : text.utf8ByteSize ≤ limit) :
    ∃ records, Language.python.extract limit ⟨text, tree⟩ = .ok records ∧
      ∀ line name, IsLineStart (ofString text) line → IsTarget name →
        AssignsLiteral name ((ofString text).after line) →
          ∃ r ∈ records, r.name = name ∧ r.declaredAt.offset = line := by
  refine ⟨_, rfl, fun line name hline hname hassigns => ?_⟩
  obtain ⟨value, hat⟩ := assignmentAt_of_after hname hassigns
  obtain ⟨r, hr, hfound⟩ := exists_recordsFrom (.ofSource (ofString text)) hat hl
  suffices hmem : r ∈ recordsFrom (ofString text) (.ofSource (ofString text)) limit 0 from
    ⟨r, List.mem_mergeSort.mpr hmem, hfound⟩
  rcases hline with rfl | hfeed
  · exact hr
  · cases line with
    | zero => exact hr
    | succ feed =>
      have hrecovers : Recovers (ofString text) limit feed :=
        ⟨htext.singleLined, hfeed, startsDeclaration_of_assignmentAt hat, hl⟩
      obtain ⟨front, hfront⟩ := recordsFrom_reaches (.ofSource (ofString text)) hrecovers (Nat.zero_le _)
      rw [hfront]
      exact List.mem_append_right _ hr

/-- Brackets and a quote that are never closed, and a closing bracket that was never opened. -/
def brokenText : String :=
  "a = f([1, x\n  b: \x7b\nif ) 'y\nc =\t'\n"

theorem extract_keeps_assignments_brokenText :
    IsSingleLined brokenText ∧ brokenText.utf8ByteSize ≤ 40 ∧ IsLineStart (ofString brokenText) 27 ∧
    IsTarget "c" ∧ AssignsLiteral "c" ((ofString brokenText).after 27) ∧
    ∃ records, Language.python.extract 40 ⟨brokenText, none⟩ = .ok records ∧
      ∃ r ∈ records, r.name = "c" ∧ r.declaredAt.offset = 27 := by
  have htext : IsSingleLined brokenText := ⟨by decide, by decide, by decide⟩
  have hl : brokenText.utf8ByteSize ≤ 40 := by decide
  have hline : IsLineStart (ofString brokenText) 27 := Or.inr (by decide)
  have hname : IsTarget "c" := ⟨by decide, by decide⟩
  have hassigns : AssignsLiteral "c" ((ofString brokenText).after 27) :=
    ⟨[0x20], [0x09], '\'', [0x0A], List.all_eq_true.mp rfl, List.all_eq_true.mp rfl, by decide, by decide⟩
  obtain ⟨records, hextract, hrecords⟩ := extract_keeps_assignments brokenText none htext hl
  exact ⟨htext, hl, hline, hname, hassigns, records, hextract, hrecords 27 "c" hline hname hassigns⟩

end Python
end VarCensus
