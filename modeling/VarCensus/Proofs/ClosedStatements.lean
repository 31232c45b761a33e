import VarCensus.Proofs.JoinedTexts
import VarCensus.Proofs.LineRecovery
import VarCensus.Proofs.PlainReading

/-!
# Scans inside a complete statement

The scan of a statement may come to a line feed and stop there, with all brackets closed again. A search that gave the
statement up starts somewhere in the middle of it, without knowing which brackets are open. Its scans go the way of
the first one nevertheless: what they expect to be closed is the upper part of what is really open (`verdict_above`),
so each of them stops at the last line feed or before, and none runs out of the statement (`stopsInside_scanFrom`).

The places where such a search can come to stand are the places of the first scan. They include the starts of all
lines, if no literal goes on from line to line (`Inside.line`).
-/

namespace VarCensus
namespace Source

/-- A scan at `pos`, with the given brackets open, goes on to the line feed at `feed` and stops there. -/
def ClosesAt (src : Source) (feed : Nat) (closers : List UInt8) (pos : Nat) : Prop :=
  ∃ starts start limit codeEnd,
    (src.scanFrom .python Python.statementStops starts start limit closers pos codeEnd).stop = .terminator feed

/-- A place where the plain reading stands and from where all that is open gets closed. -/
structure Inside (src : Source) (feed pos : Nat) : Prop where
  goes : src.Goes .python 0 pos
  closes : ∃ closers, src.ClosesAt feed closers pos

/-- Where a search that starts inside comes to stand: inside, or behind the line feed. -/
def Within (src : Source) (feed pos : Nat) : Prop :=
  src.Inside feed pos ∨ pos = feed + 1

/-- No literal that the plain reading meets holds a line feed. -/
def LiteralsOnLines (src : Source) : Prop :=
  ∀ pos e, src.Visits .python pos → src.literalEnd? .python pos = some e →
    ∀ i, pos ≤ i → i < e → src.byte? i ≠ some '\n'.toUInt8

variable {src : Source} {feed pos e : Nat} {closers : List UInt8}

/-! ## One step -/

theorem ClosesAt.le (h : src.ClosesAt feed closers pos) : pos ≤ feed ∧ feed < src.size := by
  obtain ⟨starts, start, limit, codeEnd, hstop⟩ := h
  exact scanFrom_stop_bounds (congrArg Stop.pos? hstop)

theorem ClosesAt.piece (h : src.ClosesAt feed closers pos) {piece : Piece}
    (hp : src.pieceAt? .python pos = some piece) (hpiece : ∀ b, piece ≠ .byte b) :
    src.ClosesAt feed closers (piece.stop pos) := by
  obtain ⟨starts, start, limit, codeEnd, hstop⟩ := h
  rw [scanFrom_eq_match, hp] at hstop
  dsimp only at hstop
  split at hstop
  · cases hstop
  · cases piece with
    | comment e => exact ⟨starts, start, limit, codeEnd, hstop⟩
    | literal e => exact ⟨starts, start, limit, e, hstop⟩
    | continuation e => exact ⟨starts, start, limit, codeEnd, hstop⟩
    | byte b => exact absurd rfl (hpiece b)

/-- A byte is where the scan stops, or it leaves some brackets open and the scan goes on. -/
theorem ClosesAt.byte (h : src.ClosesAt feed closers pos) {b : UInt8}
    (hp : src.pieceAt? .python pos = some (.byte b)) :
    ∃ starts, src.verdict .python Python.statementStops starts closers b pos = .error (.terminator pos) ∧ pos = feed ∨
      ∃ closers', src.verdict .python Python.statementStops starts closers b pos = .ok closers' ∧
        src.ClosesAt feed closers' (pos + 1) := by
  obtain ⟨starts, start, limit, codeEnd, hstop⟩ := h
  refine ⟨starts, ?_⟩
  rw [scanFrom_eq_match, hp] at hstop
  dsimp only at hstop
  split at hstop
  · cases hstop
  · cases hv : src.verdict .python Python.statementStops starts closers b pos with
    | error stop =>
      rw [hv] at hstop
      obtain rfl : stop = .terminator feed := hstop
      rcases verdict_stop hv with heq | heq
      · cases heq
        exact Or.inl ⟨rfl, rfl⟩
      · cases heq
    | ok closers' =>
      rw [hv] at hstop
      exact Or.inr ⟨closers', rfl, starts, start, limit, _, hstop⟩

namespace Inside

theorem le (h : src.Inside feed pos) : pos ≤ feed ∧ feed < src.size := by
  obtain ⟨closers, hcloses⟩ := h.closes
  exact hcloses.le

theorem piece (h : src.Inside feed pos) {piece : Piece} (hp : src.pieceAt? .python pos = some piece)
    (hpiece : ∀ b, piece ≠ .byte b) : src.Inside feed (piece.stop pos) := by
  obtain ⟨closers, hcloses⟩ := h.closes
  exact ⟨h.goes.trans (Lands.piece hp hpiece).goes, closers, hcloses.piece hp hpiece⟩

theorem succ (h : src.Inside feed pos) {b : UInt8} (hp : src.pieceAt? .python pos = some (.byte b)) :
    src.Within feed (pos + 1) := by
  obtain ⟨hbyte, hnone⟩ := pieceAt?_eq_byte hp
  obtain ⟨closers, hcloses⟩ := h.closes
  obtain ⟨starts, ⟨-, rfl⟩ | ⟨closers', -, hnext⟩⟩ := hcloses.byte hp
  · exact Or.inr rfl
  · exact Or.inl ⟨h.goes.trans (Goes.byte hbyte hnone), closers', hnext⟩

/-- Past a plain byte that is not the line feed. -/
theorem byte (h : src.Inside feed pos) (hfeed : src.byte? feed = some '\n'.toUInt8) {b : UInt8}
    (hb : src.byte? pos = some b) (hplain : isPlain b = true) (hslash : b ≠ '\\'.toUInt8)
    (hne : b ≠ '\n'.toUInt8) : src.Inside feed (pos + 1) := by
  rcases h.succ (pieceAt?_of_isPlain hb hplain hslash) with hnext | heq
  · exact hnext
  · rw [Nat.succ.inj heq, hfeed] at hb
    exact absurd (Option.some.inj hb).symm hne

theorem skipWhile (h : src.Inside feed pos) (hfeed : src.byte? feed = some '\n'.toUInt8) {test : UInt8 → Bool}
    (htest : ∀ b, test b = true → isPlain b = true ∧ b ≠ '\\'.toUInt8 ∧ b ≠ '\n'.toUInt8) :
    src.Inside feed (src.skipWhile test pos) := by
  fun_induction Source.skipWhile src test pos with
  | case1 pos hlt ht ih =>
    obtain ⟨hplain, hslash, hne⟩ := htest _ ht
    exact ih (h.byte hfeed (Array.getElem?_eq_getElem hlt) hplain hslash hne)
  | case2 => exact h
  | case3 => exact h

theorem inlineSpace (h : src.Inside feed pos) (hfeed : src.byte? feed = some '\n'.toUInt8) :
    src.Inside feed (src.skipInlineSpace pos) := by
  refine h.skipWhile hfeed fun b hb => ?_
  simp only [isInlineSpace, Bool.or_eq_true, beq_iff_eq] at hb
  rcases hb with ((rfl | rfl) | rfl) | rfl <;> decide

theorem word (h : src.Inside feed pos) (hfeed : src.byte? feed = some '\n'.toUInt8) {name : String}
    (hid : src.identAt? pos = some (name, e)) : src.Inside feed e := by
  have htest : ∀ b, isIdentByte b = true → isPlain b = true ∧ b ≠ '\\'.toUInt8 ∧ b ≠ '\n'.toUInt8 := by
    intro b hb
    refine ⟨isPlain_of_isIdentByte hb, ?_, ?_⟩
    · rintro rfl
      exact absurd hb (by decide)
    · rintro rfl
      exact absurd hb (by decide)
  have hend := identEnd?_of_identAt? hid
  unfold identEnd? at hend
  split at hend
  · next b hbyte =>
    split at hend
    · next hstart =>
      cases hend
      obtain ⟨hplain, hslash, hne⟩ := htest b (by simp [isIdentByte, hstart])
      exact (h.byte hfeed hbyte hplain hslash hne).skipWhile hfeed htest
    · cases hend
  · cases hend

theorem equals (h : src.Inside feed pos) (hfeed : src.byte? feed = some '\n'.toUInt8)
    (heq : src.byte? pos = some '='.toUInt8) : src.Inside feed (pos + 1) :=
  h.byte hfeed heq (by decide) (by decide) (by decide)

theorem comment (h : src.Inside feed pos) (hc : src.commentEnd? .python pos = some e) : src.Inside feed e := by
  have hp : src.pieceAt? .python pos = some (.comment e) := by
    obtain ⟨b, hb⟩ := Option.isSome_iff_exists.mp
      (byte?_isSome_iff.mpr (Nat.lt_of_lt_of_le (commentEnd?_bounds hc).1 (commentEnd?_bounds hc).2))
    rw [pieceAt?, hb, hc]
  exact h.piece hp (by simp)

end Inside

/-! ## Scans -/

section Scan

variable {stops : Stops} {starts starts' : Nat → Bool} {start limit codeEnd : Nat} {upper lower : List UInt8}

theorem isTerminator_of_statement (hnewline : stops.newline = true) (hsemicolon : stops.semicolon = true) {b : UInt8}
    (h : src.isTerminator .python Python.statementStops b pos = true) :
    src.isTerminator .python stops b pos = true := by
  rw [isTerminator_iff] at h ⊢
  cases h with
  | newline => exact .newline hnewline
  | semicolon => exact .semicolon hsemicolon
  | colon h | assignment h | comma h => exact absurd h (by decide)

/-- **A scan that goes on knows the upper part of what is open**, and then so it does behind the byte; or else the
scan that knows all of it has stopped. -/
theorem verdict_above (hnewline : stops.newline = true) (hsemicolon : stops.semicolon = true) {b : UInt8}
    {upper' : List UInt8} (h : src.verdict .python stops starts upper b pos = .ok upper') :
    src.verdict .python Python.statementStops starts' (upper ++ lower) b pos = .ok (upper' ++ lower) ∨
      src.verdict .python Python.statementStops starts' (upper ++ lower) b pos = .error (.unbalanced pos) := by
  rw [verdict.eq_def] at h ⊢
  cases hopener : closerOf? b with
  | some c =>
    rw [hopener] at h
    cases h
    exact Or.inl rfl
  | none =>
    rw [hopener] at h
    dsimp only at h ⊢
    by_cases hcloser : isCloser b
    · rw [if_pos hcloser] at h ⊢
      cases upper with
      | nil => cases h
      | cons c rest =>
        dsimp only [List.cons_append] at h ⊢
        split at h
        · next hc =>
          cases h
          exact Or.inl (if_pos hc)
        · cases h
    · rw [if_neg hcloser] at h ⊢
      cases upper with
      | cons c rest =>
        have hsame : upper' = c :: rest := by
          simp only [List.isEmpty_cons, Bool.not_false, ↓reduceIte] at h
          split at h <;> cases h
          rfl
        subst hsame
        simp only [List.cons_append, List.isEmpty_cons, Bool.not_false, ↓reduceIte]
        split
        · exact Or.inr rfl
        · exact Or.inl rfl
      | nil =>
        simp only [List.isEmpty_nil, Bool.not_true, Bool.false_eq_true, ↓reduceIte] at h
        split at h
        · cases h
        · next hgoes =>
          cases h
          have hstatement : ¬ src.isTerminator .python Python.statementStops b pos = true :=
            fun hstop => hgoes (isTerminator_of_statement hnewline hsemicolon hstop)
          rw [List.nil_append, if_neg hstatement]
          split
          · split
            · exact Or.inr rfl
            · exact Or.inl rfl
          · exact Or.inl rfl

/-- What a scan that starts inside a statement can come to: never the end, and a stop inside the statement. -/
structure StopsInside (src : Source) (feed : Nat) (stop : Stop) : Prop where
  ends : stop ≠ .endOfText
  here : ∀ e, stop.pos? = some e → src.Inside feed e
  next : ∀ e, stop.pos? = some e → src.Within feed (e + 1)

/-- **A scan that starts inside a statement does not run out of it.** -/
theorem stopsInside_scanFrom (hnewline : stops.newline = true) (hsemicolon : stops.semicolon = true)
    (hgoes : src.Goes .python 0 pos) (hcloses : src.ClosesAt feed (upper ++ lower) pos) :
    src.StopsInside feed (src.scanFrom .python stops starts start limit upper pos codeEnd).stop := by
  have hinside {pos : Nat} {upper : List UInt8} (hgoes : src.Goes .python 0 pos)
      (hcloses : src.ClosesAt feed (upper ++ lower) pos) : src.Inside feed pos := ⟨hgoes, _, hcloses⟩
  fun_induction scanFrom .python src stops starts start limit upper pos codeEnd with
  | case1 upper pos codeEnd hnone =>
    have hle := hcloses.le
    have hsize := size_le_of_pieceAt? hnone
    omega
  | case2 => exact ⟨by simp, by simp [Stop.pos?], by simp [Stop.pos?]⟩
  | case3 upper pos codeEnd _ e hp _ ih =>
    exact ih (hgoes.trans (Lands.piece hp (by simp)).goes) (hcloses.piece hp (by simp))
  | case4 upper pos codeEnd _ e hp _ ih =>
    exact ih (hgoes.trans (Lands.piece hp (by simp)).goes) (hcloses.piece hp (by simp))
  | case5 upper pos codeEnd _ e hp _ ih =>
    exact ih (hgoes.trans (Lands.piece hp (by simp)).goes) (hcloses.piece hp (by simp))
  | case6 upper pos codeEnd _ b hp stop hv =>
    have hstop : ∀ e, stop.pos? = some e → e = pos := by
      rcases verdict_stop hv with rfl | rfl <;> simp [Stop.pos?]
    refine ⟨?_, fun e he => ?_, fun e he => ?_⟩
    · rcases verdict_stop hv with rfl | rfl <;> simp
    · rw [hstop e he]
      exact hinside hgoes hcloses
    · rw [hstop e he]
      exact (hinside hgoes hcloses).succ hp
  | case7 upper pos codeEnd _ b hp upper' hv _ ih =>
    obtain ⟨hbyte, hnone⟩ := pieceAt?_eq_byte hp
    obtain ⟨starts', ⟨hall, -⟩ | ⟨closers, hall, hnext⟩⟩ := hcloses.byte hp
    · rcases verdict_above hnewline hsemicolon hv with h | h <;> rw [h] at hall <;> cases hall
    · rcases verdict_above hnewline hsemicolon hv with h | h
      · rw [h] at hall
        cases hall
        exact ih (hgoes.trans (Goes.byte hbyte hnone)) hnext
      · rw [h] at hall
        cases hall

end Scan

theorem Inside.stopsInside (h : src.Inside feed pos) {stops : Stops} (hnewline : stops.newline = true)
    (hsemicolon : stops.semicolon = true) (limit statement : Nat) :
    src.StopsInside feed (Python.scan src limit statement stops pos).stop := by
  obtain ⟨closers, hcloses⟩ := h.closes
  rw [← List.nil_append closers] at hcloses
  exact stopsInside_scanFrom hnewline hsemicolon h.goes hcloses

/-! ## Lines -/

theorem lineEnd_of_feed (h : src.byte? pos = some '\n'.toUInt8) : src.lineEnd pos = pos := by
  rw [lineEnd, skipWhile_cons (after_eq_cons h)]
  exact Nat.min_eq_left (Nat.le_of_lt (byte?_eq_some_lt h))

/-- A line ends where it ends from any of its bytes. -/
theorem lineEnd_eq_of_le {q : Nat} (hle : pos ≤ q) (hq : q ≤ src.size)
    (h : ∀ i, pos ≤ i → i < q → src.byte? i ≠ some '\n'.toUInt8) : src.lineEnd pos = src.lineEnd q := by
  induction q, hle using Nat.le_induction with
  | base => rfl
  | succ q hle ih =>
    have hlt : q < src.size := hq
    rw [ih (Nat.le_of_lt hlt) fun i hi hlt => h i hi (Nat.lt_succ_of_lt hlt)]
    obtain ⟨b, hb⟩ := Option.isSome_iff_exists.mp (byte?_isSome_iff.mpr hlt)
    have hne : (b != '\n'.toUInt8) = true := by
      have hfeed := h q hle (Nat.lt_succ_self q)
      rw [hb] at hfeed
      simpa using hfeed
    rw [lineEnd, skipWhile_cons (after_eq_cons hb), if_pos hne, lineEnd]

theorem continuationEnd?_eq_lineEnd (h : src.continuationEnd? .python pos = some e) : e = src.lineEnd pos + 1 := by
  have hbounds := continuationEnd?_bounds h
  unfold continuationEnd? at h
  split at h
  · next hslash =>
    simp only [Bool.and_eq_true, beq_iff_eq] at hslash
    split at h
    · next hs =>
      cases h
      simp only [startsWith, Bool.and_eq_true, beq_iff_eq] at hs
      have hline : src.lineEnd pos = src.lineEnd (pos + 1 + 1) := by
        refine lineEnd_eq_of_le (by omega) (by omega) fun i hi hlt => ?_
        obtain rfl | rfl : i = pos ∨ i = pos + 1 := by omega
        · rw [hslash.2]
          decide
        · rw [hs.1]
          decide
      rw [hline, lineEnd_of_feed hs.2.1]
    · split at h
      · next hfeed =>
        cases h
        have hline : src.lineEnd pos = src.lineEnd (pos + 1) := by
          refine lineEnd_eq_of_le (by omega) (by omega) fun i hi hlt => ?_
          obtain rfl : i = pos := by omega
          rw [hslash.2]
          decide
        rw [hline, lineEnd_of_feed (beq_iff_eq.mp hfeed)]
      · cases h
  · cases h

/-- What has been found where a piece is read. -/
def Piece.ReadAt (lex : Lexicon) (src : Source) (pos : Nat) : Piece → Prop
  | .comment e => src.commentEnd? lex pos = some e
  | .literal e => src.literalEnd? lex pos = some e
  | .continuation e => src.continuationEnd? lex pos = some e
  | .byte b => src.byte? pos = some b

theorem readAt_of_pieceAt? {lex : Lexicon} {piece : Piece} (h : src.pieceAt? lex pos = some piece) :
    piece.ReadAt lex src pos := by
  unfold pieceAt? at h
  split at h
  · cases h
  · next hbyte =>
    split at h
    · next hcomment =>
      cases h
      exact hcomment
    · split at h
      · next hliteral =>
        cases h
        exact hliteral
      · split at h
        · next hjoin =>
          cases h
          exact hjoin
        · cases h
          exact hbyte

theorem commentEnd?_eq_lineEnd (h : src.commentEnd? .python pos = some e) : e = src.lineEnd pos := by
  simp only [commentEnd?, Lexicon.python] at h
  split at h
  · exact (Option.some.inj h).symm
  · cases h

/-- **The next line starts inside the statement**, unless the statement ends with this line. -/
theorem Inside.line (h : src.Inside feed pos) (hfeed : src.byte? feed = some '\n'.toUInt8)
    (hlines : src.LiteralsOnLines) : src.Within feed (src.lineEnd pos + 1) := by
  -- piece by piece up to the line feed; only a piece that holds it is the last one
  induction hn : feed - pos using Nat.strongRecOn generalizing pos with
  | ind n ih =>
    have hle := h.le
    have hfurther {q : Nat} (hlt : pos < q) (hq : src.Inside feed q)
        (hline : ∀ i, pos ≤ i → i < q → src.byte? i ≠ some '\n'.toUInt8) :
        src.Within feed (src.lineEnd pos + 1) := by
      have hle := hq.le
      rw [lineEnd_eq_of_le (Nat.le_of_lt hlt) (by omega) hline]
      exact ih (feed - q) (by omega) hq rfl
    cases hp : src.pieceAt? .python pos with
    | none => exact absurd (size_le_of_pieceAt? hp) (by omega)
    | some piece =>
      have hlt := (pieceAt?_bounds hp).1
      cases piece with
      | comment e =>
        have hnext : src.Inside feed e := h.piece hp (by simp)
        have heq := commentEnd?_eq_lineEnd (readAt_of_pieceAt? hp)
        have hbyte : src.byte? e = some '\n'.toUInt8 := by
          have hle := hnext.le
          rcases src.byte?_lineEnd pos with hnone | hfeed
          · rw [← heq, byte?, Array.getElem?_eq_none_iff] at hnone
            exact absurd (Nat.lt_of_le_of_lt hle.1 hle.2) (Nat.not_lt.mpr hnone)
          · rwa [heq]
        rw [← heq]
        exact hnext.succ (pieceAt?_of_isPlain hbyte (by decide) (by decide))
      | literal e =>
        have hvisits := h.goes.visits (startsDirective_eq_false_of_lexicon rfl src)
        exact hfurther hlt (h.piece hp (by simp)) (hlines pos e hvisits (readAt_of_pieceAt? hp))
      | continuation e =>
        have hnext : src.Inside feed e := h.piece hp (by simp)
        rw [← continuationEnd?_eq_lineEnd (readAt_of_pieceAt? hp)]
        exact Or.inl hnext
      | byte b =>
        have hbyte : src.byte? pos = some b := readAt_of_pieceAt? hp
        by_cases hb : b = '\n'.toUInt8
        · subst hb
          rw [lineEnd_of_feed hbyte]
          exact h.succ hp
        · have hne : src.byte? pos ≠ some '\n'.toUInt8 := by
            rw [hbyte]
            simpa using hb
          rcases h.succ hp with hnext | heq
          · refine hfurther (Nat.lt_succ_self pos) hnext fun i hi hlt => ?_
            rwa [Nat.le_antisymm (Nat.le_of_lt_succ hlt) hi]
          · rw [Nat.succ.inj heq] at hne
            exact absurd hfeed hne

end Source

namespace Python

open Source

variable {src : Source} {index : LineIndex} {limit feed pos start : Nat}

/-! ## The search -/

/-- A statement that ends with its source, at a line feed, with no literal that goes on from line to line. -/
structure Closed (src : Source) (feed : Nat) : Prop where
  isFeed : src.byte? feed = some '\n'.toUInt8
  size : feed + 1 = src.size
  lines : src.LiteralsOnLines

theorem Closed.line (h : Closed src feed) (hpos : src.Inside feed pos) : src.Within feed (src.lineEnd pos + 1) :=
  hpos.line h.isFeed h.lines

theorem Closed.chainedTargets (h : Closed src feed) (hpos : src.Inside feed pos) :
    src.Inside feed (Python.chainedTargets src pos).2 := by
  fun_induction Python.chainedTargets src pos with
  | case1 => exact hpos
  | case2 => exact hpos
  | case3 pos name e hid eq hcond targets stop hrec ih =>
    simp only [Bool.or_eq_true, Bool.not_eq_true', not_or, Bool.not_eq_false] at hcond
    rw [hrec] at ih
    have heq : src.Inside feed eq := (hpos.word h.isFeed hid).inlineSpace h.isFeed
    exact ih ((heq.equals h.isFeed (byte?_of_isLoneEquals hcond.2)).inlineSpace h.isFeed)

theorem Closed.valueScan (h : Closed src feed) (hpos : src.Inside feed pos) (limit statement : Nat) :
    src.StopsInside feed (Python.valueScan src limit statement pos).stop :=
  (hpos.inlineSpace h.isFeed).stopsInside rfl rfl limit statement

theorem Closed.annotationScans (h : Closed src feed) (hpos : src.Inside feed pos) (limit statement : Nat) :
    ∀ scan ∈ Python.annotationScans src limit statement pos, scan.stop ≠ .endOfText := by
  have hscan : src.StopsInside feed (scan src limit statement annotationStops pos).stop :=
    hpos.stopsInside rfl rfl limit statement
  intro found hfound
  unfold Python.annotationScans at hfound
  dsimp only at hfound
  split at hfound
  · next e hstop =>
    split at hfound
    · rw [List.mem_singleton.mp hfound]
      exact hscan.ends
    · split at hfound
      · next heq =>
        rcases List.mem_cons.mp hfound with rfl | hfound
        · exact hscan.ends
        · have hequals := (hscan.here e (congrArg Stop.pos? hstop)).equals h.isFeed (beq_iff_eq.mp heq)
          rw [List.mem_singleton.mp hfound]
          exact (h.valueScan hequals limit statement).ends
      · rw [List.mem_singleton.mp hfound]
        exact hscan.ends
  · rw [List.mem_singleton.mp hfound]
    exact hscan.ends

theorem Closed.within_matchValue? (h : Closed src feed) {first : Target} {more : List Target} {found : Finding}
    (hfirst : src.Inside feed first.pos) (hpos : src.Inside feed pos)
    (hm : matchValue? src index limit first more pos = some found) : src.Within feed found.next := by
  have hscan := h.valueScan hpos limit first.pos
  rw [matchValue?_eq_valueFinding] at hm
  dsimp only at hm
  cases hstop : (Python.valueScan src limit first.pos pos).stop with
  | limit =>
    rw [hstop] at hm
    cases hm
    exact h.line hfirst
  | terminator e =>
    rw [hstop, valueFinding] at hm
    split at hm
    · cases hm
    · cases hm
      exact hscan.next e (congrArg Stop.pos? hstop)
  | unbalanced e =>
    rw [hstop, valueFinding] at hm
    split at hm
    · cases hm
    · cases hm
      exact Or.inl (hscan.here e (congrArg Stop.pos? hstop))
  | endOfText => exact absurd hstop hscan.ends

theorem Closed.within_matchAnnotated? (h : Closed src feed) {target : Target} {found : Finding}
    (htarget : src.Inside feed target.pos) (hpos : src.Inside feed pos)
    (hm : matchAnnotated? src index limit target pos = some found) : src.Within feed found.next := by
  have hscan : src.StopsInside feed (scan src limit target.pos annotationStops pos).stop :=
    hpos.stopsInside rfl rfl limit target.pos
  unfold matchAnnotated? at hm
  dsimp only at hm
  split at hm
  · cases hm
    exact h.line htarget
  · cases hm
  · next e hstop =>
    have hpos? := congrArg Stop.pos? hstop
    split at hm
    · cases hm
    · split at hm
      · next heq =>
        have hequals := (hscan.here e hpos?).equals h.isFeed (beq_iff_eq.mp heq)
        exact h.within_matchValue? htarget hequals hm
      · cases hm
        exact hscan.next e hpos?
  · next hstop => exact absurd hstop hscan.ends

/-- **A statement in the middle of the closed one**: its scans do not run out of it, and behind the declaration
that is found the search stands within it. -/
theorem Closed.statement (h : Closed src feed) (hstart : src.Inside feed start) (index : LineIndex) (limit : Nat) :
    (∀ scan ∈ statementScans src limit start, scan.stop ≠ .endOfText) ∧
      ∀ found, matchStatement? src index limit start = some found → src.Within feed found.next := by
  unfold statementScans matchStatement?
  cases hid : src.identAt? start with
  | none => simp
  | some word =>
    obtain ⟨name, e⟩ := word
    have hafter : src.Inside feed (src.skipInlineSpace e) := (hstart.word h.isFeed hid).inlineSpace h.isFeed
    dsimp only
    by_cases hkey : keywords.contains name
    · rw [if_pos hkey, if_pos hkey]
      simp
    · rw [if_neg hkey, if_neg hkey]
      by_cases hann : isAnnotationColon src (src.skipInlineSpace e)
      · have hcolon := hann
        simp only [isAnnotationColon, Bool.and_eq_true, beq_iff_eq] at hcolon
        have hnext := hafter.byte h.isFeed hcolon.1 (by decide) (by decide) (by decide)
        rw [if_pos hann, if_pos hann]
        have htarget : src.Inside feed (⟨name, start⟩ : Target).pos := hstart
        exact ⟨h.annotationScans hnext limit start, fun found hm => h.within_matchAnnotated? htarget hnext hm⟩
      · rw [if_neg hann, if_neg hann]
        by_cases heq : src.isLoneEquals (src.skipInlineSpace e)
        · have hnext := (hafter.equals h.isFeed (byte?_of_isLoneEquals heq)).inlineSpace h.isFeed
          have hvalue := h.chainedTargets hnext
          have hfirst : src.Inside feed (⟨name, start⟩ : Target).pos := hstart
          rw [if_pos heq, if_pos heq]
          refine ⟨fun found hfound => ?_, fun found hm => h.within_matchValue? hfirst hvalue hm⟩
          rw [List.mem_singleton.mp hfound]
          exact (h.valueScan hvalue limit start).ends
        · rw [if_neg heq, if_neg heq]
          simp

theorem Closed.skipStatement (h : Closed src feed) (hstart : src.Inside feed start) (limit : Nat) :
    (scan src limit start skipStops start).stop ≠ .endOfText ∧
      src.Within feed (Python.skipStatement src limit start) := by
  have hscan : src.StopsInside feed (scan src limit start skipStops start).stop :=
    hstart.stopsInside rfl rfl limit start
  refine ⟨hscan.ends, ?_⟩
  unfold Python.skipStatement
  split
  · next e hstop => exact hscan.next e (congrArg Stop.pos? hstop)
  · next e hstop => exact hscan.next e (congrArg Stop.pos? hstop)
  · next hstop => exact absurd hstop hscan.ends
  · exact h.line hstart

/-- **A search that starts in the middle of a closed statement stays in step with it**: none of its scans runs out
of the statement. -/
theorem Closed.scansFrom (h : Closed src feed) (hpos : src.Within feed pos) :
    ∀ scan ∈ Python.scansFrom src index limit pos, scan.stop ≠ .endOfText := by
  have hspace {pos : Nat} {b : UInt8} (hpos : src.Within feed pos)
      (hb : src.byte? (src.skipInlineSpace pos) = some b) : src.Inside feed (src.skipInlineSpace pos) := by
    rcases hpos with hpos | rfl
    · exact hpos.inlineSpace h.isFeed
    · have hlt := byte?_eq_some_lt hb
      have hle := src.le_skipInlineSpace (feed + 1)
      have hsize := h.size
      omega
  fun_induction Python.scansFrom src index limit pos with
  | case1 => simp
  | case2 pos start b hb hsep ih =>
    have hstart := hspace hpos hb
    refine ih ?_
    have hp : src.pieceAt? .python start = some (.byte b) := by
      simp only [Bool.or_eq_true, beq_iff_eq] at hsep
      rcases hsep with rfl | rfl <;> exact pieceAt?_of_isPlain hb (by decide) (by decide)
    exact hstart.succ hp
  | case3 pos start b hb hsep e hc ih => exact ih (Or.inl ((hspace hpos hb).comment hc))
  | case4 pos start b hb hsep hc scans found hm ih =>
    have hstatement := h.statement (hspace hpos hb) index limit
    intro scan hscan
    rcases List.mem_append.mp hscan with hscan | hscan
    · exact hstatement.1 scan hscan
    · exact ih (hstatement.2 found hm) scan hscan
  | case5 pos start b hb hsep hc scans hm ih =>
    have hskip := h.skipStatement (hspace hpos hb) limit
    intro scan hscan
    rcases List.mem_append.mp hscan with hscan | hscan
    · exact (h.statement (hspace hpos hb) index limit).1 scan hscan
    · rcases List.mem_cons.mp hscan with rfl | hscan
      · exact hskip.1
      · exact ih hskip.2 scan hscan

end Python
end VarCensus
