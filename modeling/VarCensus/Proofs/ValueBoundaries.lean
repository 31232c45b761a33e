import VarCensus.Proofs.SourceParts

/-!
# The first boundary of a value

The scan of a value reads, remembers and decides in one loop. Here the three are apart. `piecesFrom` cuts the
source into comments, literals, joined line ends and single bytes, whatever is being looked for. `expected` are the
closing brackets that are due behind some pieces. `stopAt?` says whether a scan stops at a piece, and why, when
given closing brackets are due. The main statement, `scanValueUntil_firstStop`, puts them together again: a scan
stops at the first piece where `stopAt?` has an answer, and at the end of the source if there is none.

A scan that stops at a terminator has no bracket open there, and every closing bracket it met was the one that was
due. So the brackets in front of the stop match (`Matched`).
-/

namespace VarCensus
namespace Source

/-- A piece with the position where it starts. -/
structure PlacedPiece where
  pos : Nat
  piece : Piece
deriving DecidableEq, Repr

/-- The pieces from a position on, each where the one before it ends. -/
def piecesFrom (lex : Lexicon) (src : Source) (pos : Nat) : List PlacedPiece :=
  match _h : src.pieceAt? lex pos with
  | none => []
  | some piece => ⟨pos, piece⟩ :: src.piecesFrom lex (piece.stop pos)
termination_by src.size - pos
decreasing_by
  have := pieceAt?_bounds _h
  omega

/-! ## What a piece means for a scan -/

/-- The closing brackets that are due behind a byte, innermost first. -/
def expectByte (closers : List UInt8) (b : UInt8) : List UInt8 :=
  match closerOf? b with
  | some c => c :: closers
  | none => if isCloser b then closers.tail else closers

/-- Whether and why a scan stops at a byte, when the given closing brackets are due. -/
def stopAtByte? (lex : Lexicon) (src : Source) (stops : Stops) (startsStatement : Nat → Bool)
    (closers : List UInt8) (b : UInt8) (pos : Nat) : Option Stop :=
  if isCloser b ∧ closers.head? ≠ some b then some (.unbalanced pos)
  else if b = '\n'.toUInt8 ∧ closers ≠ [] ∧ startsStatement (pos + 1) then some (.unbalanced pos)
  else if closers = [] ∧ src.EndsValue lex stops pos b then some (.terminator pos)
  else none

variable {lex : Lexicon} {src : Source} {stops : Stops} {startsStatement : Nat → Bool} {start limit : Nat}

/-- No scan stops at an opening bracket. -/
theorem stopAtByte?_of_opener {closers : List UInt8} {b c : UInt8} {pos : Nat} (h : closerOf? b = some c) :
    src.stopAtByte? lex stops startsStatement closers b pos = none := by
  have hcloser : isCloser b = false := by rcases closerOf?_cases h with rfl | rfl | rfl <;> rfl
  have hfeed : b ≠ '\n'.toUInt8 := by rcases closerOf?_cases h with rfl | rfl | rfl <;> decide
  have hends : ¬ src.EndsValue lex stops pos b := by
    rw [← isTerminator_iff, Bool.not_eq_true]
    rcases closerOf?_cases h with rfl | rfl | rfl <;> rfl
  simp [stopAtByte?, hcloser, hfeed, hends]

/-- What a scan makes of a byte, in the words used here. -/
theorem verdict_eq_elim (closers : List UInt8) (b : UInt8) (pos : Nat) :
    src.verdict lex stops startsStatement closers b pos =
      (src.stopAtByte? lex stops startsStatement closers b pos).elim (.ok (expectByte closers b)) .error := by
  cases hopener : closerOf? b with
  | some c =>
    rw [verdict_of_opener hopener, stopAtByte?_of_opener hopener, expectByte, hopener]
    rfl
  | none =>
    rw [verdict.eq_def, stopAtByte?, expectByte, hopener]
    cases hcloser : isCloser b with
    | true =>
      have hfeed : b ≠ '\n'.toUInt8 := by rcases isCloser_cases hcloser with rfl | rfl | rfl <;> decide
      cases closers with
      | nil => simp
      | cons c rest => by_cases hc : c = b <;> simp [hc, hfeed]
    | false =>
      cases closers with
      | nil =>
        cases hends : src.isTerminator lex stops b pos with
        | true => simp [isTerminator_iff.mp hends]
        | false =>
          have hnot : ¬ src.EndsValue lex stops pos b := by simp [← isTerminator_iff, hends]
          simp [hnot]
      | cons c rest =>
        by_cases hfeed : b = '\n'.toUInt8
        · cases startsStatement (pos + 1) <;> simp [hfeed]
        · simp [hfeed]

/-! ## One piece after the other -/

/-- The closing brackets that are due behind a piece. -/
def PlacedPiece.expect (closers : List UInt8) (p : PlacedPiece) : List UInt8 :=
  match p.piece with
  | .byte b => expectByte closers b
  | .comment _ | .literal _ | .continuation _ => closers

/-- The closing brackets that are due behind some pieces. -/
def expected (pieces : List PlacedPiece) : List UInt8 :=
  pieces.foldl PlacedPiece.expect []

/-- The end of a piece of the value itself: a literal, or a byte that is no blank. -/
def PlacedPiece.codeEnd? (p : PlacedPiece) : Option Nat :=
  match p.piece with
  | .literal e => some e
  | .byte b => if isAsciiBlank b then none else some (p.pos + 1)
  | .comment _ | .continuation _ => none

/-- The end of the last piece of the value itself, or the start if there is none. -/
def codeEndOf (start : Nat) (pieces : List PlacedPiece) : Nat :=
  (pieces.filterMap PlacedPiece.codeEnd?).getLastD start

/-- Whether and why a scan stops at a piece, when the given closing brackets are due. -/
def stopAt? (lex : Lexicon) (src : Source) (stops : Stops) (startsStatement : Nat → Bool) (start limit : Nat)
    (closers : List UInt8) (p : PlacedPiece) : Option Stop :=
  if limit < p.pos - start then some .limit
  else
    match p.piece with
    | .byte b => src.stopAtByte? lex stops startsStatement closers b p.pos
    | .comment _ | .literal _ | .continuation _ => none

/-- A scan stops at none of the pieces, each taken with the closing brackets that are due there. -/
def Passes (lex : Lexicon) (src : Source) (stops : Stops) (startsStatement : Nat → Bool) (start limit : Nat) :
    List UInt8 → List PlacedPiece → Prop
  | _, [] => True
  | closers, p :: more => src.stopAt? lex stops startsStatement start limit closers p = none ∧
      Passes lex src stops startsStatement start limit (p.expect closers) more

theorem codeEndOf_cons (start : Nat) (p : PlacedPiece) (pieces : List PlacedPiece) :
    codeEndOf start (p :: pieces) = codeEndOf (p.codeEnd?.getD start) pieces := by
  rw [codeEndOf, List.filterMap_cons]
  cases p.codeEnd? with
  | none => rfl
  | some e => exact List.getLastD_cons ..

/-- **One piece**: a scan stops at it, or goes on behind it. -/
theorem scanFrom_piece {pos : Nat} {piece : Piece} (hp : src.pieceAt? lex pos = some piece) (closers : List UInt8)
    (codeEnd : Nat) :
    src.scanFrom lex stops startsStatement start limit closers pos codeEnd =
      (src.stopAt? lex stops startsStatement start limit closers ⟨pos, piece⟩).elim
        (src.scanFrom lex stops startsStatement start limit (PlacedPiece.expect closers ⟨pos, piece⟩)
          (piece.stop pos) ((PlacedPiece.codeEnd? ⟨pos, piece⟩).getD codeEnd))
        fun stop => ⟨codeEnd, stop⟩ := by
  rw [scanFrom_eq_match, hp, stopAt?]
  dsimp only
  split
  · rfl
  · cases piece with
    | comment e | literal e | continuation e => rfl
    | byte b =>
      simp only [verdict_eq_elim]
      cases src.stopAtByte? lex stops startsStatement closers b pos with
      | some stop => rfl
      | none => cases hb : isAsciiBlank b <;> simp [PlacedPiece.codeEnd?, PlacedPiece.expect, Piece.stop, hb]

/-- **All pieces**: a scan passes pieces until it stops at one, or passes them all. -/
theorem scanFrom_cases (closers : List UInt8) (pos codeEnd : Nat) :
    (∃ before p after stop, src.piecesFrom lex pos = before ++ p :: after ∧
      src.Passes lex stops startsStatement start limit closers before ∧
      src.stopAt? lex stops startsStatement start limit (before.foldl PlacedPiece.expect closers) p = some stop ∧
      src.scanFrom lex stops startsStatement start limit closers pos codeEnd = ⟨codeEndOf codeEnd before, stop⟩) ∨
    src.Passes lex stops startsStatement start limit closers (src.piecesFrom lex pos) ∧
      src.scanFrom lex stops startsStatement start limit closers pos codeEnd =
        ⟨codeEndOf codeEnd (src.piecesFrom lex pos), .endOfText⟩ := by
  fun_induction piecesFrom lex src pos generalizing closers codeEnd with
  | case1 pos hnone =>
    refine Or.inr ⟨trivial, ?_⟩
    rw [scanFrom_eq_match, hnone]
    rfl
  | case2 pos piece hp ih =>
    rw [scanFrom_piece hp]
    cases hstop : src.stopAt? lex stops startsStatement start limit closers ⟨pos, piece⟩ with
    | some stop => exact Or.inl ⟨[], ⟨pos, piece⟩, _, stop, rfl, trivial, hstop, rfl⟩
    | none =>
      rcases ih (PlacedPiece.expect closers ⟨pos, piece⟩) ((PlacedPiece.codeEnd? ⟨pos, piece⟩).getD codeEnd) with
        ⟨before, p, after, stop, hpieces, hpasses, hp', hscan⟩ | ⟨hpasses, hscan⟩
      · refine Or.inl ⟨⟨pos, piece⟩ :: before, p, after, stop, by rw [hpieces]; rfl, ⟨hstop, hpasses⟩, hp', ?_⟩
        rw [codeEndOf_cons]
        exact hscan
      · refine Or.inr ⟨⟨hstop, hpasses⟩, ?_⟩
        rw [codeEndOf_cons]
        exact hscan

/-! ## Matching brackets -/

/-- Brackets that match: each opening one is closed by its own kind, with matching brackets between them. -/
inductive Matched : List UInt8 → Prop
  | nil : Matched []
  | group {opener closer : UInt8} {inner rest : List UInt8} (h : closerOf? opener = some closer)
      (hinner : Matched inner) (hrest : Matched rest) : Matched (opener :: (inner ++ closer :: rest))

/-- The bracket that a piece is. -/
def PlacedPiece.bracket? (p : PlacedPiece) : Option UInt8 :=
  match p.piece with
  | .byte b => if (closerOf? b).isSome || isCloser b then some b else none
  | .comment _ | .literal _ | .continuation _ => none

/-- Brackets that close the ones that are due, with matching brackets in front of each and behind the last. -/
inductive Closes : List UInt8 → List UInt8 → Prop
  | done {rest : List UInt8} (h : Matched rest) : Closes [] rest
  | next {closer : UInt8} {closers inner rest : List UInt8} (hinner : Matched inner) (h : Closes closers rest) :
      Closes (closer :: closers) (inner ++ closer :: rest)

theorem Matched.append {word word' : List UInt8} (h : Matched word) (h' : Matched word') :
    Matched (word ++ word') := by
  induction h with
  | nil => exact h'
  | group hopener hinner _ _ ihrest =>
    rw [List.cons_append, List.append_assoc]
    exact .group hopener hinner ihrest

theorem Closes.prepend {closers word word' : List UInt8} (h : Matched word) (h' : Closes closers word') :
    Closes closers (word ++ word') := by
  cases h' with
  | done h' => exact .done (h.append h')
  | next hinner h' =>
    rw [← List.append_assoc]
    exact .next (h.append hinner) h'

/-- Behind an opening bracket its closing one is due; in front of it that is taken care of. -/
theorem Closes.open {opener closer : UInt8} {closers word : List UInt8} (hopener : closerOf? opener = some closer)
    (h : Closes (closer :: closers) word) : Closes closers (opener :: word) := by
  cases h with
  | next hinner h =>
    have hgroup := Closes.prepend (.group hopener hinner .nil) h
    simpa using hgroup

/-- A closing bracket that is passed is the one that is due. -/
theorem head?_of_passed {closers : List UInt8} {pos : Nat} {b : UInt8}
    (h : src.stopAt? lex stops startsStatement start limit closers ⟨pos, .byte b⟩ = none)
    (hcloser : isCloser b = true) : closers.head? = some b := by
  unfold stopAt? stopAtByte? at h
  split at h
  · cases h
  · dsimp only at h
    split at h
    · cases h
    · next hdue => simpa [hcloser] using hdue

/-- A scan that stops at a terminator stops where no bracket is due. -/
theorem closers_of_terminator {closers : List UInt8} {p : PlacedPiece} {pos : Nat}
    (h : src.stopAt? lex stops startsStatement start limit closers p = some (.terminator pos)) :
    p.pos = pos ∧ closers = [] := by
  unfold stopAt? stopAtByte? at h
  split at h
  · cases h
  · split at h
    · split at h
      · cases h
      · split at h
        · cases h
        · split at h
          · next hends =>
            cases h
            exact ⟨rfl, hends.1⟩
          · cases h
    · cases h
    · cases h
    · cases h

/-- A scan that passes pieces and has no bracket open behind them has met all closing brackets that were due, and
matching ones between them. -/
theorem Passes.closes {pieces : List PlacedPiece} : ∀ {closers : List UInt8},
    src.Passes lex stops startsStatement start limit closers pieces →
    pieces.foldl PlacedPiece.expect closers = [] → Closes closers (pieces.filterMap PlacedPiece.bracket?) := by
  induction pieces with
  | nil =>
    intro closers _ hend
    rw [show closers = [] from hend]
    exact .done .nil
  | cons p more ih =>
    intro closers hpasses hend
    obtain ⟨pos, piece⟩ := p
    have hmore := ih hpasses.2 hend
    cases piece with
    | comment e | literal e | continuation e => exact hmore
    | byte b =>
      simp only [PlacedPiece.expect, expectByte] at hmore
      simp only [List.filterMap_cons, PlacedPiece.bracket?]
      cases hopener : closerOf? b with
      | some c =>
        rw [hopener] at hmore
        exact hmore.open hopener
      | none =>
        rw [hopener] at hmore
        cases hcloser : isCloser b with
        | false => simpa [hcloser] using hmore
        | true =>
          obtain ⟨rest, rfl⟩ : ∃ rest, closers = b :: rest := by
            simpa [List.head?_eq_some_iff] using head?_of_passed hpasses.1 hcloser
          exact .next .nil (by simpa [hcloser] using hmore)

/-! ## The first boundary -/

/-- What a scan found, with the pieces that it passed and the one at which it stopped. -/
structure FirstStop (lex : Lexicon) (src : Source) (stops : Stops) (startsStatement : Nat → Bool)
    (start limit : Nat) (scan : ValueScan) (before : List PlacedPiece) (p : PlacedPiece) : Prop where
  passes : src.Passes lex stops startsStatement start limit [] before
  stop : src.stopAt? lex stops startsStatement start limit (expected before) p = some scan.stop
  codeEnd : scan.codeEnd = codeEndOf start before
  matched : ∀ pos, scan.stop = .terminator pos →
    p.pos = pos ∧ Matched (before.filterMap PlacedPiece.bracket?)

/-- **A scan stops at the first boundary**, in every source and whatever it looks for: it passes the pieces in
front and stops at the first one where there is a reason to, or it passes all of them and comes to the end. -/
theorem scanValueUntil_firstStop (lex : Lexicon) (src : Source) (stops : Stops) (limit : Nat)
    (startsStatement : Nat → Bool) (start : Nat) :
    (∃ before p after, src.piecesFrom lex start = before ++ p :: after ∧
      src.FirstStop lex stops startsStatement start limit
        (src.scanValueUntil lex stops limit startsStatement start) before p) ∨
    src.Passes lex stops startsStatement start limit [] (src.piecesFrom lex start) ∧
      src.scanValueUntil lex stops limit startsStatement start =
        ⟨codeEndOf start (src.piecesFrom lex start), .endOfText⟩ := by
  rcases src.scanFrom_cases [] start start with
    ⟨before, p, after, stop, hpieces, hpasses, hstop, hscan⟩ | hend
  · refine Or.inl ⟨before, p, after, hpieces, ?_⟩
    rw [scanValueUntil, hscan]
    refine ⟨hpasses, hstop, rfl, ?_⟩
    rintro pos rfl
    obtain ⟨hpos, hempty⟩ := closers_of_terminator hstop
    refine ⟨hpos, ?_⟩
    cases hpasses.closes hempty with
    | done hmatched => exact hmatched
  · exact Or.inr hend

end Source
end VarCensus
