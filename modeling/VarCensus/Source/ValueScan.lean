import VarCensus.Source.Trivia

/-!
# Where a value ends

`scanValue` walks from the start of a value to the first place where it really ends: a stop byte that
stands outside every comment, literal and bracket. It also ends, without a stop byte, at a closing bracket
that was never opened, at a line that evidently starts a new statement while a bracket is still open, when
it has gone further than the caller allows, and at the end of the source.

The decision about one byte is `verdict`, a function without recursion; the walk itself only steps over
pieces and keeps the expected closing brackets, innermost first.
-/

namespace VarCensus

/-- Which bytes end a value outside comments, literals and brackets. -/
structure Stops where
  newline : Bool := false
  semicolon : Bool := false
  /-- A colon that is not half of `::`. -/
  colon : Bool := false
  /-- An equals sign that is a plain assignment. -/
  assignment : Bool := false
  /-- A comma with another declarator after it. -/
  declaratorComma : Bool := false
deriving DecidableEq, Repr

/-- Why a scan of a value ended. -/
inductive Stop where
  /-- A stop byte at this position. -/
  | terminator (pos : Nat)
  /-- An open bracket is left behind, or a closing one was never opened, at this position. -/
  | unbalanced (pos : Nat)
  | endOfText
  /-- The value is longer than allowed. -/
  | limit
deriving DecidableEq, Repr

/-- The position that a stop names, if it names one. -/
def Stop.pos? : Stop → Option Nat
  | .terminator pos => some pos
  | .unbalanced pos => some pos
  | .endOfText => none
  | .limit => none

/-- What a scan of a value found. -/
structure ValueScan where
  /-- The end of the last byte or literal of the value itself; trailing trivia is left out. -/
  codeEnd : Nat
  stop : Stop
deriving DecidableEq, Repr

namespace Source

/-- Whether a star or an ampersand stands at `pos`. -/
def isPointerMark (src : Source) (pos : Nat) : Bool :=
  src.byte? pos == some '*'.toUInt8 || src.byte? pos == some '&'.toUInt8

/-- The first position at or after `pos` that holds neither a pointer mark nor trivia behind one. -/
def skipPointerMarks (lex : Lexicon) (src : Source) (pos : Nat) : Nat :=
  if _h : pos < src.size ∧ src.isPointerMark pos = true then
    src.skipPointerMarks lex (src.skipTrivia lex (pos + 1))
  else pos
termination_by src.size - pos
decreasing_by
  have := le_skipTrivia lex src (pos + 1)
  omega

/-- Whether another declarator starts at `pos`: a name, pointer marks in front allowed, and then a plain
assignment or one of `,`, `;`, `[` and an opening brace. -/
def declaratorFollows (lex : Lexicon) (src : Source) (pos : Nat) : Bool :=
  match src.identEnd? (src.skipPointerMarks lex (src.skipTrivia lex pos)) with
  | none => false
  | some e =>
    let next := src.skipTrivia lex e
    src.isLoneEquals next ||
      (src.byte? next).any fun b => [',', ';', '[', '\x7b'].any (·.toUInt8 == b)

/-- Whether the colon at `pos` is half of a double colon. -/
def inDoubleColon (src : Source) (pos : Nat) : Bool :=
  src.byte? (pos + 1) == some ':'.toUInt8 || src.byteBefore? pos == some ':'.toUInt8

/-- Whether the byte `b` at `pos`, outside brackets, ends a value. -/
def isTerminator (lex : Lexicon) (src : Source) (stops : Stops) (b : UInt8) (pos : Nat) : Bool :=
  if b == '\n'.toUInt8 then stops.newline
  else if b == ';'.toUInt8 then stops.semicolon
  else if b == ':'.toUInt8 then stops.colon && !src.inDoubleColon pos
  else if b == '='.toUInt8 then stops.assignment && src.isLoneEquals pos
  else if b == ','.toUInt8 then stops.declaratorComma && src.declaratorFollows lex (pos + 1)
  else false

/-- What one byte means for a scan that expects the given closing brackets: the scan stops, or goes on
with other expectations. -/
def verdict (lex : Lexicon) (src : Source) (stops : Stops) (startsStatement : Nat → Bool)
    (closers : List UInt8) (b : UInt8) (pos : Nat) : Except Stop (List UInt8) :=
  match closerOf? b with
  | some c => .ok (c :: closers)
  | none =>
    if isCloser b then
      match closers with
      | c :: rest => if c == b then .ok rest else .error (.unbalanced pos)
      | [] => .error (.unbalanced pos)
    else if !closers.isEmpty then
      if b == '\n'.toUInt8 && startsStatement (pos + 1) then .error (.unbalanced pos) else .ok closers
    else if src.isTerminator lex stops b pos then .error (.terminator pos)
    else .ok closers

/-- The scan of `scanValueUntil`, in the middle: at `pos`, with the closing brackets that are expected
and the end of the value read so far. -/
def scanFrom (lex : Lexicon) (src : Source) (stops : Stops) (startsStatement : Nat → Bool)
    (start limit : Nat) (closers : List UInt8) (pos codeEnd : Nat) : ValueScan :=
  match _h : src.pieceAt? lex pos with
  | none => ⟨codeEnd, .endOfText⟩
  | some piece =>
    if limit < pos - start then ⟨codeEnd, .limit⟩
    else
      match piece with
      | .comment e => src.scanFrom lex stops startsStatement start limit closers e codeEnd
      | .literal e => src.scanFrom lex stops startsStatement start limit closers e e
      | .continuation e => src.scanFrom lex stops startsStatement start limit closers e codeEnd
      | .byte b =>
        match src.verdict lex stops startsStatement closers b pos with
        | .error stop => ⟨codeEnd, stop⟩
        | .ok closers =>
          src.scanFrom lex stops startsStatement start limit closers (pos + 1)
            (if isAsciiBlank b then codeEnd else pos + 1)
termination_by src.size - pos
decreasing_by
  all_goals
    have := pieceAt?_bounds _h
    simp only [Piece.stop] at this
    omega

/-- Scans a value from `start`. A line feed inside an open bracket ends the scan as unbalanced when
`startsStatement` accepts the line after it; at most `limit` bytes are looked at. -/
def scanValueUntil (lex : Lexicon) (src : Source) (stops : Stops) (limit : Nat)
    (startsStatement : Nat → Bool) (start : Nat) : ValueScan :=
  src.scanFrom lex stops startsStatement start limit [] start start

/-- Scans a value from `start`, across all the lines of an open bracket. -/
def scanValue (lex : Lexicon) (src : Source) (stops : Stops) (limit start : Nat) : ValueScan :=
  src.scanValueUntil lex stops limit (fun _ => false) start

/-! ## Stops lie ahead -/

theorem verdict_stop {lex : Lexicon} {src : Source} {stops : Stops} {startsStatement : Nat → Bool}
    {closers : List UInt8} {b : UInt8} {pos : Nat} {stop : Stop}
    (h : src.verdict lex stops startsStatement closers b pos = .error stop) :
    stop = .terminator pos ∨ stop = .unbalanced pos := by
  unfold verdict at h
  repeat' split at h
  all_goals first
    | cases h; exact Or.inl rfl
    | cases h; exact Or.inr rfl
    | cases h

/-- A scan that names a position names one between where it was and the end of the source. -/
theorem scanFrom_stop_bounds {lex : Lexicon} {src : Source} {stops : Stops}
    {startsStatement : Nat → Bool} {start limit : Nat} {closers : List UInt8} {pos codeEnd p : Nat}
    (h : (src.scanFrom lex stops startsStatement start limit closers pos codeEnd).stop.pos? = some p) :
    pos ≤ p ∧ p < src.size := by
  fun_induction scanFrom lex src stops startsStatement start limit closers pos codeEnd with
  | case1 => cases h
  | case2 => cases h
  | case3 closers pos codeEnd _ e hp _ ih | case4 closers pos codeEnd _ e hp _ ih
  | case5 closers pos codeEnd _ e hp _ ih =>
    have := pieceAt?_bounds hp
    simp only [Piece.stop] at this
    have := ih h
    omega
  | case6 closers pos codeEnd _ b hp stop hv =>
    have := pieceAt?_bounds hp
    simp only [Piece.stop] at this
    rcases verdict_stop hv with rfl | rfl <;> cases h <;> omega
  | case7 closers pos codeEnd _ b _ _ _ _ ih => have := ih h; omega

end Source
end VarCensus
