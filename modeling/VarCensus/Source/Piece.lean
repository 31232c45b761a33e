import VarCensus.Source

/-!
# Comments, literals and other pieces of a source

What a scan steps over in one go: a whole comment, a whole literal, a joined line end, or else a single
byte. `pieceAt?` puts the four in that order. Each has a lemma that says it moves forward and stays inside
the source; every loop over a source in this library ends because of them, whatever the text.

A comment opener is never a quote, so the order of the first two does not matter.
-/

namespace VarCensus
namespace Source

/-! ## Comments -/

/-- If a comment starts at `pos`, the position just past it. A line comment ends before its line feed;
a block comment that is never closed ends with the source. -/
def commentEnd? (lex : Lexicon) (src : Source) (pos : Nat) : Option Nat :=
  match lex.comments with
  | .hash =>
    if src.startsWith pos ['#'.toUInt8] then some (src.lineEnd pos) else none
  | .slash =>
    if src.startsWith pos ['/'.toUInt8, '/'.toUInt8] then some (src.lineEnd pos)
    else if src.startsWith pos ['/'.toUInt8, '*'.toUInt8] then
      match src.find? ['*'.toUInt8, '/'.toUInt8] (pos + 2) with
      | some i => some (i + 2)
      | none => some src.size
    else none

theorem startsWith_cons {src : Source} {pos : Nat} {b : UInt8} {rest : List UInt8}
    (h : src.startsWith pos (b :: rest) = true) : src.byte? pos = some b := by
  simp only [startsWith, Bool.and_eq_true, beq_iff_eq] at h
  exact h.1

theorem commentEnd?_bounds {lex : Lexicon} {src : Source} {pos e : Nat}
    (h : src.commentEnd? lex pos = some e) : pos < e ∧ e ≤ src.size := by
  unfold commentEnd? at h
  split at h
  · split at h
    · next hs =>
      cases h
      exact ⟨lt_lineEnd (startsWith_cons hs) (by decide), lineEnd_le _ _⟩
    · cases h
  · split at h
    · next hs =>
      cases h
      exact ⟨lt_lineEnd (startsWith_cons hs) (by decide), lineEnd_le _ _⟩
    · split at h
      · next hs =>
        have hle := startsWith_le hs
        simp only [List.length_cons, List.length_nil] at hle
        split at h
        · next i hi =>
          cases h
          have := find?_bounds hi
          simp only [List.length_cons, List.length_nil] at this
          omega
        · cases h; omega
      · cases h

/-! ## Literals -/

/-- The end of a one-line literal whose body is read from `pos`: past the closing quote, at a line
feed, or at the end. A backslash takes the next byte with it. -/
def quotedEnd (src : Source) (quote : UInt8) (pos : Nat) : Nat :=
  if h : pos < src.bytes.size then
    if src.bytes[pos] == '\\'.toUInt8 then src.quotedEnd quote (pos + 2)
    else if src.bytes[pos] == '\n'.toUInt8 then pos
    else if src.bytes[pos] == quote then pos + 1
    else src.quotedEnd quote (pos + 1)
  else src.bytes.size
termination_by src.bytes.size - pos

/-- The end of a literal in three quotes whose body is read from `pos`. -/
def tripleQuotedEnd (src : Source) (quote : UInt8) (pos : Nat) : Nat :=
  if h : pos < src.bytes.size then
    if src.bytes[pos] == '\\'.toUInt8 then src.tripleQuotedEnd quote (pos + 2)
    else if src.startsWith pos [quote, quote, quote] then pos + 3
    else src.tripleQuotedEnd quote (pos + 1)
  else src.bytes.size
termination_by src.bytes.size - pos

theorem quotedEnd_bounds (src : Source) (quote : UInt8) (pos : Nat) :
    min pos src.size ≤ src.quotedEnd quote pos ∧ src.quotedEnd quote pos ≤ src.size := by
  unfold size
  fun_induction quotedEnd src quote pos <;> omega

theorem tripleQuotedEnd_bounds (src : Source) (quote : UInt8) (pos : Nat) :
    min pos src.size ≤ src.tripleQuotedEnd quote pos ∧ src.tripleQuotedEnd quote pos ≤ src.size := by
  fun_induction tripleQuotedEnd src quote pos with
  | case1 => unfold size at *; omega
  | case2 pos h _ hs =>
    have := startsWith_le hs
    simp only [List.length_cons, List.length_nil] at this
    omega
  | case3 => unfold size at *; omega
  | case4 => unfold size at *; omega

/-- The length of the mark of a raw literal: the distance from the byte after the quote to the first
parenthesis, which has to be one of the first seventeen bytes. -/
def rawMarkLength? (src : Source) (pos : Nat) : Option Nat :=
  ((src.bytes.extract pos (pos + 17)).toList.findIdx? (· == '('.toUInt8))

/-- The end of the raw literal whose quote stands at `pos`, if its mark is well formed. -/
def rawStringEnd? (src : Source) (pos : Nat) : Option Nat :=
  match src.rawMarkLength? (pos + 1) with
  | none => none
  | some len =>
    let mark := src.slice (pos + 1) (pos + 1 + len)
    if mark.toList.any fun c => Text.isBlank c || c == '\\' || c == ')' then none
    else
      let closer := ')'.toUInt8 :: mark.toUTF8.toList ++ ['"'.toUInt8]
      match src.find? closer (pos + 2 + len) with
      | some i => some (i + closer.length)
      | none => some src.size

/-- The end of the literal whose quote stands at `pos`, when it is no raw literal: in three quotes where
the lexicon knows them, else on one line. -/
def ordinaryEnd (lex : Lexicon) (src : Source) (quote : UInt8) (pos : Nat) : Nat :=
  if lex.tripleQuotes && src.startsWith pos [quote, quote, quote] then src.tripleQuotedEnd quote (pos + 3)
  else src.quotedEnd quote (pos + 1)

/-- Whether the quote at `pos` separates two digits. -/
def isDigitSeparator (lex : Lexicon) (src : Source) (quote : UInt8) (pos : Nat) : Bool :=
  quote == '\''.toUInt8 && lex.digitSeparators && (src.byteBefore? pos).any isHexDigit

/-- Whether the quote at `pos` follows the letter that marks raw literals. -/
def opensRaw (lex : Lexicon) (src : Source) (quote : UInt8) (pos : Nat) : Bool :=
  quote == '"'.toUInt8 && lex.rawStrings && src.byteBefore? pos == some 'R'.toUInt8

/-- If a string or character literal starts at `pos`, the position just past it. A raw literal whose
mark is not well formed is read as an ordinary one. -/
def literalEnd? (lex : Lexicon) (src : Source) (pos : Nat) : Option Nat :=
  match src.byte? pos with
  | none => none
  | some quote =>
    if quote != '"'.toUInt8 && quote != '\''.toUInt8 then none
    else if src.isDigitSeparator lex quote pos then none
    else if src.opensRaw lex quote pos then
      some ((src.rawStringEnd? pos).getD (src.ordinaryEnd lex quote pos))
    else some (src.ordinaryEnd lex quote pos)

theorem rawMarkLength?_lt {src : Source} {pos len : Nat} (h : src.rawMarkLength? pos = some len) :
    pos + len < src.size := by
  unfold rawMarkLength? at h
  obtain ⟨hlt, _⟩ := List.findIdx?_eq_some_iff_getElem.mp h
  simp only [Array.length_toList, Array.size_extract] at hlt
  unfold size
  omega

theorem rawStringEnd?_bounds {src : Source} {pos e : Nat} (h : src.rawStringEnd? pos = some e) :
    pos < e ∧ e ≤ src.size := by
  unfold rawStringEnd? at h
  split at h
  · cases h
  · next len hlen =>
    have hlt := rawMarkLength?_lt hlen
    simp only at h
    split at h
    · cases h
    · split at h
      · next i hi =>
        cases h
        have := find?_bounds hi
        omega
      · cases h; omega

theorem ordinaryEnd_bounds (lex : Lexicon) {src : Source} (quote : UInt8) {pos : Nat}
    (h : pos < src.size) :
    pos < src.ordinaryEnd lex quote pos ∧ src.ordinaryEnd lex quote pos ≤ src.size := by
  unfold ordinaryEnd
  split
  · next ht =>
    simp only [Bool.and_eq_true] at ht
    have hle := startsWith_le ht.2
    have hb := tripleQuotedEnd_bounds src quote (pos + 3)
    simp only [List.length_cons, List.length_nil] at hle
    omega
  · have hb := quotedEnd_bounds src quote (pos + 1)
    omega

theorem literalEnd?_bounds {lex : Lexicon} {src : Source} {pos e : Nat}
    (h : src.literalEnd? lex pos = some e) : pos < e ∧ e ≤ src.size := by
  unfold literalEnd? at h
  split at h
  · cases h
  · next quote hq =>
    have hlt := byte?_eq_some_lt hq
    have hord := ordinaryEnd_bounds lex quote hlt
    split at h
    · cases h
    · split at h
      · cases h
      · split at h
        · cases h
          cases hraw : src.rawStringEnd? pos with
          | none => simpa using hord
          | some e' => simpa using rawStringEnd?_bounds hraw
        · cases h; exact hord

/-! ## Pieces -/

/-- If a backslash at `pos` joins two lines, the position after the line feed that it hides. -/
def continuationEnd? (lex : Lexicon) (src : Source) (pos : Nat) : Option Nat :=
  if lex.continuations && src.byte? pos == some '\\'.toUInt8 then
    if src.startsWith (pos + 1) ['\r'.toUInt8, '\n'.toUInt8] then some (pos + 3)
    else if src.byte? (pos + 1) == some '\n'.toUInt8 then some (pos + 2)
    else none
  else none

theorem continuationEnd?_bounds {lex : Lexicon} {src : Source} {pos e : Nat}
    (h : src.continuationEnd? lex pos = some e) : pos < e ∧ e ≤ src.size := by
  unfold continuationEnd? at h
  split at h
  · split at h
    · next hs =>
      cases h
      have := startsWith_le hs
      simp only [List.length_cons, List.length_nil] at this
      omega
    · split at h
      · next hb =>
        cases h
        have := byte?_eq_some_lt (beq_iff_eq.mp hb)
        omega
      · cases h
  · cases h

/-- What stands at one position of a source. -/
inductive Piece where
  /-- A comment that ends before the given position. -/
  | comment (stop : Nat)
  /-- A literal that ends before the given position. -/
  | literal (stop : Nat)
  /-- A joined line end that ends before the given position. -/
  | continuation (stop : Nat)
  /-- Any other byte. -/
  | byte (value : UInt8)
deriving DecidableEq, Repr

/-- The position after a piece that starts at `pos`. -/
def Piece.stop (pos : Nat) : Piece → Nat
  | .comment e => e
  | .literal e => e
  | .continuation e => e
  | .byte _ => pos + 1

/-- The piece that starts at `pos`; none at the end of the source. -/
def pieceAt? (lex : Lexicon) (src : Source) (pos : Nat) : Option Piece :=
  match src.byte? pos with
  | none => none
  | some b =>
    match src.commentEnd? lex pos with
    | some e => some (.comment e)
    | none =>
      match src.literalEnd? lex pos with
      | some e => some (.literal e)
      | none =>
        match src.continuationEnd? lex pos with
        | some e => some (.continuation e)
        | none => some (.byte b)

theorem pieceAt?_bounds {lex : Lexicon} {src : Source} {pos : Nat} {piece : Piece}
    (h : src.pieceAt? lex pos = some piece) : pos < piece.stop pos ∧ piece.stop pos ≤ src.size := by
  unfold pieceAt? at h
  split at h
  · cases h
  · next b hb =>
    have hlt := byte?_eq_some_lt hb
    split at h
    · next hc => cases h; exact commentEnd?_bounds hc
    · split at h
      · next hl => cases h; exact literalEnd?_bounds hl
      · split at h
        · next hj => cases h; exact continuationEnd?_bounds hj
        · cases h; simp only [Piece.stop]; omega

/-- If a comment or a literal starts at `pos`, the position just past it. -/
def enclosedEnd? (lex : Lexicon) (src : Source) (pos : Nat) : Option Nat :=
  match src.commentEnd? lex pos with
  | some e => some e
  | none => src.literalEnd? lex pos

theorem enclosedEnd?_bounds {lex : Lexicon} {src : Source} {pos e : Nat}
    (h : src.enclosedEnd? lex pos = some e) : pos < e ∧ e ≤ src.size := by
  unfold enclosedEnd? at h
  split at h
  · next hc => cases h; exact commentEnd?_bounds hc
  · exact literalEnd?_bounds h

end Source
end VarCensus
