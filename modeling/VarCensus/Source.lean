import VarCensus.Text.Blank
import VarCensus.Lexicon

/-!
# Source text as bytes

Every position in this library is a byte offset in the UTF-8 form of a text, so a source is kept as its
bytes. Reading past the end is not an error: `byte?` answers `none` there and `slice` answers the empty
text, also for a range that cuts a character in two. The scanning modules therefore never have to ask
whether a position is valid before they look at it.

`skipWhile` is the one forward loop here; the other forward searches (`lineEnd`, `identEnd?`,
`skipInlineSpace`) are uses of it, and its three lemmas are what later termination arguments rest on.
-/

namespace VarCensus

/-- A source text, as its UTF-8 bytes. -/
structure Source where
  bytes : Array UInt8
deriving DecidableEq, Inhabited

namespace Source

/-- The source of a text. -/
def ofString (text : String) : Source :=
  ⟨text.toUTF8.data⟩

/-- The number of bytes. -/
def size (src : Source) : Nat :=
  src.bytes.size

/-- The byte at a position, if the position is inside the source. -/
def byte? (src : Source) (pos : Nat) : Option UInt8 :=
  src.bytes[pos]?

/-- The byte right before a position. -/
def byteBefore? (src : Source) : Nat → Option UInt8
  | 0 => none
  | pos + 1 => src.byte? pos

/-- The text between two positions; empty when the range is reversed, leaves the source or cuts a
character in two. -/
def slice (src : Source) (first last : Nat) : String :=
  if first ≤ last ∧ last ≤ src.size then
    (String.fromUTF8? ⟨src.bytes.extract first last⟩).getD ""
  else ""

/-- Whether the given bytes stand at a position. -/
def startsWith (src : Source) (pos : Nat) : List UInt8 → Bool
  | [] => pos ≤ src.size
  | b :: rest => src.byte? pos == some b && src.startsWith (pos + 1) rest

theorem byte?_eq_some_lt {src : Source} {pos : Nat} {b : UInt8} (h : src.byte? pos = some b) :
    pos < src.size := by
  unfold byte? at h
  exact (Array.getElem?_eq_some_iff.mp h).1

theorem byte?_isSome_iff {src : Source} {pos : Nat} : (src.byte? pos).isSome ↔ pos < src.size := by
  simp [byte?, size]

theorem startsWith_le {src : Source} {pattern : List UInt8} :
    ∀ {pos : Nat}, src.startsWith pos pattern = true → pos + pattern.length ≤ src.size := by
  induction pattern with
  | nil => intro pos h; simpa [startsWith] using h
  | cons b rest ih =>
    intro pos h
    simp only [startsWith, Bool.and_eq_true] at h
    have := ih h.2
    simp only [List.length_cons]
    omega

/-! ## Forward searches -/

/-- The first position at or after `pos` whose byte fails the test, or the end. -/
def skipWhile (src : Source) (test : UInt8 → Bool) (pos : Nat) : Nat :=
  if h : pos < src.bytes.size then
    if test src.bytes[pos] then src.skipWhile test (pos + 1) else pos
  else pos
termination_by src.bytes.size - pos

theorem le_skipWhile (src : Source) (test : UInt8 → Bool) (pos : Nat) :
    pos ≤ src.skipWhile test pos := by
  fun_induction skipWhile src test pos with
  | case1 pos _ _ ih => omega
  | case2 => exact Nat.le_refl _
  | case3 => exact Nat.le_refl _

theorem skipWhile_le (src : Source) (test : UInt8 → Bool) (pos : Nat) (h : pos ≤ src.size) :
    src.skipWhile test pos ≤ src.size := by
  fun_induction skipWhile src test pos with
  | case1 pos h' _ ih => exact ih (by unfold size; omega)
  | case2 => exact h
  | case3 => exact h

theorem lt_skipWhile {src : Source} (test : UInt8 → Bool) {pos : Nat} {b : UInt8}
    (h : src.byte? pos = some b) (ht : test b = true) : pos < src.skipWhile test pos := by
  have hlt : pos < src.bytes.size := byte?_eq_some_lt h
  have hb : src.bytes[pos] = b := by
    unfold byte? at h
    rw [Array.getElem?_eq_getElem hlt] at h
    exact Option.some.inj h
  rw [skipWhile]
  simp only [hlt, hb, ht, ↓reduceDIte, ↓reduceIte]
  have := le_skipWhile src test (pos + 1)
  omega

/-- The position of the next line feed at or after `pos`, or the end. -/
def lineEnd (src : Source) (pos : Nat) : Nat :=
  min (src.skipWhile (· != '\n'.toUInt8) pos) src.size

/-- The end of the identifier that starts at `pos`, if one does. -/
def identEnd? (src : Source) (pos : Nat) : Option Nat :=
  match src.byte? pos with
  | some b => if isIdentStart b then some (src.skipWhile isIdentByte (pos + 1)) else none
  | none => none

/-- The identifier that starts at `pos`, with its end. -/
def identAt? (src : Source) (pos : Nat) : Option (String × Nat) :=
  (src.identEnd? pos).map fun e => (src.slice pos e, e)

/-- The first position at or after `pos` that is not inline space. -/
def skipInlineSpace (src : Source) (pos : Nat) : Nat :=
  src.skipWhile isInlineSpace pos

/-- The first position at or after `pos` where the given bytes stand. -/
def find? (src : Source) (pattern : List UInt8) (pos : Nat) : Option Nat :=
  if pos < src.size then
    if src.startsWith pos pattern then some pos else src.find? pattern (pos + 1)
  else none
termination_by src.size - pos

theorem le_lineEnd {src : Source} {pos : Nat} (h : pos ≤ src.size) : pos ≤ src.lineEnd pos := by
  have := le_skipWhile src (· != '\n'.toUInt8) pos
  unfold lineEnd
  omega

theorem lineEnd_le (src : Source) (pos : Nat) : src.lineEnd pos ≤ src.size :=
  Nat.min_le_right _ _

theorem lt_lineEnd {src : Source} {pos : Nat} {b : UInt8} (h : src.byte? pos = some b)
    (hb : b ≠ '\n'.toUInt8) : pos < src.lineEnd pos := by
  have h1 := lt_skipWhile (· != '\n'.toUInt8) h (by simpa using hb)
  have h2 := byte?_eq_some_lt h
  unfold lineEnd
  omega

theorem identEnd?_bounds {src : Source} {pos e : Nat} (h : src.identEnd? pos = some e) :
    pos < e ∧ e ≤ src.size := by
  unfold identEnd? at h
  split at h
  · next b hb =>
    split at h
    · cases h
      have h1 := le_skipWhile src isIdentByte (pos + 1)
      have h2 := skipWhile_le src isIdentByte (pos + 1) (byte?_eq_some_lt hb)
      omega
    · cases h
  · cases h

theorem identAt?_bounds {src : Source} {pos e : Nat} {name : String}
    (h : src.identAt? pos = some (name, e)) : pos < e ∧ e ≤ src.size := by
  unfold identAt? at h
  obtain ⟨e', he, heq⟩ := Option.map_eq_some_iff.mp h
  cases heq
  exact identEnd?_bounds he

theorem le_skipInlineSpace (src : Source) (pos : Nat) : pos ≤ src.skipInlineSpace pos :=
  le_skipWhile src _ pos

theorem find?_bounds {src : Source} {pattern : List UInt8} {pos i : Nat}
    (h : src.find? pattern pos = some i) : pos ≤ i ∧ i + pattern.length ≤ src.size := by
  fun_induction find? src pattern pos with
  | case1 pos _ hs => cases h; exact ⟨Nat.le_refl _, startsWith_le hs⟩
  | case2 pos _ _ ih => have := ih h; omega
  | case3 => cases h

/-! ## Backward searches -/

/-- The start of the line that holds position `pos`, for a position inside the source. -/
def lineStartBelow (src : Source) : Nat → Nat
  | 0 => 0
  | pos + 1 => if src.byte? pos == some '\n'.toUInt8 then pos + 1 else src.lineStartBelow pos

/-- The start of the line that holds `pos`; positions past the end count as the end. -/
def lineStart (src : Source) (pos : Nat) : Nat :=
  src.lineStartBelow (min pos src.size)

/-- The width of the inline space that opens the line that holds `pos`. -/
def indentation (src : Source) (pos : Nat) : Nat :=
  src.skipInlineSpace (src.lineStart pos) - src.lineStart pos

/-- Whether only blanks stand between the last line feed and `pos`. -/
def atLineStart (src : Source) : Nat → Bool
  | 0 => true
  | pos + 1 =>
    match src.byte? pos with
    | some b => b == '\n'.toUInt8 || (isAsciiBlank b && src.atLineStart pos)
    | none => src.atLineStart pos

/-- Whether the equals sign at `pos` is a plain assignment: no second one follows, and no operator
byte stands before it. -/
def isLoneEquals (src : Source) (pos : Nat) : Bool :=
  src.byte? pos == some '='.toUInt8 &&
    src.byte? (pos + 1) != some '='.toUInt8 &&
    !(src.byteBefore? pos).any isOperatorByte

end Source
end VarCensus
