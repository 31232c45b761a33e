import VarCensus.Source.Piece

/-!
# The text of a value

`codeText` reads a range of a source as the text of a value: literals are kept as they are, and each
comment, and each backslash that joins two lines, becomes one space. Collapsing the result then gives the
form in which values are recorded.
-/

namespace VarCensus
namespace Source

/-- Whether a backslash at `pos` stands before a line end. -/
def joinsLines (lex : Lexicon) (src : Source) (pos : Nat) : Bool :=
  lex.continuations && src.byte? pos == some '\\'.toUInt8 &&
    (src.byte? (pos + 1) == some '\n'.toUInt8 || src.byte? (pos + 1) == some '\r'.toUInt8)

/-- If the text of a value leaves something out at `pos`, the position just past it. -/
def blankedEnd? (lex : Lexicon) (src : Source) (pos : Nat) : Option Nat :=
  match src.commentEnd? lex pos with
  | some e => some e
  | none => if src.joinsLines lex pos then some (pos + 1) else none

theorem lt_blankedEnd? {lex : Lexicon} {src : Source} {pos e : Nat}
    (h : src.blankedEnd? lex pos = some e) : pos < e := by
  unfold blankedEnd? at h
  split at h
  · next hc => cases h; exact (commentEnd?_bounds hc).1
  · split at h
    · cases h; omega
    · cases h

/-- The text of a value up to `stop`, in the middle: `chunk` is where the text not yet copied starts,
and the bytes before `pos` have been looked at. -/
def codeTextFrom (lex : Lexicon) (src : Source) (stop chunk pos : Nat) : String :=
  if _hp : pos < stop then
    match _hl : src.literalEnd? lex pos with
    | some e => src.codeTextFrom lex stop chunk e
    | none =>
      match _hb : src.blankedEnd? lex pos with
      | some e => src.slice chunk pos ++ " " ++ src.codeTextFrom lex stop (min e stop) (min e stop)
      | none => src.codeTextFrom lex stop chunk (pos + 1)
  else src.slice chunk (max stop chunk)
termination_by stop - pos
decreasing_by
  · have := literalEnd?_bounds _hl
    omega
  · have := lt_blankedEnd? _hb
    omega
  · omega

/-- The text between two positions with every comment and every joined line end blanked out. -/
def codeText (lex : Lexicon) (src : Source) (start stop : Nat) : String :=
  src.codeTextFrom lex stop start start

end Source
end VarCensus
