import VarCensus.Source

/-!
# Places in a source

A `Location` names a position three times: by line, by column in bytes (both from one) and by byte
offset. `Location.atOffset` reads it off the text in front of the position; `LineIndex` reads it off a
table of line starts that is made once per source. The first clamps an offset that lies past the end, the
second counts on.
-/

namespace VarCensus

/-- A place in a source. -/
structure Location where
  /-- From one. -/
  line : Nat
  /-- In bytes, from one. -/
  column : Nat
  /-- In bytes from the start of the source. -/
  offset : Nat
deriving DecidableEq, Repr, Inhabited

namespace Location

/-- A location as it is shown to a reader. -/
def display (loc : Location) : String :=
  s!"{loc.line}:{loc.column}"

/-- Locations in the order line, column, offset. -/
def lt (a b : Location) : Prop :=
  a.line < b.line ∨ a.line = b.line ∧ (a.column < b.column ∨ a.column = b.column ∧ a.offset < b.offset)

instance : LT Location := ⟨lt⟩

/-- The location of an offset; one past the end counts as the end. -/
def atOffset (src : Source) (offset : Nat) : Location :=
  let offset := min offset src.size
  let before := src.bytes.extract 0 offset
  ⟨(before.filter (· == '\n'.toUInt8)).size + 1, offset - src.lineStart offset + 1, offset⟩

end Location

/-- The starts of the lines of a source, in increasing order; the first line starts at zero. -/
structure LineIndex where
  starts : List Nat
deriving DecidableEq, Repr

namespace LineIndex

/-- The line starts that the bytes from position `pos` on bring. -/
def startsFrom (pos : Nat) : List UInt8 → List Nat
  | [] => []
  | b :: rest => if b == '\n'.toUInt8 then (pos + 1) :: startsFrom (pos + 1) rest else startsFrom (pos + 1) rest

/-- The line index of a source. -/
def ofSource (src : Source) : LineIndex :=
  ⟨0 :: startsFrom 0 src.bytes.toList⟩

/-- The location of an offset: its line is the last one that starts at or before it. -/
def location (index : LineIndex) (offset : Nat) : Location :=
  let before := index.starts.takeWhile (· ≤ offset)
  ⟨before.length, offset - before.getLastD 0 + 1, offset⟩

end LineIndex
end VarCensus
