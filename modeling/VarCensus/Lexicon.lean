/-!
# Surface rules of a language

A `Lexicon` says just enough about a language to step over its comments, its literals and its line
continuations. It is data: the scanning functions of `VarCensus.Source` take one as an argument, and the
three languages that are scanned without a grammar are three values of it.

The comment rules come as one of two styles rather than as free text. Every opener then is non-empty and
holds no line feed, so stepping over a comment always moves forward, for every lexicon.
-/

namespace VarCensus

/-- How comments are written. -/
inductive CommentStyle where
  /-- From `#` to the end of the line. -/
  | hash
  /-- From `//` to the end of the line, and between `/*` and `*/`. -/
  | slash
deriving DecidableEq, Repr

/-- The surface rules of one language. -/
structure Lexicon where
  comments : CommentStyle
  /-- A literal may open with three quotes and then span lines. -/
  tripleQuotes : Bool
  /-- `R"mark(` opens a literal that ends at `)mark"`. -/
  rawStrings : Bool
  /-- A single quote after a hexadecimal digit separates digits and opens no literal. -/
  digitSeparators : Bool
  /-- A line that opens with `#` is a directive and is skipped. -/
  directives : Bool
  /-- A backslash before a line feed joins two lines. -/
  continuations : Bool
deriving DecidableEq, Repr

namespace Lexicon

def python : Lexicon :=
  ⟨.hash, true, false, false, false, true⟩

def java : Lexicon :=
  ⟨.slash, true, false, false, false, false⟩

def cpp : Lexicon :=
  ⟨.slash, false, true, true, true, true⟩

end Lexicon

/-! ## Classes of bytes

Identifier bytes are the ASCII word characters and every byte of a character outside ASCII, so that an
identifier never ends inside a character. -/

def isAsciiDigit (b : UInt8) : Bool :=
  '0'.toUInt8 ≤ b && b ≤ '9'.toUInt8

def isAsciiUpper (b : UInt8) : Bool :=
  'A'.toUInt8 ≤ b && b ≤ 'Z'.toUInt8

def isAsciiLower (b : UInt8) : Bool :=
  'a'.toUInt8 ≤ b && b ≤ 'z'.toUInt8

def isHexDigit (b : UInt8) : Bool :=
  isAsciiDigit b || ('A'.toUInt8 ≤ b && b ≤ 'F'.toUInt8) || ('a'.toUInt8 ≤ b && b ≤ 'f'.toUInt8)

/-- A byte that may open an identifier. -/
def isIdentStart (b : UInt8) : Bool :=
  isAsciiUpper b || isAsciiLower b || b == '_'.toUInt8 || 0x80 ≤ b

/-- A byte that may stand in an identifier. -/
def isIdentByte (b : UInt8) : Bool :=
  isIdentStart b || isAsciiDigit b

/-- The five ASCII blanks: tab, line feed, form feed, carriage return and space. -/
def isAsciiBlank (b : UInt8) : Bool :=
  b == 0x09 || b == 0x0A || b == 0x0C || b == 0x0D || b == 0x20

/-- An ASCII blank that stays on its line. -/
def isInlineSpace (b : UInt8) : Bool :=
  b == 0x20 || b == 0x09 || b == 0x0D || b == 0x0C

/-- A byte that, right before an equals sign, makes it part of a longer operator. -/
def isOperatorByte (b : UInt8) : Bool :=
  ['=', '!', '<', '>', ':', '+', '-', '*', '/', '%', '&', '|', '^', '@', '~'].any (·.toUInt8 == b)

/-- The closing bracket of an opening one. -/
def closerOf? (b : UInt8) : Option UInt8 :=
  if b == '('.toUInt8 then some ')'.toUInt8
  else if b == '['.toUInt8 then some ']'.toUInt8
  else if b == '\x7b'.toUInt8 then some '\x7d'.toUInt8
  else none

/-- Whether a byte is a closing bracket. -/
def isCloser (b : UInt8) : Bool :=
  b == ')'.toUInt8 || b == ']'.toUInt8 || b == '\x7d'.toUInt8

end VarCensus
