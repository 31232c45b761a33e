/-!
# Writing TOML

Strings, keys and arrays as they are written. A string takes the plainest form that can hold it: double
quotes while nothing in it needs an escape, single quotes for a text with double quotes or backslashes, three
quotes for a text with both kinds of quotes or with line ends, and escapes only where no other form will do.
-/

namespace VarCensus
namespace Toml

/-! ## What a text asks of its quotes -/

/-- The length of the longest run of a character, the run read so far given. -/
def longestRun (c : Char) (run : Nat) : List Char → Nat
  | [] => run
  | d :: rest => if d == c then longestRun c (run + 1) rest else max run (longestRun c 0 rest)

/-- A control character that cannot be written as itself; tabs and line feeds are none. -/
def needsCode (c : Char) : Bool :=
  (c.toNat < 0x20 && c != '\t' && c != '\n') || c.toNat == 0x7F

/-- The four upper-case hexadecimal digits of a control character. -/
def codeDigits (c : Char) : List Char :=
  let digits := (Nat.toDigits 16 c.toNat).map Char.toUpper
  List.replicate (4 - digits.length) '0' ++ digits

/-- A character behind a backslash, where it has to be. -/
def escapedChar (c : Char) : List Char :=
  match c with
  | '\t' => ['\\', 't']
  | '\r' => ['\\', 'r']
  | '\\' => ['\\', '\\']
  | c =>
    if c.toNat == 0x08 then ['\\', 'b']
    else if c.toNat == 0x0C then ['\\', 'f']
    else if needsCode c then ['\\', 'u'] ++ codeDigits c
    else [c]

/-- The inside of a string in double quotes. `long` tells that there are three of them: then line feeds stand
as they are, and only every third quote in a row needs a backslash. `run` counts the quotes just written. -/
def basicText (long : Bool) (run : Nat) : List Char → List Char
  | [] => []
  | '"' :: rest =>
    if (if long then 2 else 0) < run + 1 then '\\' :: '"' :: basicText long 0 rest
    else '"' :: basicText long (run + 1) rest
  | '\n' :: rest => (if long then ['\n'] else ['\\', 'n']) ++ basicText long 0 rest
  | c :: rest => escapedChar c ++ basicText long 0 rest

/-- A text between quotes, with a line end behind the opening ones where the text itself has line ends. -/
def enclosed (quotes : List Char) (long : Bool) (text inside : List Char) : List Char :=
  quotes ++ (if long && text.contains '\n' then ['\n'] else []) ++ inside ++ quotes

def basic (text : List Char) : List Char :=
  enclosed ['"'] false text (basicText false 0 text)

def longBasic (text : List Char) : List Char :=
  enclosed ['"', '"', '"'] true text (basicText true 0 text)

def literal (text : List Char) : List Char :=
  enclosed ['\''] false text text

def longLiteral (text : List Char) : List Char :=
  enclosed ['\'', '\'', '\''] true text text

/-! ## The plainest form -/

/-- Whether a text can stand in double quotes without a backslash. -/
def isPlain (text : List Char) : Bool :=
  !text.any fun c => needsCode c || c == '\\' || c == '"' || c == '\n'

/-- Whether a text can stand in single quotes. -/
def isLiteral (text : List Char) : Bool :=
  !text.any fun c => needsCode c || c == '\'' || c == '\n'

/-- The written form of a string. -/
def writeString (s : String) : String :=
  let text := s.toList
  let hasCodes := text.any needsCode
  String.ofList <|
    if isPlain text then basic text
    else if isLiteral text then literal text
    else if !hasCodes && !text.contains '\\' && longestRun '"' 0 text ≤ 2 then longBasic text
    else if !hasCodes && longestRun '\'' 0 text ≤ 2 then longLiteral text
    else if text.contains '\n' then longBasic text
    else basic text

/-- Whether a key needs no quotes. -/
def isBareKey (text : List Char) : Bool :=
  !text.isEmpty && text.all fun c => c.isAlphanum || c == '_' || c == '-'

/-- The written form of a key. -/
def writeKey (s : String) : String :=
  let text := s.toList
  String.ofList <|
    if isBareKey text then text
    else if isPlain text then basic text
    else if isLiteral text then literal text
    else basic text

/-- The written form of an array: on one line with fewer than two items, else one item to a line. -/
def writeArray (items : List String) : String :=
  match items with
  | [] => "[]"
  | [item] => "[" ++ item ++ "]"
  | _ => "[\n" ++ String.join (items.map fun item => "    " ++ item ++ ",\n") ++ "]"

end Toml
end VarCensus
