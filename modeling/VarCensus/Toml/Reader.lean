import VarCensus.Toml.Scalar
import VarCensus.Toml.Value

/-!
# Reading TOML

A document is read line by line: a header, a key with its value, or nothing but a comment. Every reader takes
the characters that are left and gives back what it read with the characters after it, or nothing when the
text is not well formed; no reason is given.

The readers of values call each other, for arrays and inline tables hold values. They count down a number
that is larger than the text is long, and each call takes at least one character of the text, so the count
never runs out; `parse?` sets it.
-/

namespace VarCensus
namespace Toml

/-- A reader of something at the front of a text. -/
abbrev Reader (α : Type) := List Char → Option (α × List Char)

/-! ## Blanks and comments -/

def isSpace (c : Char) : Bool :=
  c == ' ' || c == '\t'

/-- A text without the spaces and tabs in front. -/
def skipSpace (cs : List Char) : List Char :=
  cs.dropWhile isSpace

/-- A character that may stand in a comment or a literal string. -/
def isTextChar (c : Char) : Bool :=
  c == '\t' || (0x20 ≤ c.toNat && c.toNat != 0x7F)

/-- What follows the blanks, line ends and comments in front of a text. -/
def skipFiller (inComment : Bool) : List Char → Option (List Char)
  | [] => some []
  | '\n' :: rest => skipFiller false rest
  | '\r' :: '\n' :: rest => skipFiller false rest
  | c :: rest =>
    if inComment then if isTextChar c then skipFiller true rest else none
    else if isSpace c then skipFiller false rest
    else if c == '#' then skipFiller true rest
    else some (c :: rest)

/-- What follows the end of a line: spaces, a comment if there is one, and then the line end or the end of
the text. -/
def lineEnd? (cs : List Char) : Option (List Char) :=
  let rest := skipSpace cs
  let rest := match rest with
    | '#' :: comment => comment.dropWhile isTextChar
    | _ => rest
  match rest with
  | [] => some []
  | '\n' :: after => some after
  | '\r' :: '\n' :: after => some after
  | _ => none

/-! ## Strings -/

/-- Puts a character in front of what a reader read. -/
def before (c : Char) (read : Option (List Char × List Char)) : Option (List Char × List Char) :=
  read.map fun (text, rest) => (c :: text, rest)

/-- The character that a code of hexadecimal digits names. -/
def unicode? (digits : List Char) : Option Char :=
  if digits.all isHex then
    let n := numberOf 16 digits
    if n.isValidChar then some (Char.ofNat n) else none
  else none

/-- The character that a letter after a backslash names. -/
def escaped? (c : Char) : Option Char :=
  match c with
  | 'b' => some '\x08'
  | 't' => some '\t'
  | 'n' => some '\n'
  | 'f' => some '\x0c'
  | 'r' => some '\r'
  | '"' => some '"'
  | '\\' => some '\\'
  | _ => none

/-- The rest of a string in double quotes. -/
def basicBody : List Char → Option (List Char × List Char)
  | [] => none
  | '"' :: rest => some ([], rest)
  | '\\' :: 'u' :: a :: b :: c :: d :: rest =>
    match unicode? [a, b, c, d] with
    | some u => before u (basicBody rest)
    | none => none
  | '\\' :: 'U' :: a :: b :: c :: d :: e :: f :: g :: h :: rest =>
    match unicode? [a, b, c, d, e, f, g, h] with
    | some u => before u (basicBody rest)
    | none => none
  | '\\' :: c :: rest =>
    match escaped? c with
    | some u => before u (basicBody rest)
    | none => none
  | '\\' :: [] => none
  | c :: rest => if isTextChar c then before c (basicBody rest) else none

/-- Whether nothing but blanks stands before the end of the line. -/
def endsLine (cs : List Char) : Bool :=
  match skipSpace cs with
  | '\n' :: _ => true
  | '\r' :: '\n' :: _ => true
  | _ => false

/-- The rest of a string in three double quotes. While `skipping`, blanks and line ends are passed over, as a
backslash at the end of a line asks for. -/
def longBasicBody (skipping : Bool) : List Char → Option (List Char × List Char)
  | [] => none
  | '"' :: '"' :: '"' :: '"' :: '"' :: rest => some (['"', '"'], rest)
  | '"' :: '"' :: '"' :: '"' :: rest => some (['"'], rest)
  | '"' :: '"' :: '"' :: rest => some ([], rest)
  | '\\' :: 'u' :: a :: b :: c :: d :: rest =>
    match unicode? [a, b, c, d] with
    | some u => before u (longBasicBody false rest)
    | none => none
  | '\\' :: 'U' :: a :: b :: c :: d :: e :: f :: g :: h :: rest =>
    match unicode? [a, b, c, d, e, f, g, h] with
    | some u => before u (longBasicBody false rest)
    | none => none
  | '\\' :: c :: rest =>
    match escaped? c with
    | some u => before u (longBasicBody false rest)
    | none => if endsLine (c :: rest) then longBasicBody true (c :: rest) else none
  | '\r' :: '\n' :: rest =>
    if skipping then longBasicBody true rest else before '\n' (longBasicBody false rest)
  | '\n' :: rest =>
    if skipping then longBasicBody true rest else before '\n' (longBasicBody false rest)
  | c :: rest =>
    if skipping && isSpace c then longBasicBody true rest
    else if c == '"' || (isTextChar c && c != '\\') then before c (longBasicBody false rest)
    else none

/-- The rest of a string in single quotes. -/
def literalBody : List Char → Option (List Char × List Char)
  | [] => none
  | '\'' :: rest => some ([], rest)
  | c :: rest => if isTextChar c then before c (literalBody rest) else none

/-- The rest of a string in three single quotes. -/
def longLiteralBody : List Char → Option (List Char × List Char)
  | [] => none
  | '\'' :: '\'' :: '\'' :: '\'' :: '\'' :: rest => some (['\'', '\''], rest)
  | '\'' :: '\'' :: '\'' :: '\'' :: rest => some (['\''], rest)
  | '\'' :: '\'' :: '\'' :: rest => some ([], rest)
  | '\r' :: '\n' :: rest => before '\n' (longLiteralBody rest)
  | '\n' :: rest => before '\n' (longLiteralBody rest)
  | c :: rest => if isTextChar c then before c (longLiteralBody rest) else none

/-- A text without one line end in front. -/
def dropLineEnd : List Char → List Char
  | '\n' :: rest => rest
  | '\r' :: '\n' :: rest => rest
  | cs => cs

/-- A string on one line, in either kind of quotes. -/
def shortString? : Reader (List Char)
  | '"' :: rest => basicBody rest
  | '\'' :: rest => literalBody rest
  | _ => none

/-- A string of any kind. -/
def string? : Reader (List Char)
  | '"' :: '"' :: '"' :: rest => longBasicBody false (dropLineEnd rest)
  | '\'' :: '\'' :: '\'' :: rest => longLiteralBody (dropLineEnd rest)
  | cs => shortString? cs

/-! ## Keys -/

/-- A character of a key that needs no quotes. -/
def isBareKeyChar (c : Char) : Bool :=
  c.isAlphanum || c == '_' || c == '-'

/-- One step of a key. -/
def simpleKey? (cs : List Char) : Option (String × List Char) :=
  match cs with
  | [] => none
  | c :: _ =>
    if isBareKeyChar c then some (String.ofList (cs.takeWhile isBareKeyChar), cs.dropWhile isBareKeyChar)
    else (shortString? cs).map fun (text, rest) => (String.ofList text, rest)

/-- A key with all its steps, and the spaces around them. -/
def key? : Nat → Reader (List String)
  | 0, _ => none
  | count + 1, cs =>
    match simpleKey? (skipSpace cs) with
    | none => none
    | some (step, rest) =>
      match skipSpace rest with
      | '.' :: more => (key? count more).map fun (steps, rest) => (step :: steps, rest)
      | after => some ([step], after)

/-! ## Values -/

/-- The value that a word is. -/
def scalar? (word : List Char) : Option Value :=
  if word == "true".toList then some (.boolean true)
  else if word == "false".toList then some (.boolean false)
  else match integer? word with
    | some n => some (.integer n)
    | none =>
      if isFloat word then some .float
      else if isDatetime word then some .datetime
      else none

/-- A scalar that is no string. A date may have a time behind a space. -/
def scalarWord? (cs : List Char) : Option (Value × List Char) :=
  let word := cs.takeWhile isWordChar
  let rest := cs.drop word.length
  match scalar? word with
  | none => none
  | some value =>
    match rest with
    | ' ' :: more =>
      let time := more.takeWhile isWordChar
      if isDate word && isTimeWithOffset time then some (.datetime, more.drop time.length)
      else some (value, rest)
    | _ => some (value, rest)

mutual

/-- A value. -/
def value? : Nat → Reader Value
  | 0, _ => none
  | count + 1, cs =>
    match cs with
    | '[' :: rest => (items? count rest).map fun (items, rest) => (.array items, rest)
    | '\x7b' :: rest =>
      match skipSpace rest with
      | '\x7d' :: after => some (.inline [], after)
      | _ => (pairs? count [] rest).map fun (entries, rest) => (.inline entries, rest)
    | c :: _ =>
      if c == '"' || c == '\'' then (string? cs).map fun (text, rest) => (.string (String.ofList text), rest)
      else scalarWord? cs
    | [] => none

/-- The items of an array, from the opening bracket or a comma to the closing bracket. -/
def items? : Nat → Reader (List Value)
  | 0, _ => none
  | count + 1, cs =>
    match skipFiller false cs with
    | none => none
    | some (']' :: rest) => some ([], rest)
    | some start =>
      match value? count start with
      | none => none
      | some (item, rest) =>
        match skipFiller false rest with
        | some (',' :: rest) => (items? count rest).map fun (items, rest) => (item :: items, rest)
        | some (']' :: rest) => some ([item], rest)
        | _ => none

/-- The pairs of an inline table, from the opening brace or a comma to the closing brace. -/
def pairs? : Nat → Entries → Reader Entries
  | 0, _, _ => none
  | count + 1, entries, cs =>
    match key? count cs with
    | some (path, '=' :: rest) =>
      match value? count (skipSpace rest) with
      | none => none
      | some (value, rest) =>
        match addDotted path value entries with
        | none => none
        | some entries =>
          match skipSpace rest with
          | ',' :: rest => pairs? count entries rest
          | '\x7d' :: rest => some (entries, rest)
          | _ => none
    | _ => none

end

/-! ## Documents -/

/-- The header that opens a text behind its first bracket: its path, and whether it opens a table of an
array. -/
def header? (count : Nat) (cs : List Char) : Option ((List String × Bool) × List Char) :=
  match cs with
  | '[' :: rest =>
    match key? count rest with
    | some (path, ']' :: ']' :: rest) => some ((path, true), rest)
    | _ => none
  | _ =>
    match key? count cs with
    | some (path, ']' :: rest) => some ((path, false), rest)
    | _ => none

/-- The entries of a document whose lines up to here gave `entries`, under the header `header`. -/
def document? : Nat → List String → Entries → List Char → Option Entries
  | 0, _, _, _ => none
  | count + 1, header, entries, cs =>
    match skipFiller false cs with
    | none => none
    | some [] => some entries
    | some ('[' :: rest) =>
      match header? count rest with
      | none => none
      | some ((path, isArray), rest) =>
        match if isArray then openNextTable path entries else openTable path entries with
        | none => none
        | some entries => (lineEnd? rest).bind (document? count path entries)
    | some start =>
      match key? count start with
      | some (path, '=' :: rest) =>
        match value? count (skipSpace rest) with
        | none => none
        | some (value, rest) =>
          match addUnder header path value entries with
          | none => none
          | some entries => (lineEnd? rest).bind (document? count header entries)
      | _ => none

/-- A text without a byte order mark in front. -/
def dropMark : List Char → List Char
  | c :: rest => if c.toNat == 0xFEFF then rest else c :: rest
  | [] => []

/-- The entries of a document. -/
def parse? (text : String) : Option Entries :=
  let cs := dropMark text.toList
  document? (2 * cs.length + 2) [] [] cs

end Toml
end VarCensus
