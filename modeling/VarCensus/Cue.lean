import VarCensus.Text.Blank
import VarCensus.Text.Word
import VarCensus.Kind

/-!
# Kinds read off the shape of a value

For a value of a scanned language only the text is known, so its kind is guessed from the outer shape: an
opening quote, a number, a truth value, the head of a function expression, enclosing brackets, a single
name. `kindOf` asks in that order and settles for `unknown`.

Each shape is a predicate on characters of its own. `isNumber` and the function heads read from left to
right without ever going back: at each point the next character decides which part of the shape it belongs
to.
-/

namespace VarCensus

/-- How literals are spelled. -/
inductive Spelling where
  | python
  | cLike
deriving DecidableEq, Repr

namespace Spelling

/-- The two truth values. -/
def truthValues : Spelling → List String
  | .python => ["True", "False"]
  | .cLike => ["true", "false"]

/-- Words that look like names and name no variable. -/
def notNames : Spelling → List String
  | .python => ["None", "self", "cls"]
  | .cLike => ["null", "nullptr", "NULL", "this"]

/-- The letters that may stand before an opening quote, as whole words. -/
def cLikeQuoteMarks : List String :=
  ["", "L", "u", "U", "u8", "R", "LR", "uR", "UR", "u8R"]

/-- Whether a text may stand before an opening quote. -/
def isQuoteMark (spelling : Spelling) (mark : List Char) : Bool :=
  match spelling with
  | .python => mark.length ≤ 2 && mark.all fun c => "rbuf".toList.contains c.toLower
  | .cLike => cLikeQuoteMarks.contains (String.ofList mark)

end Spelling

namespace Cue

def isQuote (c : Char) : Bool :=
  c == '"' || c == '\''

/-- The text before the first quote of a value, when such a text may open a string. -/
def quoteMark? (spelling : Spelling) (cs : List Char) : Option (List Char) :=
  let mark := cs.takeWhile (!isQuote ·)
  if mark.length < cs.length && spelling.isQuoteMark mark then some mark else none

/-! ## Numbers -/

/-- A letter that may follow the digits of a number. -/
def isNumberSuffix (c : Char) : Bool :=
  "jJlLuUfFdD".toList.contains c

/-- A character inside the digits of a number: a digit, an underscore or a single quote. -/
def isDigitPart (c : Char) : Bool :=
  Text.isDigit c || c == '_' || c == '\''

def isHexPart (c : Char) : Bool :=
  c.isDigit || ('a' ≤ c && c ≤ 'f') || ('A' ≤ c && c ≤ 'F') || c == '_' || c == '\''

/-- A text without one sign in front. -/
def dropSign : List Char → List Char
  | '+' :: rest => rest
  | '-' :: rest => rest
  | cs => cs

/-- What is left after an exponent, if one stands here: `none` when an exponent starts and has no digits. -/
def afterExponent? : List Char → Option (List Char)
  | c :: rest =>
    if c == 'e' || c == 'E' then
      let digits := dropSign rest
      if (digits.head?).any Text.isDigit then some (digits.dropWhile Text.isDigit) else none
    else some (c :: rest)
  | [] => some []

/-- What is left after a digit part that has to open with a digit. -/
def afterDigits? : List Char → Option (List Char)
  | c :: rest => if Text.isDigit c then some (rest.dropWhile isDigitPart) else none
  | [] => none

/-- What is left after the digits and the fraction of a decimal number: either may be missing, but a
point always has digits behind it. -/
def afterMantissa? : List Char → Option (List Char)
  | '.' :: rest => afterDigits? rest
  | cs =>
    match afterDigits? cs with
    | some ('.' :: rest) => afterDigits? rest
    | left => left

/-- Whether a text, its sign apart, is a decimal number. -/
def isDecimal (cs : List Char) : Bool :=
  match (afterMantissa? cs).bind afterExponent? with
  | some left => left.all isNumberSuffix
  | none => false

/-- Whether a text, its sign apart, is a number in base two, eight or sixteen. -/
def isBased : List Char → Bool
  | '0' :: base :: digits =>
    "xXbBoO".toList.contains base && (digits.head?).any isHexPart &&
      (digits.dropWhile isHexPart).all isNumberSuffix
  | _ => false

/-- Whether a text is a number. -/
def isNumber (cs : List Char) : Bool :=
  isBased (dropSign cs) || isDecimal (dropSign cs)

/-! ## Heads of function expressions -/

/-- Whether a text opens with a word that ends there. -/
def opensWithWord (word cs : List Char) : Bool :=
  word.isPrefixOf cs && Text.atWordEnd (cs.drop word.length)

/-- What follows the first closing character and the blanks behind it; `none` if there is none. -/
def afterCloser? (closer : Char) (cs : List Char) : Option (List Char) :=
  match cs.dropWhile (· != closer) with
  | _ :: rest => some (rest.dropWhile Text.isBlank)
  | [] => none

/-- Whether a text opens with an arrow. -/
def opensWithArrow (cs : List Char) : Bool :=
  ['-', '>'].isPrefixOf cs

/-- Whether a text in square brackets is the capture list of a function: parameters, a body or the word
`mutable` follow. -/
def isCaptureList (afterOpener : List Char) : Bool :=
  match afterCloser? ']' afterOpener with
  | some rest =>
    rest.head? == some '(' || rest.head? == some '\x7b' || opensWithWord "mutable".toList rest
  | none => false

/-- Whether a text opens with a name, at least one blank and an arrow. -/
def isSingleParameter (cs : List Char) : Bool :=
  match cs with
  | c :: rest =>
    let after := rest.dropWhile Text.isWord
    Text.isNameStart c && (after.head?).any Text.isBlank && opensWithArrow (after.dropWhile Text.isBlank)
  | [] => false

/-- Whether a text opens like a function expression. -/
def opensFunction (cs : List Char) : Bool :=
  opensWithWord "lambda".toList cs ||
    match cs with
    | '[' :: rest => isCaptureList rest
    | '(' :: rest => (afterCloser? ')' rest).any opensWithArrow
    | _ => isSingleParameter cs

/-! ## Kinds -/

/-- Whether a text opens with one character and ends with another. -/
def isBetween (opener closer : Char) (cs : List Char) : Bool :=
  cs.head? == some opener && cs.getLast? == some closer

/-- The kind of a trimmed value. -/
def kindOfTrimmed (spelling : Spelling) (cs : List Char) : Kind :=
  if cs.isEmpty then .uninitialized
  else match quoteMark? spelling cs with
    | some mark =>
      if spelling = .python && (mark.contains 'f' || mark.contains 'F') then .templateString else .string
    | none =>
      if isNumber cs then .number
      else if spelling.truthValues.contains (String.ofList cs) then .boolean
      else if opensFunction cs then .function
      else if isBetween '[' ']' cs then .array
      else if isBetween '\x7b' '\x7d' cs then .object
      else if Text.isName cs && !spelling.notNames.contains (String.ofList cs) then .reference
      else .unknown

/-- The kind that the shape of a value tells. -/
def kindOf (spelling : Spelling) (value : String) : Kind :=
  kindOfTrimmed spelling (Text.trimEnd (Text.trimStart value.toList))

end Cue
end VarCensus
