import VarCensus.Path

/-!
# Globs

Patterns for paths. A star stands for any text without a slash, a question mark for one byte other than a
slash, brackets for one byte of a class, and braces for one of several patterns. Two stars that fill a
whole part of a path stand for any number of parts. A backslash takes the next character as it is, and a
bracket that nothing closes stands for itself.

Paths are matched as bytes. Braces are multiplied out when a pattern is read, so a glob is a list of plain
sequences of tokens, and a path matches when it matches one of them.
-/

namespace VarCensus
namespace Ignore

/-! ## Tokens -/

/-- One piece of a glob. -/
inductive Token where
  | literal (c : Char)
  /-- One byte other than a slash. -/
  | oneByte
  /-- Any bytes other than slashes. -/
  | star
  /-- Two stars that are the whole glob: anything. -/
  | anything
  /-- Two stars in front: nothing, or anything up to a slash. -/
  | anyParent
  /-- Two stars at the end: a slash and anything. -/
  | anyBelow
  /-- Two stars between slashes: a slash, or anything from a slash to a slash. -/
  | anyBetween
  /-- One byte of a class. -/
  | oneOf (negated : Bool) (ranges : List (Char × Char))
deriving DecidableEq, Repr

/-- The tails of a text that begin right behind a slash. -/
def tailsBehindSlash : List UInt8 → List (List UInt8)
  | [] => []
  | b :: rest => if b = Path.slash then rest :: tailsBehindSlash rest else tailsBehindSlash rest

/-- All tails of a text, itself included. -/
def tails : List UInt8 → List (List UInt8)
  | [] => [[]]
  | b :: rest => (b :: rest) :: tails rest

/-- The tails of a text that are reached without passing a slash. -/
def tailsWithinPart : List UInt8 → List (List UInt8)
  | [] => [[]]
  | b :: rest => (b :: rest) :: if b = Path.slash then [] else tailsWithinPart rest

/-- A text without another in front. -/
def dropFront? : List UInt8 → List UInt8 → Option (List UInt8)
  | [], text => some text
  | b :: front, c :: text => if b = c then dropFront? front text else none
  | _ :: _, [] => none

def charBytes (c : Char) : List UInt8 :=
  (String.singleton c).toUTF8.toList

/-- The ranges of bytes that a range of characters stands for. In bytes, a range runs from the last byte of
its lower end to the first of its upper end; the other bytes of the ends count for themselves. -/
def byteRanges (range : Char × Char) : List (UInt8 × UInt8) :=
  let low := charBytes range.1
  if range.1 = range.2 then low.map fun b => (b, b)
  else
    let high := charBytes range.2
    low.dropLast.map (fun b => (b, b)) ++ [(low.getLastD 0, high.headD 0)] ++ high.tail.map fun b => (b, b)

/-- Whether a byte lies in one of the ranges. -/
def inRanges (ranges : List (Char × Char)) (b : UInt8) : Bool :=
  (ranges.flatMap byteRanges).any fun (low, high) => low ≤ b && b ≤ high

/-- What may be left of a text behind a token. -/
def Token.rests : Token → List UInt8 → List (List UInt8)
  | .literal c, text => (dropFront? (charBytes c) text).toList
  | .oneByte, b :: rest => if b = Path.slash then [] else [rest]
  | .star, text => tailsWithinPart text
  | .anything, text => tails text
  | .anyParent, text => text :: tailsBehindSlash text
  | .anyBelow, b :: rest => if b = Path.slash then tails rest else []
  | .anyBetween, b :: rest => if b = Path.slash then rest :: tailsBehindSlash rest else []
  | .oneOf negated ranges, b :: rest => if inRanges ranges b != negated then [rest] else []
  | _, [] => []

/-- Whether a text matches a sequence of tokens. -/
def matchesTokens : List Token → List UInt8 → Bool
  | [], text => text.isEmpty
  | token :: tokens, text => (token.rests text).any (matchesTokens tokens)

/-! ## Globs -/

/-- A glob with its braces multiplied out. -/
structure Glob where
  branches : List (List Token)
  /-- Whether the glob picks names by a dot at their end. -/
  picksFinalDot : Bool
deriving DecidableEq, Repr

/-- Whether the last part of a path is the step to the directory above. -/
def endsInStepUp (path : List UInt8) : Bool :=
  match path.reverse with
  | [a, b] => a = Path.dot && b = Path.dot
  | a :: b :: c :: _ => a = Path.dot && b = Path.dot && c = Path.slash
  | _ => false

/-- Whether a path matches a glob. The step to the directory above is no name, so its dots are not those that
a glob picks names by. -/
def Glob.accepts (glob : Glob) (path : List UInt8) : Bool :=
  !(glob.picksFinalDot && endsInStepUp path) && glob.branches.any fun tokens => matchesTokens tokens path

/-! ## Reading globs -/

/-- A sequence of tokens in which braces are kept. -/
inductive Part where
  | token (token : Token)
  | choice (branches : List (List Part))
deriving Repr, Inhabited

mutual

/-- All sequences of tokens that a part stands for. A choice leaves out its empty branches; with no other
it stands for nothing. -/
def Part.expand : Part → List (List Token)
  | .token token => [[token]]
  | .choice branches =>
    match (expandBranches branches).filter (!·.isEmpty) with
    | [] => [[]]
    | found => found

/-- All sequences that one of several branches stands for. -/
def expandBranches : List (List Part) → List (List Token)
  | [] => []
  | branch :: more => expandParts branch ++ expandBranches more

/-- All sequences that parts in a row stand for. -/
def expandParts : List Part → List (List Token)
  | [] => [[]]
  | part :: more => part.expand.flatMap fun first => (expandParts more).map (first ++ ·)

end

/-- The character that a part stands for, if it stands for just one. -/
def Part.literal? : Part → Option Char
  | .token (.literal c) => some c
  | _ => none

/-- Whether parts spell out a path: characters alone, or a path of several names below two stars. -/
def spellPath : List Part → Bool
  | .token .anyParent :: rest => rest.all (·.literal?.isSome) && rest.any (·.literal? == some '/')
  | parts => parts.all (·.literal?.isSome)

/-- The glob of parts in a row. One that ends in a dot and does not spell out a path picks names by that
dot. -/
def Glob.ofParts : List Part → Glob
  | [.token .anyParent] => ⟨[[.anything]], false⟩
  | parts => ⟨expandParts parts, parts.getLast?.bind Part.literal? == some '.' && !spellPath parts⟩

/-- The branches that are open while a glob is read, the innermost first and each with its parts from the
last to the first, and how many branches stood open before each open brace. -/
structure Reading where
  branches : List (List Part)
  /-- Branches that are done, for each open brace, the innermost brace first. -/
  done : List (List (List Part))

namespace Reading

def start : Reading :=
  ⟨[[]], []⟩

/-- Whether a brace is open. -/
def inBraces (r : Reading) : Bool :=
  !r.done.isEmpty

/-- Whether the innermost branch has a part yet. -/
def hasParts (r : Reading) : Bool :=
  (r.branches.headD []).length != 0

def push (r : Reading) (part : Part) : Reading :=
  match r.branches with
  | branch :: outer => { r with branches := (part :: branch) :: outer }
  | [] => r

def pushToken (r : Reading) (token : Token) : Reading :=
  r.push (.token token)

def openBrace (r : Reading) : Reading :=
  ⟨[] :: r.branches, [] :: r.done⟩

/-- Ends a branch at a comma; outside braces a comma is a character. -/
def comma (r : Reading) : Reading :=
  match r.branches, r.done with
  | branch :: outer, done :: more => ⟨[] :: outer, (branch.reverse :: done) :: more⟩
  | _, _ => r.pushToken (.literal ',')

/-- Closes a brace; there has to be one. -/
def closeBrace? (r : Reading) : Option Reading :=
  match r.branches, r.done with
  | branch :: outer, done :: more =>
    some ((⟨outer, more⟩ : Reading).push (.choice (branch.reverse :: done).reverse))
  | _, _ => none

/-- Puts two stars between parts in the place of the slash before them; those that follow two stars already
there add nothing. -/
def replaceLast (r : Reading) (token : Token) : Reading :=
  match r.branches with
  | (.token .anyParent :: branch) :: outer => { r with branches := (.token .anyParent :: branch) :: outer }
  | (.token .anyBelow :: branch) :: outer => { r with branches := (.token .anyBelow :: branch) :: outer }
  | (_ :: branch) :: outer => { r with branches := (.token token :: branch) :: outer }
  | _ => r

end Reading

/-- A class behind its opening bracket. -/
inductive ClassResult where
  | closed (ranges : List (Char × Char)) (rest : List Char)
  | unclosed
  /-- A range runs downward. -/
  | reversed

/-- Reads a class up to its closing bracket. `ranges` are those read so far, the last one first; `inRange`
tells that a dash waits for its upper end. A bracket or a dash in front stands for itself. -/
def readClass (isFirst inRange : Bool) (ranges : List (Char × Char)) : List Char → ClassResult
  | [] => .unclosed
  | c :: rest =>
    if c == ']' && !isFirst then
      .closed ((if inRange then ('-', '-') :: ranges else ranges).reverse) rest
    else if c == '-' && !isFirst && !inRange then readClass false true ranges rest
    else match inRange, ranges with
      | true, (low, _) :: more =>
        if c < low then .reversed else readClass false false ((low, c) :: more) rest
      | _, _ => readClass false false ((c, c) :: ranges) rest

/-- The class behind an opening bracket. -/
def classAt (cs : List Char) : Bool × ClassResult :=
  match cs with
  | '!' :: rest => (true, readClass true false [] rest)
  | '^' :: rest => (true, readClass true false [] rest)
  | _ => (false, readClass true false [] cs)

/-- Whether a branch ends in front of a text: at its end, or at a comma or a closing brace inside braces. -/
def endsBranch (r : Reading) : List Char → Bool
  | [] => true
  | c :: _ => r.inBraces && (c == ',' || c == '\x7d')

/-- Reads two stars, given the character before them and what follows: the reading after them, and whether a
slash behind them has been taken. -/
def readTwoStars (r : Reading) (prev : Option Char) (rest : List Char) : Reading × Bool :=
  let plain := ((r.pushToken .star).pushToken .star, false)
  if !r.hasParts then
    match rest with
    | [] => (r.pushToken .anyParent, false)
    | '/' :: _ => (r.pushToken .anyParent, true)
    | _ => plain
  else if prev == some '/' || (r.inBraces && (prev == some ',' || prev == some '\x7b')) then
    if endsBranch r rest then (r.replaceLast .anyBelow, false)
    else match rest with
      | '/' :: _ => (r.replaceLast .anyBetween, true)
      | _ => plain
  else plain

/-- Reads a glob character by character. `count` is larger than the text is long; `brackets` tells that
brackets still open classes, which they stop doing once one was found that nothing closes. -/
def readGlob : Nat → Bool → Option Char → Reading → List Char → Option Reading
  | 0, _, _, _, _ => none
  | _, _, _, r, [] => if r.inBraces then none else some r
  | count + 1, brackets, prev, r, c :: rest =>
    match c with
    | '?' => readGlob count brackets (some c) (r.pushToken .oneByte) rest
    | '*' =>
      match rest with
      | '*' :: rest =>
        let (r, tookSlash) := readTwoStars r prev rest
        if tookSlash then readGlob count brackets (some '/') r (rest.drop 1)
        else readGlob count brackets (some '*') r rest
      | _ => readGlob count brackets (some c) (r.pushToken .star) rest
    | '[' =>
      if brackets then
        match classAt rest with
        | (negated, .closed ranges rest) =>
          readGlob count brackets (some ']') (r.pushToken (.oneOf negated ranges)) rest
        | (_, .unclosed) => readGlob count false (some c) (r.pushToken (.literal c)) rest
        | (_, .reversed) => none
      else readGlob count brackets (some c) (r.pushToken (.literal c)) rest
    | '\x7b' => readGlob count brackets (some c) r.openBrace rest
    | '\x7d' => r.closeBrace?.bind fun r => readGlob count brackets (some c) r rest
    | ',' => readGlob count brackets (some c) r.comma rest
    | '\\' =>
      match rest with
      | [] => none
      | d :: rest => readGlob count brackets (some d) (r.pushToken (.literal d)) rest
    | _ => readGlob count brackets (some c) (r.pushToken (.literal c)) rest

/-- The glob that a text is, if its braces are in order, no range runs downward and no backslash stands at
the end. -/
def Glob.parse? (text : List Char) : Option Glob :=
  (readGlob (text.length + 1) true none .start text).map fun r => .ofParts (r.branches.headD []).reverse

end Ignore
end VarCensus
