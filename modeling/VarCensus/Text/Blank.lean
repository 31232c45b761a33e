/-!
# Whitespace

Two notions of whitespace meet in this library. Text that is shown or compared (values, tags, kinds) is
trimmed and collapsed by the Unicode property *White_Space*; positions in a source are stepped over by
bytes, and there only the five ASCII blanks count. The vertical tab belongs to the first and not to the
second, which is why both are spelled out here, next to each other.

`collapse` is the normal form of a value text: its words, one space apart.
-/

namespace VarCensus
namespace Text

/-- The Unicode property *White_Space*. -/
def isBlank (c : Char) : Bool :=
  let n := c.toNat
  (0x09 ≤ n && n ≤ 0x0D) || n == 0x20 || n == 0x85 || n == 0xA0 || n == 0x1680 ||
    (0x2000 ≤ n && n ≤ 0x200A) || n == 0x2028 || n == 0x2029 || n == 0x202F || n == 0x205F || n == 0x3000

/-- The characters without the blanks in front. -/
def trimStart (cs : List Char) : List Char :=
  cs.dropWhile isBlank

/-- The characters without the blanks at the end. -/
def trimEnd (cs : List Char) : List Char :=
  (cs.reverse.dropWhile isBlank).reverse

/-- A text without the blanks at either end. -/
def trim (s : String) : String :=
  String.ofList (trimEnd (trimStart s.toList))

/-- The words of a text: its maximal runs of characters that are not blank. -/
def words : List Char → List (List Char)
  | [] => []
  | c :: rest =>
    if isBlank c then words rest
    else match rest, words rest with
      | d :: _, w :: ws => if isBlank d then [c] :: w :: ws else (c :: w) :: ws
      | _, ws => [c] :: ws

/-- The words of a text with one space between two of them. -/
def collapse (s : String) : String :=
  String.ofList ([' '].intercalate (words s.toList))

/-- The lines of a text. A line ends at a line feed, and one carriage return before that line feed is
not part of the line; a last line without a line feed counts when it is not empty, and keeps its carriage
return. -/
def lines : List Char → List (List Char)
  | [] => []
  | '\n' :: rest => [] :: lines rest
  | '\r' :: '\n' :: rest => [] :: lines rest
  | c :: rest =>
    match lines rest with
    | line :: more => (c :: line) :: more
    | [] => [[c]]

end Text
end VarCensus
