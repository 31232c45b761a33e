import VarCensus.Ignore.Glob
import VarCensus.Text.Blank

/-!
# Ignore rules

A line of an ignore file is a rule: a glob, which ignores what it matches, or keeps it if an exclamation
mark stands in front. Of the rules that match a path the last one counts. A slash at the end restricts a
rule to directories; a slash anywhere else ties the glob to the directory of the file, and a glob without
one matches at any depth. Empty lines and lines with a hash sign in front are no rules, and neither are
globs that are not well formed.
-/

namespace VarCensus
namespace Ignore

/-- What rules say about a path. -/
inductive Verdict where
  | silent
  | ignore
  | keep
deriving DecidableEq, Repr

/-- The first verdict unless it is silent, else the second. -/
def Verdict.orElse : Verdict → Verdict → Verdict
  | .silent, other => other
  | verdict, _ => verdict

/-- One rule. -/
structure Rule where
  glob : Glob
  /-- Whether the rule keeps what it matches. -/
  keeps : Bool
  onlyDirectories : Bool
deriving DecidableEq, Repr

/-- Rules in the order in which they were given. -/
abbrev Rules := List Rule

/-- Whether a rule speaks about a path. -/
def Rule.applies (rule : Rule) (path : List UInt8) (isDirectory : Bool) : Bool :=
  (!rule.onlyDirectories || isDirectory) && rule.glob.accepts path

/-- The verdict of the last rule that speaks about a path. -/
def Rules.judge (rules : Rules) (path : List UInt8) (isDirectory : Bool) : Verdict :=
  match rules.reverse.find? (·.applies path isDirectory) with
  | none => .silent
  | some rule => if rule.keeps then .keep else .ignore

/-! ## Reading rules -/

/-- Whether a text ends in another. -/
def endsIn (text ending : List Char) : Bool :=
  ending.isSuffixOf text

/-- A line without its marks: whether it keeps, whether it is tied to its directory, and the rest. -/
def stripMarks (line : List Char) : Bool × Bool × List Char :=
  match line with
  | '\\' :: '!' :: rest => (false, false, '!' :: rest)
  | '\\' :: '#' :: rest => (false, false, '#' :: rest)
  | '!' :: '/' :: rest => (true, true, rest)
  | '!' :: rest => (true, false, rest)
  | '/' :: rest => (false, true, rest)
  | _ => (false, false, line)

/-- A text without a slash at its end, and whether there was one. A backslash before the slash goes too. -/
def stripSlash (text : List Char) : Bool × List Char :=
  match text.reverse with
  | '/' :: '\\' :: rest => (true, rest.reverse)
  | '/' :: rest => (true, rest.reverse)
  | _ => (false, text)

/-- The text of the glob: at any depth unless the rule is tied to its directory, and with two stars at the
end only what lies below. -/
def globText (tied : Bool) (text : List Char) : List Char :=
  let anywhere := !tied && !text.contains '/' && text != ['*', '*']
  let text := if anywhere then ['*', '*', '/'] ++ text else text
  if endsIn text ['/', '*', '*'] then text ++ ['/', '*'] else text

/-- The rule that a line is, if it is one. -/
def Rule.ofLine? (line : List Char) : Option Rule :=
  if line.head? = some '#' then none
  else
    let line := if endsIn line ['\\', ' '] then line else Text.trimEnd line
    if line.isEmpty then none
    else
      let (keeps, tied, text) := stripMarks line
      let (onlyDirectories, text) := stripSlash text
      (Glob.parse? (globText tied text)).map fun glob => ⟨glob, keeps, onlyDirectories⟩

/-- The rules among some lines. -/
def Rules.ofLines (lines : List (List Char)) : Rules :=
  lines.filterMap Rule.ofLine?

/-- The lines of bytes, up to the first that is not UTF-8. -/
def textLines (bytes : List UInt8) : List (List Char) :=
  let texts := (splitLines bytes).map fun line => String.fromUTF8? ⟨line.toArray⟩
  ((texts.takeWhile Option.isSome).filterMap id).map String.toList
where
  /-- The stretches of bytes between line feeds. -/
  splitLines : List UInt8 → List (List UInt8)
    | [] => [[]]
    | b :: rest =>
      if b = 0x0A then [] :: splitLines rest
      else match splitLines rest with
        | line :: more => (b :: line) :: more
        | [] => [[b]]

/-- The lines of a file, without byte order marks in front. -/
def fileLines (bytes : List UInt8) : List (List Char) :=
  match textLines bytes with
  | first :: rest => first.dropWhile (·.toNat == 0xFEFF) :: rest
  | [] => []

/-- The rules in a file. -/
def Rules.ofBytes (bytes : ByteArray) : Rules :=
  Rules.ofLines (fileLines bytes.toList)

end Ignore
end VarCensus
