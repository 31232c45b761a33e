import VarCensus.Text.Blank
import VarCensus.Text.Word
import VarCensus.Record

/-!
# Naming suggestions

Suggestions come as free text. A line carries one where a dash, a space, a backtick, a name, a colon, a
candidate and a closing backtick stand in a row; the first such place of a line counts and everything else
is passed over. Suggestions are grouped by variable in the order in which the variables first appear, and a
candidate is kept once.
-/

namespace VarCensus

/-- The candidates suggested for one variable. -/
structure Suggestion where
  /-- The variable. -/
  name : String
  candidates : List String
deriving DecidableEq, Repr

namespace Suggestion

/-! ## One line -/

/-- What follows the dash, the space and the backtick that open a suggestion. -/
def afterOpening? : List Char → Option (List Char)
  | '-' :: ' ' :: '\x60' :: rest => some rest
  | _ => none

/-- The characters before the first backtick, if there is one and something stands before it. The very
first character counts as part of the candidate even if it is a backtick. -/
def candidate? : List Char → Option (List Char)
  | [] => none
  | c :: rest =>
    let more := rest.takeWhile (· != '\x60')
    if more.length < rest.length then some (c :: more) else none

/-- The name and the candidate of a suggestion that opens a text. -/
def matchHere? (cs : List Char) : Option (List Char × List Char) :=
  match afterOpening? cs with
  | none => none
  | some rest =>
    let name := rest.takeWhile Text.isWord
    match rest.drop name.length with
    | ':' :: after => if name.isEmpty then none else (candidate? after).map fun candidate => (name, candidate)
    | _ => none

/-- The name and the candidate of the first suggestion in a text. -/
def match? : List Char → Option (List Char × List Char)
  | [] => none
  | c :: rest =>
    match matchHere? (c :: rest) with
    | some found => some found
    | none => match? rest

end Suggestion

/-- Suggestions grouped by variable. -/
structure SuggestionSet where
  entries : List Suggestion
deriving DecidableEq, Repr

/-- A record with the names suggested for it. -/
structure Review where
  record : Record
  candidates : List String
deriving DecidableEq, Repr

namespace SuggestionSet

def empty : SuggestionSet :=
  ⟨[]⟩

/-- The candidates for a variable; none if nothing was suggested. -/
def candidates (set : SuggestionSet) (name : String) : List String :=
  match set.entries.find? (·.name == name) with
  | some entry => entry.candidates
  | none => []

/-- Adds a candidate to a list that keeps each once. -/
def addCandidate (candidate : String) (candidates : List String) : List String :=
  if candidates.contains candidate then candidates else candidates ++ [candidate]

/-- Adds a candidate for a variable to the entries. -/
def addTo (name candidate : String) : List Suggestion → List Suggestion
  | [] => [⟨name, [candidate]⟩]
  | entry :: more =>
    if entry.name == name then
      { entry with candidates := addCandidate candidate entry.candidates } :: more
    else entry :: addTo name candidate more

/-- Adds a candidate for a variable. -/
def add (set : SuggestionSet) (name candidate : String) : SuggestionSet :=
  ⟨addTo name candidate set.entries⟩

/-- Adds what one line suggests; a blank candidate suggests nothing. -/
def addLine (set : SuggestionSet) (line : List Char) : SuggestionSet :=
  match Suggestion.match? line with
  | none => set
  | some (name, candidate) =>
    let trimmed := Text.trimEnd (Text.trimStart candidate)
    if trimmed.isEmpty then set else set.add (String.ofList name) (String.ofList trimmed)

/-- The suggestions in a text. -/
def parse (text : String) : SuggestionSet :=
  (Text.lines text.toList).foldl addLine empty

/-- Each record with the names suggested for it. -/
def reviews (set : SuggestionSet) (records : List Record) : List Review :=
  records.map fun record => ⟨record, set.candidates record.name⟩

end SuggestionSet
end VarCensus
