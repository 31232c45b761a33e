import VarCensus.Language
import VarCensus.Suggestion
import VarCensus.Table

/-!
# What is shown as a table

Records, reviews and languages as tables. A long value is cut after so many characters, and the cut is
marked.
-/

namespace VarCensus
namespace Table

/-- How many characters of a value are shown. -/
def valueWidth : Nat := 48

/-- A text cut to at most so many characters, an ellipsis at the cut included. -/
def truncated (limit : Nat) (text : String) : String :=
  let cs := text.toList
  if cs.length ≤ limit then text else String.ofList (cs.take (limit - 1) ++ ['…'])

/-- Texts with a comma and a space between two of them. -/
def listed (texts : List String) : String :=
  ", ".intercalate texts

def ofRecords (records : List Record) : Table where
  heading := ["Name", "Value", "Kind", "Line", "References"]
  rows := records.map fun record =>
    [record.name, truncated valueWidth record.value, record.kind.text, toString record.declaredAt.line,
      listed (record.readLines.map toString)]

def ofReviews (reviews : List Review) : Table where
  heading := ["Variable", "Value", "Suggestions"]
  rows := reviews.map fun review =>
    [review.record.name, truncated valueWidth review.record.value,
      if review.candidates.isEmpty then "No suggestions available" else listed review.candidates]

def ofLanguages (languages : List Language) : Table where
  heading := ["Tag", "Adapter", "Family", "Extensions"]
  rows := languages.map fun language =>
    [language.tag, language.title, language.family.name, listed language.extensions]

end Table
end VarCensus
