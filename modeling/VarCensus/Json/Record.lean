import VarCensus.Error
import VarCensus.Json
import VarCensus.Record
import VarCensus.Suggestion

/-!
# Records as JSON

The written form of locations, records and suggestions, and how records are read back. Reading ignores
fields it does not know and takes a structure also as an array of its fields in order; it refuses a missing
field, a value of the wrong type and a blank kind.
-/

namespace VarCensus

namespace Location

def toJson (loc : Location) : Json :=
  .object [("line", .number loc.line), ("column", .number loc.column), ("offset", .number loc.offset)]

def ofJson? (json : Json) : Option Location :=
  match json.fieldValues? ["line", "column", "offset"] with
  | some [some line, some column, some offset] =>
    match line.nat?, column.nat?, offset.nat? with
    | some line, some column, some offset => some ⟨line, column, offset⟩
    | _, _, _ => none
  | _ => none

end Location

namespace Record

def toJson (record : Record) : Json :=
  .object [("name", .string record.name), ("assignedValue", .string record.value),
    ("kind", .string record.kind.text), ("referenceLocations", .array (record.reads.map Location.toJson)),
    ("declaredAt", record.declaredAt.toJson)]

def ofJson? (json : Json) : Option Record :=
  match json.fieldValues? ["name", "assignedValue", "kind", "referenceLocations", "declaredAt"] with
  | some [some name, some value, some kind, some reads, some declaredAt] =>
    match name.string?, value.string?, kind.string?.bind Kind.ofText?, reads.list? Location.ofJson?,
      Location.ofJson? declaredAt with
    | some name, some value, some kind, some reads, some declaredAt =>
      some ⟨name, value, kind, reads, declaredAt⟩
    | _, _, _, _, _ => none
  | _ => none

/-- Records read from an array. -/
def listOfJson? (json : Json) : Option (List Record) :=
  json.list? ofJson?

end Record

def Suggestion.toJson (suggestion : Suggestion) : Json :=
  .object [("variable", .string suggestion.name),
    ("candidates", .array (suggestion.candidates.map Json.string))]

def SuggestionSet.toJson (set : SuggestionSet) : Json :=
  .object [("entries", .array (set.entries.map Suggestion.toJson))]

def Review.toJson (review : Review) : Json :=
  .object [("record", review.record.toJson), ("candidates", .array (review.candidates.map Json.string))]

end VarCensus
