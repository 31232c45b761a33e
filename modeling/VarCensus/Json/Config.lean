import VarCensus.Config
import VarCensus.Json

/-!
# Configurations as JSON

The written form of a configuration, and how it is read back. Reading ignores fields it does not know, takes
a missing field for one that is not set, and takes the whole also as an array of its fields in order. The two
numbers may be null; the other fields may not.
-/

namespace VarCensus
namespace Config

def toJson (config : Config) : Json :=
  let number : Option Nat → Json := fun
    | some n => .number n
    | none => .null
  .object [("max_lookahead", number config.lookahead),
    ("extensions", .object (config.overrides.entries.map fun (ext, tag) => (ext, .string tag))),
    ("exclude", .array (config.exclude.map Json.string)), ("jobs", number config.jobs)]

/-- A number that may be missing or null. -/
def numberOfJson? : Option Json → Option (Option Nat)
  | none => some none
  | some .null => some none
  | some json => json.nat?.map some

/-- Overrides that may be missing. -/
def overridesOfJson? : Option Json → Option Overrides
  | none => some .empty
  | some (.object fields) =>
    (fields.mapM fun (field : String × Json) => field.2.string?.map fun tag => (field.1, tag)).map Overrides.ofList
  | some _ => none

/-- Patterns that may be missing. -/
def excludeOfJson? : Option Json → Option (List String)
  | none => some []
  | some json => json.list? Json.string?

def ofJson? (json : Json) : Option Config :=
  match json.fieldValues? ["max_lookahead", "extensions", "exclude", "jobs"] with
  | some [lookahead, overrides, exclude, jobs] =>
    match numberOfJson? lookahead, overridesOfJson? overrides, excludeOfJson? exclude, numberOfJson? jobs with
    | some lookahead, some overrides, some exclude, some jobs => some ⟨lookahead, overrides, exclude, jobs⟩
    | _, _, _, _ => none
  | _ => none

end Config
end VarCensus
