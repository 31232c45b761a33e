import VarCensus.Config
import VarCensus.Toml.Reader
import VarCensus.Toml.Writer

/-!
# Configurations as TOML

The fields of a configuration under their names, and the overrides as a table. Reading passes over fields it does not
know and takes a missing field for one that is not set. Numbers beyond the range of TOML cannot be written.
-/

namespace VarCensus
namespace Config

/-! ## Reading -/

/-- A field that may be missing, read in some way where it is there. -/
def optionalField {α : Type} (entries : Toml.Entries) (name : String) (read : Toml.Value → Option α) :
    Option (Option α) :=
  match entries.lookup name with
  | none => some none
  | some value => (read value).map some

/-- The configuration that the entries of a document make; fields it does not know are passed over. -/
def ofEntries? (entries : Toml.Entries) : Option Config :=
  match optionalField entries "max_lookahead" Toml.Value.nat?,
    optionalField entries "extensions" Toml.Value.stringTable?,
    optionalField entries "exclude" Toml.Value.strings?,
    optionalField entries "jobs" Toml.Value.nat? with
  | some lookahead, some overrides, some exclude, some jobs =>
    some ⟨lookahead, .ofList (overrides.getD []), exclude.getD [], jobs⟩
  | _, _, _, _ => none

/-- The configuration that a text holds. -/
def parse? (text : String) : Option Config :=
  (Toml.parse? text).bind ofEntries?

/-! ## Writing -/

/-- The greatest number that can be written. -/
def maxWritten : Nat :=
  Nat.pow 2 63 - 1

/-- A line that sets a number, if there is one. -/
def numberLine (name : String) : Option Nat → String
  | none => ""
  | some n => name ++ " = " ++ toString n ++ "\n"

/-- Whether a number can be written. -/
def isWritable : Option Nat → Bool
  | none => true
  | some n => n ≤ maxWritten

/-- The text of a configuration; there is none where a number is too large. -/
def render? (config : Config) : Option String :=
  if isWritable config.lookahead && isWritable config.jobs then
    some <| numberLine "max_lookahead" config.lookahead ++
      "exclude = " ++ Toml.writeArray (config.exclude.map Toml.writeString) ++ "\n" ++
      numberLine "jobs" config.jobs ++
      "\n[extensions]\n" ++
      String.join (config.overrides.entries.map fun (ext, tag) =>
        Toml.writeKey ext ++ " = " ++ Toml.writeString tag ++ "\n")
  else none

/-- Configurations are kept as TOML. -/
def Codec.toml : Codec :=
  ⟨render?, parse?⟩

end Config
end VarCensus
