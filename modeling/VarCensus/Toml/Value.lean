/-!
# TOML values

What a TOML document holds. Tables come in three forms that differ in who may still add to them: an inline
table is closed where it is written, a table opened by a header or by the steps of a dotted key stays open,
and an array of tables grows by one table with each of its headers.

An open table is *implicit* while no header has named it, and *dotted* when the steps of a dotted key made it.
-/

namespace VarCensus
namespace Toml

/-- A TOML value. -/
inductive Value where
  | string (text : String)
  | integer (value : Int)
  | float
  | boolean (value : Bool)
  | datetime
  | array (items : List Value)
  | inline (entries : List (String × Value))
  | table (entries : List (String × Value)) (implicit dotted : Bool)
  | tables (elements : List (List (String × Value)))
deriving Repr, Inhabited

/-- The entries of a table. -/
abbrev Entries := List (String × Value)

namespace Value

def string? : Value → Option String
  | .string text => some text
  | _ => none

/-- A natural number. -/
def nat? : Value → Option Nat
  | .integer (.ofNat n) => some n
  | _ => none

/-- The texts of an array of strings. -/
def strings? : Value → Option (List String)
  | .array items => items.mapM string?
  | _ => none

/-- The texts of a table of strings, by key. -/
def stringTable? : Value → Option (List (String × String))
  | .inline entries => entries.mapM fun (key, value) => value.string?.map fun text => (key, text)
  | .table entries _ _ => entries.mapM fun (key, value) => value.string?.map fun text => (key, text)
  | _ => none

end Value

/-! ## Adding to tables -/

/-- Puts a value under a key, in the place of the one that is there. -/
def replace (key : String) (value : Value) : Entries → Entries
  | [] => [(key, value)]
  | (other, old) :: rest =>
    if other == key then (key, value) :: rest else (other, old) :: replace key value rest

/-- Changes the table at the end of a path. With `dotted`, the path is that of a dotted key: it makes dotted
tables, and may only pass tables that no header has named. Without it the path is that of a header: it makes
implicit tables and passes into the last table of an array. The change is told whether the table is dotted. -/
def changeAt (dotted : Bool) (change : Bool → Entries → Option Entries) :
    List String → Bool → Entries → Option Entries
  | [], isDotted, entries => change isDotted entries
  | key :: rest, _, entries =>
    match entries.lookup key with
    | none =>
      (changeAt dotted change rest dotted []).map fun inner =>
        replace key (.table inner true dotted) entries
    | some (.table inner implicit isDotted) =>
      if dotted && !implicit then none
      else (changeAt dotted change rest isDotted inner).map fun inner =>
        replace key (.table inner implicit isDotted) entries
    | some (.tables elements) =>
      match elements.getLast? with
      | none => none
      | some last =>
        (changeAt dotted change rest false last).map fun last =>
          replace key (.tables (elements.dropLast ++ [last])) entries
    | some _ => none

/-- Adds a value under a key that must be new. -/
def addNew (key : String) (value : Value) (entries : Entries) : Option Entries :=
  if (entries.lookup key).isSome then none else some (entries ++ [(key, value)])

/-- Adds a value under a dotted key, whose steps have to be dotted tables. -/
def addDotted (path : List String) (value : Value) (entries : Entries) : Option Entries :=
  match path.reverse with
  | [] => none
  | key :: steps =>
    changeAt true (fun isDotted inner => if isDotted == steps.isEmpty then none else addNew key value inner)
      steps.reverse false entries

/-- Opens the table of a header. -/
def openTable (path : List String) (entries : Entries) : Option Entries :=
  match path.reverse with
  | [] => none
  | key :: steps =>
    changeAt false (fun _ inner =>
      match inner.lookup key with
      | none => some (inner ++ [(key, .table [] false false)])
      | some (.table old true false) => some (replace key (.table old false false) inner)
      | some _ => none) steps.reverse false entries

/-- Opens the next table of an array of tables. -/
def openNextTable (path : List String) (entries : Entries) : Option Entries :=
  match path.reverse with
  | [] => none
  | key :: steps =>
    changeAt false (fun _ inner =>
      match inner.lookup key with
      | none => some (inner ++ [(key, .tables [[]])])
      | some (.tables elements) => some (replace key (.tables (elements ++ [[]])) inner)
      | some _ => none) steps.reverse false entries

/-- Adds a value under a dotted key to the table at the end of a header's path. -/
def addUnder (header path : List String) (value : Value) (entries : Entries) : Option Entries :=
  changeAt false (fun _ inner => addDotted path value inner) header false entries

end Toml
end VarCensus
