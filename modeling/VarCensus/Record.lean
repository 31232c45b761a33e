import VarCensus.Kind
import VarCensus.Location

/-!
# Records of variables

What is found out about one declared variable. A declaration without a value has the text `noValue` in
the place of its value: the records of all languages are shown and stored alike, and that text is part of
how they look.
-/

namespace VarCensus

/-- The value text of a declaration that gives no value. -/
def noValue : String :=
  "No value assigned"

/-- One declared variable. -/
structure Record where
  name : String
  /-- The text of its value. -/
  value : String
  kind : Kind
  /-- Where the variable is read. -/
  reads : List Location
  declaredAt : Location
deriving DecidableEq, Repr, Inhabited

namespace Record

/-- The record of a declaration without a value. -/
def bare (name : String) (declaredAt : Location) : Record :=
  ⟨name, noValue, .uninitialized, [], declaredAt⟩

/-- The lines on which the variable is read. -/
def readLines (record : Record) : List Nat :=
  record.reads.map (·.line)

/-- Records in the order of their declarations; those declared at one place keep their order. -/
def sortByPlace (records : List Record) : List Record :=
  records.mergeSort fun a b => a.declaredAt.offset ≤ b.declaredAt.offset

end Record
end VarCensus
