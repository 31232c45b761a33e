import VarCensus.Record

/-!
# Findings

What a scanner learns at one statement start: the records of the declaration it found there, and where the
search goes on.
-/

namespace VarCensus

/-- The records of one declaration and the position after it. -/
structure Finding where
  records : List Record
  /-- Where the search goes on. -/
  next : Nat
deriving DecidableEq, Repr

/-- How far a single declaration may extend, in bytes, unless the caller says otherwise. -/
def defaultLookahead : Nat :=
  16 * 1024

end VarCensus
