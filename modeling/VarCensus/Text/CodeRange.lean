/-!
# Character classes as ranges of code points

A class of characters that a standard lists is kept as its ranges, in increasing order. Membership is by
going through them: the classes are asked about characters outside ASCII only, which are few in the texts
at hand.
-/

namespace VarCensus
namespace Text

/-- Ranges of code points, both ends included. -/
abbrev CodeRanges := List (Nat × Nat)

/-- Whether a code point lies in one of the ranges. -/
def CodeRanges.has (ranges : CodeRanges) (code : Nat) : Bool :=
  ranges.any fun range => range.1 ≤ code && code ≤ range.2

end Text
end VarCensus
