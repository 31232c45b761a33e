import VarCensus.Source.Trivia

/-!
# Bracket groups

`groupEnd?` finds the end of the group that an opening bracket starts. It counts one kind of bracket and
steps over comments and literals, so a bracket inside a string neither opens nor closes anything.
-/

namespace VarCensus
namespace Source

/-- The search of `groupEnd?`, in the middle: at `pos`, inside `depth` groups. -/
def groupEndFrom? (lex : Lexicon) (src : Source) (opener closer : UInt8) (start limit depth pos : Nat) :
    Option Nat :=
  if h : pos < src.bytes.size then
    if limit < pos - start then none
    else match _he : src.enclosedEnd? lex pos with
      | some e => src.groupEndFrom? lex opener closer start limit depth e
      | none =>
        if src.bytes[pos] == opener then
          src.groupEndFrom? lex opener closer start limit (depth + 1) (pos + 1)
        else if src.bytes[pos] == closer then
          if depth == 1 then some (pos + 1)
          else src.groupEndFrom? lex opener closer start limit (depth - 1) (pos + 1)
        else src.groupEndFrom? lex opener closer start limit depth (pos + 1)
  else none
termination_by src.bytes.size - pos
decreasing_by
  · have := enclosedEnd?_bounds _he
    omega
  all_goals omega

/-- The position just past the bracket group that opens at `pos`, if it closes within `limit` bytes. -/
def groupEnd? (lex : Lexicon) (src : Source) (opener closer : UInt8) (limit pos : Nat) : Option Nat :=
  if src.byte? pos == some opener then src.groupEndFrom? lex opener closer pos limit 0 pos else none

theorem groupEndFrom?_bounds {lex : Lexicon} {src : Source} {opener closer : UInt8}
    {start limit depth pos e : Nat}
    (h : src.groupEndFrom? lex opener closer start limit depth pos = some e) :
    pos < e ∧ e ≤ src.size := by
  fun_induction groupEndFrom? lex src opener closer start limit depth pos with
  | case1 => cases h
  | case2 _ pos _ _ e' he ih => have := ih h; have := enclosedEnd?_bounds he; omega
  | case3 _ pos _ _ _ _ ih => have := ih h; omega
  | case4 _ pos hlt => cases h; unfold size; omega
  | case5 _ pos _ _ _ _ _ _ ih => have := ih h; omega
  | case6 _ pos _ _ _ _ _ ih => have := ih h; omega
  | case7 => cases h

theorem groupEnd?_bounds {lex : Lexicon} {src : Source} {opener closer : UInt8} {limit pos e : Nat}
    (h : src.groupEnd? lex opener closer limit pos = some e) : pos < e ∧ e ≤ src.size := by
  unfold groupEnd? at h
  split at h
  · exact groupEndFrom?_bounds h
  · cases h

end Source
end VarCensus
