import VarCensus.Dialect.Declarator

/-!
# Typed declarations

The search for declarations in Java and C++ sources. At each statement start a declaration is tried:
modifiers, a type, declarators. Where none stands, the search goes on after the next semicolon, brace,
single colon, or parenthesis of a keyword whose parenthesis may open with a declaration.

As with the other scanned language, both ways move forward from every position inside the source
(`lt_next_of_matchDeclaration?`, `lt_nextStatement`).
-/

namespace VarCensus
namespace Dialect

/-- The declarators from `pos` on, after those already recorded, in the declaration that starts at
`start`. -/
def declaratorsFrom? (d : Dialect) (src : Source) (index : LineIndex) (limit start indent : Nat)
    (head : TypeHead) (recorded : List Record) (pos : Nat) : Option Finding :=
  match _h : d.declaratorAt src index limit indent head pos with
  | .found record t =>
    if src.byte? t == some ';'.toUInt8 then some ⟨recorded ++ [record], t + 1⟩
    else d.declaratorsFrom? src index limit start indent head (recorded ++ [record]) (t + 1)
  | .finished next => if recorded.isEmpty then none else some ⟨recorded, max next (start + 1)⟩
  | .abandoned next => some ⟨recorded, next⟩
termination_by src.size - pos
decreasing_by
  have hout := ahead_declaratorAt d src index limit indent head pos
  rw [_h] at hout
  have := hout.1
  have := hout.2
  omega

/-- The declaration that starts at `start`, if one does. -/
def matchDeclaration? (d : Dialect) (src : Source) (index : LineIndex) (limit start : Nat) :
    Option Finding :=
  match d.skipModifiers? src limit start with
  | none => none
  | some pos =>
    match d.typeHead? src limit pos with
    | none => none
    | some head =>
      d.declaratorsFrom? src index limit start (src.indentation start) head [] head.stop

/-! ## The next statement -/

/-- The first position of the run of bytes that pass the test and end right before `pos`. -/
def runStart (src : Source) (test : UInt8 → Bool) : Nat → Nat
  | 0 => 0
  | pos + 1 => if (src.byte? pos).any test then runStart src test pos else pos + 1

/-- Whether the parenthesis at `pos` belongs to a keyword whose parenthesis may open with a declaration. -/
def opensHeader (d : Dialect) (src : Source) (pos : Nat) : Bool :=
  let stop := runStart src isAsciiBlank pos
  d.headers.contains (src.slice (runStart src isIdentByte stop) stop)

/-- The position after the next statement boundary at or after `pos`. -/
def nextStatement (d : Dialect) (src : Source) (pos : Nat) : Nat :=
  if h : pos < src.bytes.size then
    match _he : src.enclosedEnd? d.lexicon pos with
    | some e => d.nextStatement src e
    | none =>
      let b := src.bytes[pos]
      if b == ';'.toUInt8 || b == '\x7b'.toUInt8 || b == '\x7d'.toUInt8 then pos + 1
      else if b == ':'.toUInt8 then
        if src.byte? (pos + 1) == some ':'.toUInt8 then d.nextStatement src (pos + 2) else pos + 1
      else if b == '('.toUInt8 && d.opensHeader src pos then pos + 1
      else d.nextStatement src (pos + 1)
  else src.bytes.size
termination_by src.bytes.size - pos
decreasing_by
  · have := Source.enclosedEnd?_bounds _he
    omega
  all_goals omega

/-! ## Progress -/

theorem lt_next_of_declaratorsFrom? {d : Dialect} {src : Source} {index : LineIndex}
    {limit start indent : Nat} {head : TypeHead} {recorded : List Record} {pos : Nat} {found : Finding}
    (hp : start < pos)
    (h : d.declaratorsFrom? src index limit start indent head recorded pos = some found) :
    start < found.next := by
  fun_induction declaratorsFrom? d src index limit start indent head recorded pos with
  | case1 recorded pos record t hout _ =>
    have := ahead_declaratorAt d src index limit indent head pos
    rw [hout] at this
    cases h
    have := this.1
    simp only
    omega
  | case2 recorded pos record t hout _ ih =>
    have := ahead_declaratorAt d src index limit indent head pos
    rw [hout] at this
    have := this.1
    exact ih (by omega) h
  | case3 => cases h
  | case4 => cases h; simp only; omega
  | case5 recorded pos next hout =>
    have := ahead_declaratorAt d src index limit indent head pos
    rw [hout] at this
    cases h
    simp only [Declarator.Ahead] at this ⊢
    omega

theorem lt_next_of_matchDeclaration? {d : Dialect} {src : Source} {index : LineIndex} {limit start : Nat}
    {found : Finding} (h : d.matchDeclaration? src index limit start = some found) :
    start < found.next := by
  unfold matchDeclaration? at h
  split at h
  · cases h
  · next pos hm =>
    split at h
    · cases h
    · next head hh =>
      have h1 := le_skipModifiers? hm
      have h2 := lt_stop_of_typeHead? hh
      exact lt_next_of_declaratorsFrom? (by omega) h

theorem min_le_nextStatement (d : Dialect) (src : Source) (pos : Nat) :
    min (pos + 1) src.size ≤ d.nextStatement src pos := by
  unfold Source.size
  fun_induction nextStatement d src pos with
  | case1 pos _ e he ih => have := Source.enclosedEnd?_bounds he; unfold Source.size at this; omega
  | case2 => omega
  | case3 => omega
  | case4 => omega
  | case5 => omega
  | case6 => omega
  | case7 => omega

theorem lt_nextStatement (d : Dialect) {src : Source} {pos : Nat} (h : pos < src.size) :
    pos < d.nextStatement src pos := by
  have := min_le_nextStatement d src pos
  omega

/-! ## The search -/

/-- The declarations at or after `pos`, in the order in which they are found. -/
def recordsFrom (d : Dialect) (src : Source) (index : LineIndex) (limit pos : Nat) : List Record :=
  let start := src.skipTrivia d.lexicon pos
  if _hs : start < src.size then
    match _h : d.matchDeclaration? src index limit start with
    | some found => found.records ++ d.recordsFrom src index limit found.next
    | none => d.recordsFrom src index limit (d.nextStatement src start)
  else []
termination_by src.size - pos
decreasing_by
  · have := src.le_skipTrivia d.lexicon pos
    have := lt_next_of_matchDeclaration? _h
    omega
  · have := src.le_skipTrivia d.lexicon pos
    have := lt_nextStatement d (show src.skipTrivia d.lexicon pos < src.size from _hs)
    omega

/-- The variables that a source declares; `limit` bounds how far one declaration may extend. -/
def records (d : Dialect) (limit : Nat) (src : Source) : List Record :=
  Record.sortByPlace (d.recordsFrom src (LineIndex.ofSource src) limit 0)

end Dialect
end VarCensus
