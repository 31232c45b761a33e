import VarCensus.Dialect
import VarCensus.Source.Group

/-!
# Modifiers and types

The front part of a typed declaration. `skipModifiers?` passes modifiers and annotations; `typeHead?` reads
a type, with its type arguments, qualified parts and array brackets, and accepts it only when it looks like
one: a built-in type, a capitalised name, a known library type, a qualified name or a name with the ending
that marks types, as far as the dialect allows.
-/

namespace VarCensus
namespace Dialect

/-! ## Modifiers -/

/-- The end of a dotted name that starts at `pos`. -/
def dottedEnd? (src : Source) (pos : Nat) : Option Nat :=
  match _h : src.identEnd? pos with
  | none => none
  | some e => if src.byte? e == some '.'.toUInt8 then dottedEnd? src (e + 1) else some e
termination_by src.size - pos
decreasing_by
  have := Source.identEnd?_bounds _h
  omega

theorem dottedEnd?_bounds {src : Source} {pos e : Nat} (h : dottedEnd? src pos = some e) :
    pos < e ∧ e ≤ src.size := by
  fun_induction dottedEnd? src pos with
  | case1 => cases h
  | case2 pos e' hid _ ih => have := ih h; have := Source.identEnd?_bounds hid; omega
  | case3 pos e' hid _ => cases h; exact Source.identEnd?_bounds hid

/-- The end of the annotation whose sign stands right before `pos`, its arguments included, and of the
trivia behind it. -/
def annotationEnd? (d : Dialect) (src : Source) (limit pos : Nat) : Option Nat :=
  match dottedEnd? src pos with
  | none => none
  | some e =>
    let after := src.skipTrivia d.lexicon e
    match src.groupEnd? d.lexicon '('.toUInt8 ')'.toUInt8 limit after with
    | some close => some (src.skipTrivia d.lexicon close)
    | none => some after

theorem lt_annotationEnd? {d : Dialect} {src : Source} {limit pos e : Nat}
    (h : d.annotationEnd? src limit pos = some e) : pos < e := by
  unfold annotationEnd? at h
  split at h
  · cases h
  · next e' he =>
    have h1 := dottedEnd?_bounds he
    have h2 := src.le_skipTrivia d.lexicon e'
    simp only at h
    split at h
    · next close hc =>
      cases h
      have h3 := Source.groupEnd?_bounds hc
      have h4 := src.le_skipTrivia d.lexicon close
      omega
    · cases h; omega

/-- The position after the modifiers and annotations at `pos`; none when an annotation has no name. -/
def skipModifiers? (d : Dialect) (src : Source) (limit pos : Nat) : Option Nat :=
  if _hp : pos < src.size then
    if d.annotations && src.byte? pos == some '@'.toUInt8 then
      match _h : d.annotationEnd? src limit (pos + 1) with
      | none => none
      | some e => d.skipModifiers? src limit e
    else match _h : src.identAt? pos with
      | some (word, e) =>
        if d.modifiers.contains word then d.skipModifiers? src limit (src.skipTrivia d.lexicon e)
        else some pos
      | none => some pos
  else some pos
termination_by src.size - pos
decreasing_by
  · have := lt_annotationEnd? _h
    omega
  · have := Source.identAt?_bounds _h
    have := src.le_skipTrivia d.lexicon e
    omega

theorem le_skipModifiers? {d : Dialect} {src : Source} {limit pos e : Nat}
    (h : d.skipModifiers? src limit pos = some e) : pos ≤ e := by
  fun_induction skipModifiers? d src limit pos with
  | case1 => cases h
  | case2 pos _ _ e' he ih => have := ih h; have := lt_annotationEnd? he; omega
  | case3 pos _ _ word e' hid _ ih =>
    have := ih h
    have := Source.identAt?_bounds hid
    have := src.le_skipTrivia d.lexicon e'
    omega
  | case4 => cases h; exact Nat.le_refl _
  | case5 => cases h; exact Nat.le_refl _
  | case6 => cases h; exact Nat.le_refl _

/-! ## Types -/

/-- Whether a byte may stand in a list of type arguments, apart from its angle brackets. -/
def isTypeArgumentByte (b : UInt8) : Bool :=
  isIdentByte b || isAsciiBlank b || [',', '.', ':', '?', '*', '&', '[', ']'].any (·.toUInt8 == b)

/-- The search of `typeArgumentsEnd?`, in the middle: at `pos`, inside `depth` lists. -/
def typeArgumentsEndFrom? (src : Source) (start limit depth pos : Nat) : Option Nat :=
  if h : pos < src.bytes.size then
    let b := src.bytes[pos]
    if limit < pos - start then none
    else if b == '<'.toUInt8 then typeArgumentsEndFrom? src start limit (depth + 1) (pos + 1)
    else if b == '>'.toUInt8 then
      if depth == 1 then some (pos + 1) else typeArgumentsEndFrom? src start limit (depth - 1) (pos + 1)
    else if b == '&'.toUInt8 && src.byte? (pos + 1) == some '&'.toUInt8 then none
    else if isTypeArgumentByte b then typeArgumentsEndFrom? src start limit depth (pos + 1)
    else none
  else none
termination_by src.bytes.size - pos

/-- The end of the list of type arguments that opens at `pos`, if what stands there looks like one. -/
def typeArgumentsEnd? (src : Source) (limit pos : Nat) : Option Nat :=
  typeArgumentsEndFrom? src pos limit 0 pos

theorem typeArgumentsEndFrom?_bounds {src : Source} {start limit depth pos e : Nat}
    (h : typeArgumentsEndFrom? src start limit depth pos = some e) : pos < e ∧ e ≤ src.size := by
  fun_induction typeArgumentsEndFrom? src start limit depth pos with
  | case1 => cases h
  | case2 _ pos _ _ _ _ ih => have := ih h; omega
  | case3 _ pos hlt => cases h; unfold Source.size; omega
  | case4 _ pos _ _ _ _ _ _ ih => have := ih h; omega
  | case5 => cases h
  | case6 _ pos _ _ _ _ _ _ _ ih => have := ih h; omega
  | case7 => cases h
  | case8 => cases h

/-- A type as far as it has been read. -/
structure TypeHead where
  /-- The type as it is reported. -/
  text : String
  /-- The last part of a qualified name. -/
  last : String
  /-- The name has several parts. -/
  qualified : Bool
  /-- The type is left to the value. -/
  inferred : Bool
  /-- Where the type ends. -/
  stop : Nat
deriving DecidableEq, Repr

/-- A built-in type may have several words: the type with all that follow. -/
def moreWords (d : Dialect) (src : Source) (head : TypeHead) : TypeHead :=
  match _h : src.identAt? (src.skipTrivia d.lexicon head.stop) with
  | some (word, e) =>
    if d.primitives.contains word then
      d.moreWords src { head with text := head.text ++ " " ++ word, stop := e }
    else head
  | none => head
termination_by src.size - head.stop
decreasing_by
  have := Source.identAt?_bounds _h
  have := src.le_skipTrivia d.lexicon head.stop
  omega

/-- The type with the lists of type arguments and the qualified parts that follow. -/
def moreParts? (d : Dialect) (src : Source) (limit : Nat) (head : TypeHead) : Option TypeHead :=
  if src.byte? head.stop == some '<'.toUInt8 then
    match _h : typeArgumentsEnd? src limit head.stop with
    | none => none
    | some close =>
      d.moreParts? src limit
        { head with text := head.text ++ Text.collapse (src.slice head.stop close), stop := close }
  else if src.startsWith head.stop d.separatorBytes then
    match _h : src.identAt? (head.stop + d.separatorBytes.length) with
    | none => none
    | some (part, e) =>
      d.moreParts? src limit
        { head with text := head.text ++ d.separator ++ part, last := part, qualified := true, stop := e }
  else some head
termination_by src.size - head.stop
decreasing_by
  · have := typeArgumentsEndFrom?_bounds _h
    omega
  · have := Source.identAt?_bounds _h
    omega

/-- The type with the empty array brackets that follow. -/
def moreDimensions (d : Dialect) (src : Source) (head : TypeHead) : TypeHead :=
  let opener := src.skipTrivia d.lexicon head.stop
  let closer := src.skipTrivia d.lexicon (opener + 1)
  if _h : src.byte? opener = some '['.toUInt8 ∧ src.byte? closer = some ']'.toUInt8 then
    d.moreDimensions src { head with text := head.text ++ "[]", stop := closer + 1 }
  else head
termination_by src.size - head.stop
decreasing_by
  have h1 : src.skipTrivia d.lexicon (src.skipTrivia d.lexicon head.stop + 1) < src.size :=
    Source.byte?_eq_some_lt _h.2
  have h2 := src.le_skipTrivia d.lexicon head.stop
  have h3 := src.le_skipTrivia d.lexicon (src.skipTrivia d.lexicon head.stop + 1)
  omega

/-- Whether a type that opens with the word `first` looks like one. -/
def isAccepted (d : Dialect) (first : String) (head : TypeHead) : Bool :=
  d.primitives.contains first ||
    (head.last.toList.head?).any Char.isUpper ||
    d.libraryTypes.contains head.last ||
    (head.qualified && d.qualifiedTypes) ||
    d.typeSuffix.any fun suffix => suffix.toList.isSuffixOf head.last.toList

/-- The type that starts at `pos`, if one does. -/
def typeHead? (d : Dialect) (src : Source) (limit pos : Nat) : Option TypeHead :=
  match src.identAt? pos with
  | none => none
  | some (first, e) =>
    if d.keywords.contains first then none
    else if d.inferred.contains first then some ⟨first, first, false, true, e⟩
    else
      let head : TypeHead := ⟨first, first, false, false, e⟩
      let head := if d.primitives.contains first then d.moreWords src head else head
      match d.moreParts? src limit head with
      | none => none
      | some head =>
        let head := d.moreDimensions src head
        if d.isAccepted first head then some head else none

/-! ## Types move forward -/

theorem stop_le_moreWords (d : Dialect) (src : Source) (head : TypeHead) :
    head.stop ≤ (d.moreWords src head).stop := by
  fun_induction moreWords d src head with
  | case1 head word e h _ ih =>
    have := Source.identAt?_bounds h
    have := src.le_skipTrivia d.lexicon head.stop
    simp only at ih
    omega
  | case2 => exact Nat.le_refl _
  | case3 => exact Nat.le_refl _

theorem stop_le_moreParts? {d : Dialect} {src : Source} {limit : Nat} {head whole : TypeHead}
    (h : d.moreParts? src limit head = some whole) : head.stop ≤ whole.stop := by
  fun_induction moreParts? d src limit head with
  | case1 => cases h
  | case2 head _ close hc ih =>
    have hle : close ≤ whole.stop := ih h
    have := typeArgumentsEndFrom?_bounds hc
    omega
  | case3 => cases h
  | case4 head _ _ part e hid ih =>
    have hle : e ≤ whole.stop := ih h
    have := Source.identAt?_bounds hid
    omega
  | case5 => cases h; exact Nat.le_refl _

theorem stop_le_moreDimensions (d : Dialect) (src : Source) (head : TypeHead) :
    head.stop ≤ (d.moreDimensions src head).stop := by
  fun_induction moreDimensions d src head with
  | case1 head opener closer _ ih =>
    have h1 := src.le_skipTrivia d.lexicon head.stop
    have h2 := src.le_skipTrivia d.lexicon (opener + 1)
    simp only at ih
    omega
  | case2 => exact Nat.le_refl _

theorem lt_stop_of_typeHead? {d : Dialect} {src : Source} {limit pos : Nat} {head : TypeHead}
    (h : d.typeHead? src limit pos = some head) : pos < head.stop := by
  unfold typeHead? at h
  split at h
  · cases h
  · next first e hid =>
    have hb := Source.identAt?_bounds hid
    split at h
    · cases h
    · split at h
      · cases h; exact hb.1
      · simp only at h
        split at h
        · cases h
        · next whole hparts =>
          have h2 := stop_le_moreParts? hparts
          have h3 := stop_le_moreDimensions d src whole
          have h1 : e ≤ (if d.primitives.contains first then
              d.moreWords src ⟨first, first, false, false, e⟩
            else (⟨first, first, false, false, e⟩ : TypeHead)).stop := by
            split
            · exact stop_le_moreWords d src ⟨first, first, false, false, e⟩
            · exact Nat.le_refl _
          split at h
          · cases h; omega
          · cases h

end Dialect
end VarCensus
