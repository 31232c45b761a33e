import VarCensus.Finding
import VarCensus.Cue
import VarCensus.Dialect.TypeHead
import VarCensus.Source.ValueScan
import VarCensus.Source.CodeText

/-!
# Declarators

One name of a typed declaration, with what may stand around it: pointer marks in front, array brackets
behind, and a value after an equals sign or in braces. `declaratorAt` reads one and tells what the
declaration makes of it; the three outcomes are what keeps the names before a broken declarator from
being lost with it.
-/

namespace VarCensus
namespace Dialect

/-- What reading a declarator comes to. -/
inductive Declarator where
  /-- A variable, and the comma or semicolon that ends its declarator. -/
  | found (record : Record) (terminator : Nat)
  /-- No declarator: the declaration ends here if it has declared anything, and else was none. -/
  | finished (next : Nat)
  /-- A declarator that cannot be read to its end: the declaration ends here, whatever it has declared. -/
  | abandoned (next : Nat)
deriving Repr

/-- What ends a value that follows an equals sign. -/
def valueStops : Stops :=
  { semicolon := true, declaratorComma := true }

/-- The pointer marks from `pos` on, without the trivia between them, and the position after them. -/
def pointerMarks (d : Dialect) (src : Source) (pos : Nat) : List Char × Nat :=
  if _h : pos < src.size ∧ src.isPointerMark pos = true then
    let (marks, stop) := d.pointerMarks src (src.skipTrivia d.lexicon (pos + 1))
    ((if src.byte? pos = some '*'.toUInt8 then '*' else '&') :: marks, stop)
  else ([], pos)
termination_by src.size - pos
decreasing_by
  have := src.le_skipTrivia d.lexicon (pos + 1)
  omega

theorem le_pointerMarks (d : Dialect) (src : Source) (pos : Nat) : pos ≤ (d.pointerMarks src pos).2 := by
  fun_induction pointerMarks d src pos with
  | case1 pos _ marks stop hrec ih =>
    have := src.le_skipTrivia d.lexicon (pos + 1)
    rw [hrec] at ih
    simp only at ih ⊢
    omega
  | case2 => exact Nat.le_refl _

/-- The array brackets from `pos` on, each collapsed, and the position after them; when one is never
closed, the position where it opens. -/
def dimensions (d : Dialect) (src : Source) (limit pos : Nat) : Except Nat (String × Nat) :=
  if src.byte? pos == some '['.toUInt8 then
    match _h : src.groupEnd? d.lexicon '['.toUInt8 ']'.toUInt8 limit pos with
    | none => .error pos
    | some e =>
      match d.dimensions src limit (src.skipTrivia d.lexicon e) with
      | .error opener => .error opener
      | .ok (text, stop) => .ok (Text.collapse (src.slice pos e) ++ text, stop)
  else .ok ("", pos)
termination_by src.size - pos
decreasing_by
  have := Source.groupEnd?_bounds _h
  have := src.le_skipTrivia d.lexicon e
  omega

theorem le_dimensions {d : Dialect} {src : Source} {limit pos stop : Nat} {text : String}
    (h : d.dimensions src limit pos = .ok (text, stop)) : pos ≤ stop := by
  fun_induction dimensions d src limit pos generalizing text stop with
  | case1 => cases h
  | case2 => cases h
  | case3 pos _ e he text' stop' hrec ih =>
    cases h
    have := ih hrec
    have := Source.groupEnd?_bounds he
    have := src.le_skipTrivia d.lexicon e
    omega
  | case4 => cases h; exact Nat.le_refl _

/-- Whether the line at `line`, indented at most `indent`, opens a declaration. -/
def startsDeclaration (d : Dialect) (src : Source) (limit indent line : Nat) : Bool :=
  let pos := src.skipInlineSpace line
  if indent < pos - line then false
  else match (d.skipModifiers? src limit pos).bind (d.typeHead? src limit) with
    | none => false
    | some head =>
      let pos := src.skipTrivia d.lexicon head.stop
      let pos := if d.pointers then src.skipPointerMarks d.lexicon pos else pos
      match src.identAt? pos with
      | none => false
      | some (name, e) =>
        let next := src.skipTrivia d.lexicon e
        !d.isReserved name &&
          (src.isLoneEquals next ||
            ((src.byte? next).any fun b => [';', ',', '['].any (·.toUInt8 == b)) ||
            (d.braceValues && src.byte? next == some '\x7b'.toUInt8))

/-- The kind of a variable with the given type and value: the type, unless it is left to the value. -/
def kindOf (head : TypeHead) (type value : String) : Kind :=
  if head.inferred then Cue.kindOf .cLike value else .declared type

/-- The record of a variable that is declared without a value. -/
def bareRecord (head : TypeHead) (name type : String) (place : Location) : Record :=
  ⟨name, noValue, if head.inferred then .uninitialized else .declared type, [], place⟩

/-- The declarator of a name at `namePos` whose equals sign stands at `pos`. -/
def assigned (d : Dialect) (src : Source) (limit indent namePos pos : Nat) (recordOf : String → Record) :
    Declarator :=
  let start := src.skipTrivia d.lexicon (pos + 1)
  let scan := src.scanValueUntil d.lexicon valueStops limit (d.startsDeclaration src limit indent) start
  match scan.stop with
  | .terminator e =>
    let value := Text.collapse (src.codeText d.lexicon start scan.codeEnd)
    if value.isEmpty then .finished (e + 1) else .found (recordOf value) e
  | .limit => .abandoned (src.lineEnd namePos + 1)
  | .unbalanced e => .abandoned e
  | .endOfText => .finished src.size

/-- The declarator of a name with a value in braces, which open at `pos`. -/
def braced (d : Dialect) (src : Source) (limit pos : Nat) (recordOf : String → Record) : Declarator :=
  match src.groupEnd? d.lexicon '\x7b'.toUInt8 '\x7d'.toUInt8 limit pos with
  | none => .finished (pos + 1)
  | some e =>
    let after := src.skipTrivia d.lexicon e
    if src.byte? after == some ';'.toUInt8 || src.byte? after == some ','.toUInt8 then
      let value := Text.collapse (src.codeText d.lexicon pos e)
      if value.isEmpty then .finished (after + 1) else .found (recordOf value) after
    else .finished (pos + 1)

/-- The declarator of a name at `namePos`, read from `pos` on, where its value stands if it has one. -/
def declaratorValue (d : Dialect) (src : Source) (place : Location) (limit indent : Nat) (head : TypeHead)
    (name type : String) (namePos pos : Nat) : Declarator :=
  let recordOf value : Record := ⟨name, value, kindOf head type value, [], place⟩
  if src.isLoneEquals pos then d.assigned src limit indent namePos pos recordOf
  else if d.braceValues && src.byte? pos == some '\x7b'.toUInt8 then d.braced src limit pos recordOf
  else if src.byte? pos == some ';'.toUInt8 || src.byte? pos == some ','.toUInt8 then
    .found (bareRecord head name type place) pos
  else .finished pos

/-- The declarator at or after `pos`, in a declaration that is indented by `indent` and opens with the
type `head`. -/
def declaratorAt (d : Dialect) (src : Source) (index : LineIndex) (limit indent : Nat) (head : TypeHead)
    (pos : Nat) : Declarator :=
  let pos := src.skipTrivia d.lexicon pos
  let (marks, pos) := if d.pointers then d.pointerMarks src pos else ([], pos)
  match src.identAt? pos with
  | none => .finished pos
  | some (name, e) =>
    if d.isReserved name then .finished pos
    else match d.dimensions src limit (src.skipTrivia d.lexicon e) with
      | .error opener => .finished opener
      | .ok (brackets, after) =>
        d.declaratorValue src (index.location pos) limit indent head name
          (head.text ++ String.ofList marks ++ brackets) pos after

/-! ## Declarators move forward -/

/-- An outcome that lies ahead of `pos`: a terminator at or after it, inside the source, or a place to go
on strictly after it. -/
def Declarator.Ahead (src : Source) (pos : Nat) : Declarator → Prop
  | .found _ t => pos ≤ t ∧ t < src.size
  | .finished _ => True
  | .abandoned n => pos < n

theorem Declarator.Ahead.mono {src : Source} {pos pos' : Nat} {outcome : Declarator} (hle : pos ≤ pos')
    (h : outcome.Ahead src pos') : outcome.Ahead src pos := by
  cases outcome with
  | found => exact ⟨Nat.le_trans hle h.1, h.2⟩
  | finished => trivial
  | abandoned => exact Nat.lt_of_le_of_lt hle h

theorem ahead_assigned (d : Dialect) (src : Source) (limit indent : Nat) {namePos pos : Nat}
    (recordOf : String → Record) (hn : namePos ≤ pos) (hs : pos < src.size) :
    (d.assigned src limit indent namePos pos recordOf).Ahead src namePos := by
  have hle := src.le_skipTrivia d.lexicon (pos + 1)
  unfold assigned
  simp only
  split
  · next e hstop =>
    have := Source.scanFrom_stop_bounds (by
      unfold Source.scanValueUntil at hstop; rw [hstop]; rfl)
    split
    · trivial
    · exact ⟨by omega, this.2⟩
  · have := Source.le_lineEnd (show namePos ≤ src.size by omega)
    simp only [Declarator.Ahead]
    omega
  · next e hstop =>
    have := Source.scanFrom_stop_bounds (by
      unfold Source.scanValueUntil at hstop; rw [hstop]; rfl)
    simp only [Declarator.Ahead]
    omega
  · trivial

theorem ahead_braced (d : Dialect) (src : Source) (limit pos : Nat) (recordOf : String → Record) :
    (d.braced src limit pos recordOf).Ahead src pos := by
  unfold braced
  split
  · trivial
  · next e he =>
    have h1 := Source.groupEnd?_bounds he
    have h2 := src.le_skipTrivia d.lexicon e
    simp only
    split
    · next hb =>
      split
      · trivial
      · simp only [Bool.or_eq_true, beq_iff_eq] at hb
        refine ⟨by omega, ?_⟩
        rcases hb with hb | hb <;> exact Source.byte?_eq_some_lt hb
    · trivial

theorem ahead_declaratorValue (d : Dialect) (src : Source) (place : Location) (limit indent : Nat)
    (head : TypeHead) (name type : String) {namePos pos : Nat} (h : namePos ≤ pos) :
    (d.declaratorValue src place limit indent head name type namePos pos).Ahead src namePos := by
  unfold declaratorValue
  simp only
  split
  · next heq =>
    simp only [Source.isLoneEquals, Bool.and_eq_true, beq_iff_eq] at heq
    exact ahead_assigned d src limit indent _ h (Source.byte?_eq_some_lt heq.1.1)
  · split
    · exact (ahead_braced d src limit pos _).mono h
    · split
      · next hb =>
        simp only [Bool.or_eq_true, beq_iff_eq] at hb
        refine ⟨h, ?_⟩
        rcases hb with hb | hb <;> exact Source.byte?_eq_some_lt hb
      · trivial

theorem ahead_declaratorAt (d : Dialect) (src : Source) (index : LineIndex) (limit indent : Nat)
    (head : TypeHead) (pos : Nat) :
    (d.declaratorAt src index limit indent head pos).Ahead src pos := by
  have h1 := src.le_skipTrivia d.lexicon pos
  unfold declaratorAt
  simp only
  have h2 : src.skipTrivia d.lexicon pos ≤
      (if d.pointers = true then d.pointerMarks src (src.skipTrivia d.lexicon pos)
        else ([], src.skipTrivia d.lexicon pos)).2 := by
    split
    · exact le_pointerMarks d src _
    · exact Nat.le_refl _
  split
  · trivial
  · next name e hid =>
    have h3 := Source.identAt?_bounds hid
    split
    · trivial
    · split
      · trivial
      · next brackets after hd =>
        have h4 := le_dimensions hd
        have h5 := src.le_skipTrivia d.lexicon e
        exact (ahead_declaratorValue d src _ limit indent head name _ (by omega)).mono (by omega)

end Dialect
end VarCensus
