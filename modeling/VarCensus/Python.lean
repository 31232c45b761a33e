import VarCensus.Finding
import VarCensus.Cue
import VarCensus.Source.ValueScan
import VarCensus.Source.CodeText

/-!
# Python declarations

At each statement start three shapes are declarations: `name: Type = value`, the bare `name: Type`, and
the chain `a = b = value`, in which every target gets a record of its own. A statement ends at a line feed
outside brackets and literals, unless a backslash hides it, or at a semicolon; a statement that declares
nothing also ends at a colon, so that what follows the head of a block is looked at.

A bracket that is never closed does not swallow the rest of the file: the scan of a statement gives up at
the first line that opens a declaration and is indented no deeper than the statement itself.

`matchStatement?` and `skipStatement` both move forward from every position inside the source
(`lt_next_of_matchStatement?`, `lt_skipStatement`), and the search from one statement start to the next
ends for that reason alone.
-/

namespace VarCensus
namespace Python

/-- Words that name no variable. -/
def keywords : List String :=
  ["False", "None", "True", "and", "as", "assert", "async", "await", "break", "class", "continue", "def",
    "del", "elif", "else", "except", "finally", "for", "from", "global", "if", "import", "in", "is",
    "lambda", "nonlocal", "not", "or", "pass", "raise", "return", "try", "while", "with", "yield"]

/-- What ends the value of a statement. -/
def statementStops : Stops :=
  { newline := true, semicolon := true }

/-- What ends an annotation. -/
def annotationStops : Stops :=
  { statementStops with assignment := true }

/-- What ends a statement that declares nothing. -/
def skipStops : Stops :=
  { statementStops with colon := true }

/-- A name that is assigned to, and where it stands. -/
structure Target where
  name : String
  pos : Nat
deriving DecidableEq, Repr

/-- Whether the byte at `pos` opens an annotation: a colon that is not the walrus operator. -/
def isAnnotationColon (src : Source) (pos : Nat) : Bool :=
  src.byte? pos == some ':'.toUInt8 && src.byte? (pos + 1) != some '='.toUInt8

theorem isAnnotationColon_of_isLoneEquals {src : Source} {pos : Nat} (h : src.isLoneEquals pos = true) :
    isAnnotationColon src pos = false := by
  simp only [Source.isLoneEquals, Bool.and_eq_true, beq_iff_eq] at h
  have hne : some '='.toUInt8 ≠ some ':'.toUInt8 := by decide
  simp [isAnnotationColon, h.1.1, beq_eq_false_iff_ne.mpr hne]

/-- Whether the line at `line`, indented at most `indent`, opens a declaration. -/
def startsDeclaration (src : Source) (indent line : Nat) : Bool :=
  let pos := src.skipInlineSpace line
  if indent < pos - line then false
  else match src.identAt? pos with
    | none => false
    | some (name, e) =>
      let after := src.skipInlineSpace e
      !keywords.contains name && (src.isLoneEquals after || isAnnotationColon src after)

/-- Scans a part of the statement that starts at `statement`. -/
def scan (src : Source) (limit statement : Nat) (stops : Stops) (start : Nat) : ValueScan :=
  src.scanValueUntil .python stops limit (startsDeclaration src (src.indentation statement)) start

/-- Gives up a declaration that is too long: the search goes on with the next line. -/
def dropped (src : Source) (statement : Nat) : Finding :=
  ⟨[], src.lineEnd statement + 1⟩

/-- The declaration of the targets `first :: more` whose value starts at or after `pos`. -/
def matchValue? (src : Source) (index : LineIndex) (limit : Nat) (first : Target) (more : List Target)
    (pos : Nat) : Option Finding :=
  let start := src.skipInlineSpace pos
  let found := scan src limit first.pos statementStops start
  let value := Text.collapse (src.codeText .python start found.codeEnd)
  let records := (first :: more).map fun target =>
    (⟨target.name, value, Cue.kindOf .python value, [], index.location target.pos⟩ : Record)
  match found.stop with
  | .limit => some (dropped src first.pos)
  | .terminator e => if value.isEmpty then none else some ⟨records, e + 1⟩
  | .unbalanced e => if value.isEmpty then none else some ⟨records, e⟩
  | .endOfText => if value.isEmpty then none else some ⟨records, src.size⟩

/-- The declaration of a target whose annotation starts at `pos`. -/
def matchAnnotated? (src : Source) (index : LineIndex) (limit : Nat) (target : Target) (pos : Nat) :
    Option Finding :=
  let found := scan src limit target.pos annotationStops pos
  let annotation := Text.trim (src.slice pos found.codeEnd)
  let record := Record.bare target.name (index.location target.pos)
  match found.stop with
  | .limit => some (dropped src target.pos)
  | .unbalanced _ => none
  | .terminator e =>
    if annotation.isEmpty then none
    else if src.byte? e == some '='.toUInt8 then matchValue? src index limit target [] (e + 1)
    else some ⟨[record], e + 1⟩
  | .endOfText => if annotation.isEmpty then none else some ⟨[record], src.size⟩

/-- The targets of a chain from `pos` on, and the position after the last equals sign. -/
def chainedTargets (src : Source) (pos : Nat) : List Target × Nat :=
  match _h : src.identAt? pos with
  | none => ([], pos)
  | some (name, e) =>
    let eq := src.skipInlineSpace e
    if keywords.contains name || !src.isLoneEquals eq then ([], pos)
    else
      let (targets, stop) := chainedTargets src (src.skipInlineSpace (eq + 1))
      (⟨name, pos⟩ :: targets, stop)
termination_by src.size - pos
decreasing_by
  have h1 := Source.identAt?_bounds _h
  have h2 := src.le_skipInlineSpace e
  have h3 := src.le_skipInlineSpace (src.skipInlineSpace e + 1)
  omega

/-- The declaration of a chain whose first equals sign stands right before `pos`. -/
def matchChained? (src : Source) (index : LineIndex) (limit : Nat) (first : Target) (pos : Nat) :
    Option Finding :=
  let (more, stop) := chainedTargets src (src.skipInlineSpace pos)
  matchValue? src index limit first more stop

/-- The declaration that starts at `start`, if one does. -/
def matchStatement? (src : Source) (index : LineIndex) (limit start : Nat) : Option Finding :=
  match src.identAt? start with
  | none => none
  | some (name, e) =>
    let after := src.skipInlineSpace e
    if keywords.contains name then none
    else if isAnnotationColon src after then matchAnnotated? src index limit ⟨name, start⟩ (after + 1)
    else if src.isLoneEquals after then matchChained? src index limit ⟨name, start⟩ (after + 1)
    else none

/-- The position after the statement at `start`, which declares nothing. -/
def skipStatement (src : Source) (limit start : Nat) : Nat :=
  match (scan src limit start skipStops start).stop with
  | .terminator e => e + 1
  | .unbalanced e => e + 1
  | .endOfText => src.size
  | .limit => src.lineEnd start + 1

/-! ## Progress -/

theorem scan_stop_bounds {src : Source} {limit statement start p : Nat} {stops : Stops}
    (h : (scan src limit statement stops start).stop.pos? = some p) : start ≤ p ∧ p < src.size :=
  Source.scanFrom_stop_bounds h

theorem lt_next_dropped {src : Source} {statement : Nat} (h : statement < src.size) :
    statement < (dropped src statement).next := by
  have := Source.le_lineEnd (Nat.le_of_lt h)
  simp only [dropped]
  omega

theorem lt_next_of_matchValue? {src : Source} {index : LineIndex} {limit pos : Nat} {first : Target}
    {more : List Target} {found : Finding} (hs : first.pos < src.size) (hp : first.pos < pos)
    (h : matchValue? src index limit first more pos = some found) : first.pos < found.next := by
  have hle := src.le_skipInlineSpace pos
  unfold matchValue? at h
  simp only at h
  split at h
  · cases h; exact lt_next_dropped hs
  all_goals
    next hstop =>
      split at h
      · cases h
      · cases h
        first
          | exact hs
          | have := scan_stop_bounds (by rw [hstop]; rfl)
            simp only
            omega

theorem lt_next_of_matchAnnotated? {src : Source} {index : LineIndex} {limit pos : Nat} {target : Target}
    {found : Finding} (hs : target.pos < src.size) (hp : target.pos < pos)
    (h : matchAnnotated? src index limit target pos = some found) : target.pos < found.next := by
  unfold matchAnnotated? at h
  simp only at h
  split at h
  · cases h; exact lt_next_dropped hs
  · cases h
  · next e hstop =>
    have := scan_stop_bounds (by rw [hstop]; rfl)
    split at h
    · cases h
    · split at h
      · exact lt_next_of_matchValue? hs (by omega) h
      · cases h; simp only; omega
  · split at h
    · cases h
    · cases h; exact hs

theorem le_chainedTargets (src : Source) (pos : Nat) : pos ≤ (chainedTargets src pos).2 := by
  fun_induction chainedTargets src pos with
  | case1 => exact Nat.le_refl _
  | case2 => exact Nat.le_refl _
  | case3 pos name e h eq _ targets stop hrec ih =>
    have h1 := Source.identAt?_bounds h
    have h2 := src.le_skipInlineSpace e
    have h3 := src.le_skipInlineSpace (eq + 1)
    rw [hrec] at ih
    simp only at ih ⊢
    omega

theorem lt_next_of_matchStatement? {src : Source} {index : LineIndex} {limit start : Nat}
    {found : Finding} (h : matchStatement? src index limit start = some found) : start < found.next := by
  unfold matchStatement? at h
  split at h
  · cases h
  · next name e hid =>
    have hb := Source.identAt?_bounds hid
    have hle := src.le_skipInlineSpace e
    simp only at h
    split at h
    · cases h
    · split at h
      · exact lt_next_of_matchAnnotated? (show start < src.size by omega) (by simp only; omega) h
      · split at h
        · unfold matchChained? at h
          have h1 := src.le_skipInlineSpace (src.skipInlineSpace e + 1)
          have h2 := le_chainedTargets src (src.skipInlineSpace (src.skipInlineSpace e + 1))
          exact lt_next_of_matchValue? (show start < src.size by omega) (by simp only; omega) h
        · cases h

theorem lt_skipStatement {src : Source} (limit : Nat) {start : Nat} (h : start < src.size) :
    start < skipStatement src limit start := by
  unfold skipStatement
  split
  · next e hstop =>
    have := scan_stop_bounds (by rw [hstop]; rfl)
    omega
  · next e hstop =>
    have := scan_stop_bounds (by rw [hstop]; rfl)
    omega
  · exact h
  · have := Source.le_lineEnd (Nat.le_of_lt h)
    omega

/-! ## The search -/

/-- The declarations at or after `pos`, in the order in which they are found. -/
def recordsFrom (src : Source) (index : LineIndex) (limit pos : Nat) : List Record :=
  let start := src.skipInlineSpace pos
  match _hb : src.byte? start with
  | none => []
  | some b =>
    if b == '\n'.toUInt8 || b == ';'.toUInt8 then recordsFrom src index limit (start + 1)
    else match _hc : src.commentEnd? .python start with
      | some e => recordsFrom src index limit e
      | none =>
        match _hm : matchStatement? src index limit start with
        | some found => found.records ++ recordsFrom src index limit found.next
        | none => recordsFrom src index limit (skipStatement src limit start)
termination_by src.size - pos
decreasing_by
  all_goals
    have hle := src.le_skipInlineSpace pos
    have hlt := Source.byte?_eq_some_lt _hb
  · omega
  · have := Source.commentEnd?_bounds _hc; omega
  · have := lt_next_of_matchStatement? _hm; omega
  · have := lt_skipStatement limit (show src.skipInlineSpace pos < src.size from hlt); omega

/-- The variables that a Python source declares; `limit` bounds how far one declaration may extend. -/
def records (limit : Nat) (src : Source) : List Record :=
  Record.sortByPlace (recordsFrom src (LineIndex.ofSource src) limit 0)

end Python
end VarCensus
