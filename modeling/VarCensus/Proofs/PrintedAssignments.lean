import VarCensus.Proofs.ReadingValues
import VarCensus.Proofs.ScannedRecords

/-!
# Assignments that were printed are found

A program of chained assignments is printed line by line, `a = b = value`, and read back: the search finds one
record for each target, with the value as it was printed and the place where the target was put.

What a value may be is said by `Written.IsValue`. One thing more is asked of it, that it does not go on with the
chain in front of it (`OpensChain`): otherwise its own first name would be a target.
-/

namespace VarCensus
namespace Python

open Source Written

/-! ## Programs -/

/-- A name that can be assigned to. -/
structure IsTarget (name : String) : Prop where
  ident : Text.isIdent name = true
  free : keywords.contains name = false

/-- A text starts with a name that is assigned to: inline space and one equals sign come behind the name. -/
def OpensChain (text : List UInt8) : Prop :=
  ∃ name gap rest, IsTarget name ∧ (∀ b ∈ gap, isInlineSpace b = true) ∧ rest.head? ≠ some '='.toUInt8 ∧
    text = Text.bytes name ++ gap ++ '='.toUInt8 :: rest

/-- What the value of an assignment does not hold outside its literals. -/
def endsStatement (_ : Bool) (b : UInt8) : Bool :=
  b == ';'.toUInt8

/-- An assignment of one value to one or more targets. -/
structure Assignment where
  first : String
  more : List String
  value : String
  isTarget : ∀ name ∈ first :: more, IsTarget name
  isValue : IsValue .python endsStatement value
  unchained : ¬ OpensChain (Text.bytes value)

/-- Targets, each with an equals sign behind it. -/
def printChain : List String → String
  | [] => ""
  | name :: more => name ++ " = " ++ printChain more

/-- The line of an assignment. -/
def Assignment.print (a : Assignment) : String :=
  printChain (a.first :: a.more) ++ a.value ++ "\n"

/-- The lines of a program. -/
def printProgram : List Assignment → String
  | [] => ""
  | a :: program => a.print ++ printProgram program

/-- Targets with their places, of which the first is `pos`. -/
def placeChain (pos : Nat) : List String → List Target
  | [] => []
  | name :: more => ⟨name, pos⟩ :: placeChain (pos + (name ++ " = ").utf8ByteSize) more

/-- The records of an assignment whose line starts at `pos`. -/
def Assignment.recordsAt (src : Source) (pos : Nat) (a : Assignment) : List Record :=
  (placeChain pos (a.first :: a.more)).map fun target =>
    ⟨target.name, a.value, Cue.kindOf .python a.value, [], Location.atOffset src target.pos⟩

/-- The records of a program whose first line starts at `pos`. -/
def programRecords (src : Source) : Nat → List Assignment → List Record
  | _, [] => []
  | pos, a :: program => a.recordsAt src pos ++ programRecords src (pos + a.print.utf8ByteSize) program

/-! ## Targets are read -/

variable {text : String} {pos : Nat} {rest : List UInt8}

theorem bytes_equals : Text.bytes " = " = [' '.toUInt8, '='.toUInt8, ' '.toUInt8] := by
  decide

theorem head_of_isIdent {name : String} (h : Text.isIdent name = true) : ∃ b more, Text.bytes name = b :: more ∧
    isIdentByte b = true := by
  obtain ⟨b, more, hb, -, hall⟩ := Text.exists_of_isIdent h
  exact ⟨b, more, hb, hall b (by simp [hb])⟩

/-- What stands where a target with its equals sign does. -/
structure TargetAt (src : Source) (pos : Nat) (name : String) : Prop where
  ident : src.identAt? pos = some (name, pos + name.utf8ByteSize)
  gap : src.skipInlineSpace (pos + name.utf8ByteSize) = pos + name.utf8ByteSize + 1
  equals : src.isLoneEquals (pos + name.utf8ByteSize + 1) = true
  next : src.skipInlineSpace (pos + name.utf8ByteSize + 1 + 1) = pos + (name ++ " = ").utf8ByteSize
  before : src.byteBefore? (pos + (name ++ " = ").utf8ByteSize) = some ' '.toUInt8

theorem targetAt_of_after {src : Source} {name : String} (hname : IsTarget name)
    (hafter : src.after pos = Text.bytes (name ++ " = ") ++ rest) (hrest : rest.head?.any isInlineSpace = false) :
    TargetAt src pos name := by
  rw [Text.bytes_append, bytes_equals, List.append_assoc] at hafter
  have hgap : src.after (pos + name.utf8ByteSize) = [' '.toUInt8] ++ '='.toUInt8 :: ' '.toUInt8 :: rest := by
    rw [← Text.length_bytes]
    exact after_add hafter
  have heq : src.after (pos + name.utf8ByteSize + 1) = '='.toUInt8 :: ' '.toUInt8 :: rest := after_add hgap
  have hspace : src.after (pos + name.utf8ByteSize + 1 + 1) = [' '.toUInt8] ++ rest := after_succ heq
  have hsize : pos + (name ++ " = ").utf8ByteSize = pos + name.utf8ByteSize + 1 + 1 + 1 := by
    rw [String.utf8ByteSize_append]
    rfl
  refine ⟨identAt?_of_after hname.ident hafter rfl, ?_, ?_, ?_, ?_⟩
  · exact skipWhile_of_after hgap (List.all_eq_true.mp rfl) rfl
  · have hnext := byte?_of_after hspace
    have hbefore : src.byteBefore? (pos + name.utf8ByteSize + 1) = some ' '.toUInt8 := byte?_of_after hgap
    rw [isLoneEquals, byte?_of_after heq, hnext, hbefore]
    decide
  · rw [hsize]
    exact skipWhile_of_after hspace (List.all_eq_true.mp rfl) hrest
  · rw [hsize]
    exact byte?_of_after hspace

/-- A name with an equals sign behind it does not reach across a line end. -/
theorem opensChain_of_append {name : String} {gap beyond value : List UInt8} (hname : IsTarget name)
    (hgap : ∀ b ∈ gap, isInlineSpace b = true) (hbeyond : beyond.head? ≠ some '='.toUInt8)
    (h : Text.bytes name ++ gap ++ ['='.toUInt8] ++ beyond = value ++ '\n'.toUInt8 :: rest) :
    OpensChain value := by
  rcases List.append_eq_append_iff.mp h with ⟨part, hvalue, hrest⟩ | ⟨part, hpart, hrest⟩
  · refine ⟨name, gap, part, hname, hgap, ?_, by rw [hvalue, ← List.append_cons]⟩
    cases part with
    | nil => simp
    | cons b part =>
      rw [hrest] at hbeyond
      exact hbeyond
  · cases part with
    | nil => exact ⟨name, gap, [], hname, hgap, by simp, by simpa using hpart.symm⟩
    | cons b part =>
      -- the line end would be a byte of the name, of the gap or the equals sign
      cases hrest
      have hmem : '\n'.toUInt8 ∈ Text.bytes name ++ gap ++ ['='.toUInt8] :=
        hpart ▸ List.mem_append_right _ List.mem_cons_self
      rw [List.mem_append, List.mem_append] at hmem
      rcases hmem with (hmem | hmem) | hmem
      · obtain ⟨-, -, -, -, hall⟩ := Text.exists_of_isIdent hname.ident
        exact absurd (hall _ hmem) (by decide)
      · exact absurd (hgap _ hmem) (by decide)
      · exact absurd hmem (by decide)

/-- The search for further targets ends at a value that opens no chain. -/
theorem chainedTargets_of_value {value : List UInt8} (hchain : ¬ OpensChain value)
    (hafter : (ofString text).after pos = value ++ '\n'.toUInt8 :: rest)
    (hprev : (ofString text).byteBefore? pos = some ' '.toUInt8) :
    chainedTargets (ofString text) pos = ([], pos) := by
  rw [chainedTargets]
  split
  · rfl
  · next name e hid =>
    dsimp only
    split
    · rfl
    · next hcond =>
      simp only [Bool.or_eq_true, Bool.not_eq_true', not_or, Bool.not_eq_true, Bool.not_eq_false] at hcond
      obtain ⟨hfree, hequals⟩ := hcond
      simp only [isLoneEquals, Bool.and_eq_true, beq_iff_eq, bne_iff_ne] at hequals
      obtain ⟨hname, hident⟩ := after_of_identAt? (edge_of_byteBefore? hprev (by decide)) hid
      obtain ⟨gap, hgap, hspace⟩ := after_skipWhile (ofString text) isInlineSpace e
      have hparts : Text.bytes name ++ gap ++ ['='.toUInt8] ++
          (ofString text).after ((ofString text).skipInlineSpace e + 1) = value ++ '\n'.toUInt8 :: rest := by
        rw [← hafter, hname, hgap, List.append_assoc, List.append_assoc]
        exact congrArg _ (congrArg _ (after_eq_cons hequals.1.1).symm)
      refine absurd (opensChain_of_append ⟨hident, hfree⟩ hspace ?_ hparts) hchain
      rw [head?_after]
      exact hequals.1.2

theorem isInlineSpace_of_isIdentByte {b : UInt8} (h : isIdentByte b = true) : isInlineSpace b = false := by
  by_contra hspace
  have hblank := isAsciiBlank_of_isInlineSpace (Bool.not_eq_false _ ▸ hspace)
  rw [(isPlain_of_isAsciiBlank hblank).2] at h
  cases h

theorem skipInlineSpace_of_isIdentByte {src : Source} {b : UInt8} (hb : src.byte? pos = some b)
    (hident : isIdentByte b = true) : src.skipInlineSpace pos = pos := by
  refine skipInlineSpace_eq_self ?_
  rw [head?_after, hb]
  exact isInlineSpace_of_isIdentByte hident

/-- A chain and what comes behind it start with no space. -/
theorem head_printChain {more : List String} (hmore : ∀ name ∈ more, IsTarget name)
    (hrest : rest.head?.any isInlineSpace = false) :
    (Text.bytes (printChain more) ++ rest).head?.any isInlineSpace = false := by
  cases more with
  | nil => exact hrest
  | cons name more =>
    obtain ⟨b, tail, hb, hident⟩ := head_of_isIdent (hmore name List.mem_cons_self).ident
    simp [printChain, hb, isInlineSpace_of_isIdentByte hident]

theorem getLast_printChain (name : String) (more : List String) :
    (Text.bytes (printChain (name :: more))).getLast? = some ' '.toUInt8 := by
  induction more generalizing name with
  | nil => simp [printChain, bytes_equals]
  | cons next more ih =>
    rw [printChain, Text.bytes_append, List.getLast?_append, ih next]
    rfl

theorem chainedTargets_of_chain {value : List UInt8} (hchain : ¬ OpensChain value)
    (hvalue : (value ++ '\n'.toUInt8 :: rest).head?.any isInlineSpace = false) {more : List String}
    (hmore : ∀ name ∈ more, IsTarget name)
    (hafter : (ofString text).after pos = Text.bytes (printChain more) ++ (value ++ '\n'.toUInt8 :: rest))
    (hprev : (ofString text).byteBefore? pos = some ' '.toUInt8) :
    chainedTargets (ofString text) pos = (placeChain pos more, pos + (printChain more).utf8ByteSize) := by
  induction more generalizing pos with
  | nil => exact chainedTargets_of_value hchain hafter hprev
  | cons name more ih =>
    have hmore' : ∀ n ∈ more, IsTarget n := fun n hn => hmore n (List.mem_cons_of_mem _ hn)
    have hname := hmore name List.mem_cons_self
    rw [printChain, Text.bytes_append, List.append_assoc] at hafter
    have hat := targetAt_of_after hname hafter (head_printChain hmore' hvalue)
    have hrec := ih hmore' (Text.length_bytes _ ▸ after_add hafter) hat.before
    rw [chainedTargets]
    split
    · next hnone => simp [hat.ident] at hnone
    · next name' e hid =>
      rw [hat.ident] at hid
      cases hid
      dsimp only
      rw [hat.gap, hat.equals, hname.free, if_neg (by decide), hat.next, hrec, placeChain, printChain,
        Nat.add_assoc, ← String.utf8ByteSize_append]

/-! ## Statements are read -/

theorem isTerminator_eq_false (src : Source) (b : UInt8) (pos : Nat) (hb : endsStatement true b = false)
    (hfeed : b ≠ '\n'.toUInt8) : src.isTerminator .python statementStops b pos = false := by
  simp only [endsStatement, beq_eq_false_iff_ne] at hb
  simp [isTerminator, statementStops, hb, hfeed]

/-- The value of printed targets, from the position behind their last equals sign on. -/
theorem matchValue?_of_value {value : String} {limit : Nat} (index : LineIndex) (first : Target)
    (more : List Target) (hv : IsValue .python endsStatement value)
    (hafter : (ofString text).after pos = Text.bytes value ++ '\n'.toUInt8 :: rest)
    (hprev : (ofString text).byteBefore? pos = some ' '.toUInt8) (hl : value.utf8ByteSize ≤ limit) :
    matchValue? (ofString text) index limit first more pos =
      some ⟨(first :: more).map fun target =>
        ⟨target.name, value, Cue.kindOf .python value, [], index.location target.pos⟩,
        pos + value.utf8ByteSize + 1⟩ := by
  have hfence : Fence ('\n'.toUInt8 :: rest) := .blank rfl
  have hstart : (ofString text).skipInlineSpace pos = pos := by
    obtain ⟨b, tail, hb, -, hspace⟩ := hv.exists_head
    exact skipInlineSpace_eq_self (by simpa [hafter, hb] using hspace)
  have hscan : scan (ofString text) limit first.pos statementStops pos =
      ⟨pos + value.utf8ByteSize, .terminator (pos + value.utf8ByteSize)⟩ :=
    scanValueUntil_of_value hv (isTerminator_eq_false _) hafter hfence hprev rfl hl
  have hne : value.isEmpty = false := by simpa using hv.ne_empty
  simp only [matchValue?, hstart, hscan, codeText_of_value hv hafter hfence hprev, hv.collapsed, hne]
  rfl

/-- **A printed assignment is found where it stands.** -/
theorem matchStatement?_of_assignment {limit : Nat} (index : LineIndex) (a : Assignment)
    (hafter : (ofString text).after pos = Text.bytes a.print ++ rest) (hl : a.value.utf8ByteSize ≤ limit) :
    matchStatement? (ofString text) index limit pos =
      some ⟨(placeChain pos (a.first :: a.more)).map fun target =>
        ⟨target.name, a.value, Cue.kindOf .python a.value, [], index.location target.pos⟩,
        pos + a.print.utf8ByteSize⟩ := by
  have hmore : ∀ name ∈ a.more, IsTarget name := fun name hname => a.isTarget name (List.mem_cons_of_mem _ hname)
  have hfirst := a.isTarget a.first List.mem_cons_self
  obtain ⟨b, tail, hb, -, hspace⟩ := a.isValue.exists_head
  have hvalue : (Text.bytes a.value ++ '\n'.toUInt8 :: rest).head?.any isInlineSpace = false := by
    simpa [hb] using hspace
  have hline : (ofString text).after pos =
      Text.bytes (printChain (a.first :: a.more)) ++ (Text.bytes a.value ++ '\n'.toUInt8 :: rest) := by
    rw [hafter, Assignment.print]
    simp only [Text.bytes_append, List.append_assoc]
    rfl
  have hprev := byteBefore?_add hline (getLast_printChain a.first a.more)
  have hbehind := after_add hline
  rw [Text.length_bytes] at hprev hbehind
  rw [printChain, Text.bytes_append, List.append_assoc] at hline
  have hat := targetAt_of_after hfirst hline (head_printChain hmore hvalue)
  have hchain := after_add hline
  rw [Text.length_bytes] at hchain
  have htargets := chainedTargets_of_chain a.unchained hvalue hmore hchain hat.before
  have hstop : pos + (a.first ++ " = ").utf8ByteSize + (printChain a.more).utf8ByteSize =
      pos + (printChain (a.first :: a.more)).utf8ByteSize := by
    rw [printChain, Nat.add_assoc, ← String.utf8ByteSize_append]
  have hnext : pos + (printChain (a.first :: a.more)).utf8ByteSize + a.value.utf8ByteSize + 1 =
      pos + a.print.utf8ByteSize := by
    rw [Assignment.print, String.utf8ByteSize_append, String.utf8ByteSize_append, ← Nat.add_assoc, ← Nat.add_assoc]
    rfl
  simp only [matchStatement?, hat.ident, hat.gap, hfirst.free, isAnnotationColon_of_isLoneEquals hat.equals, hat.equals,
    matchChained?, hat.next, htargets, hstop,
    matchValue?_of_value index ⟨a.first, pos⟩ _ a.isValue hbehind hprev hl, hnext]
  rfl

/-- The search where a word stands. -/
theorem recordsFrom_of_isIdentByte {src : Source} {index : LineIndex} {limit : Nat} {b : UInt8}
    (hb : src.byte? pos = some b) (hident : isIdentByte b = true) :
    recordsFrom src index limit pos =
      match matchStatement? src index limit pos with
      | some found => found.records ++ recordsFrom src index limit found.next
      | none => recordsFrom src index limit (skipStatement src limit pos) := by
  have hspace := skipInlineSpace_of_isIdentByte hb hident
  have hcomment : src.commentEnd? .python pos = none :=
    commentEnd?_eq_none (after_eq_cons hb ▸ opensComment_of_isPlain (isPlain_of_isIdentByte hident))
  have hstop : ¬ (b == '\n'.toUInt8 || b == ';'.toUInt8) = true := by
    intro hor
    simp only [Bool.or_eq_true, beq_iff_eq] at hor
    rcases hor with rfl | rfl <;> exact absurd hident (by decide)
  rw [recordsFrom]
  split
  · next hnone =>
    rw [hspace, hb] at hnone
    cases hnone
  · next c hc =>
    rw [hspace, hb] at hc
    cases hc
    rw [if_neg hstop]
    split
    · next e he =>
      rw [hspace, hcomment] at he
      cases he
    · split
      · next found hfound =>
        rw [hspace] at hfound
        rw [hfound]
      · next hnone =>
        rw [hspace] at hnone
        rw [hnone, hspace]

/-- The search goes on behind a declaration that it finds where it stands. -/
theorem recordsFrom_of_match {src : Source} {index : LineIndex} {limit : Nat} {b : UInt8} {found : Finding}
    (hb : src.byte? pos = some b) (hident : isIdentByte b = true)
    (h : matchStatement? src index limit pos = some found) :
    recordsFrom src index limit pos = found.records ++ recordsFrom src index limit found.next := by
  rw [recordsFrom_of_isIdentByte hb hident, h]

theorem recordsFrom_of_end {src : Source} {index : LineIndex} {limit : Nat} (h : src.after pos = []) :
    recordsFrom src index limit pos = [] := by
  have hspace : src.skipInlineSpace pos = pos := skipInlineSpace_eq_self (by rw [h]; rfl)
  rw [recordsFrom]
  split
  · rfl
  · next b hb =>
    rw [hspace, ← head?_after, h] at hb
    cases hb

/-! ## Programs are read -/

theorem head_print (a : Assignment) : ∃ b, (Text.bytes a.print).head? = some b ∧ isIdentByte b = true := by
  obtain ⟨b, tail, hb, hident⟩ := head_of_isIdent (a.isTarget a.first List.mem_cons_self).ident
  exact ⟨b, by simp [Assignment.print, printChain, hb], hident⟩

theorem le_of_mem_placeChain {target : Target} {names : List String} (h : target ∈ placeChain pos names) :
    target.pos ≤ pos + (printChain names).utf8ByteSize := by
  induction names generalizing pos with
  | nil => cases h
  | cons name more ih =>
    rcases List.mem_cons.mp h with rfl | h
    · exact Nat.le_add_right _ _
    · rw [printChain, String.utf8ByteSize_append, ← Nat.add_assoc]
      exact ih h

/-- The places of the targets, as the table of line starts gives them. -/
theorem recordsAt_eq {src : Source} {a : Assignment} (h : src.after pos = Text.bytes a.print ++ rest) :
    ((placeChain pos (a.first :: a.more)).map fun target =>
      (⟨target.name, a.value, Cue.kindOf .python a.value, [], (LineIndex.ofSource src).location target.pos⟩ :
        Record)) = a.recordsAt src pos := by
  refine List.map_congr_left fun target htarget => ?_
  have hsize : pos + a.print.utf8ByteSize ≤ src.size := by
    obtain ⟨b, hb, -⟩ := head_print a
    rw [← Text.length_bytes]
    exact add_length_le_size h (List.ne_nil_of_mem (List.mem_of_head? hb))
  have hle := le_of_mem_placeChain htarget
  rw [Assignment.print, String.utf8ByteSize_append, String.utf8ByteSize_append] at hsize
  rw [LineIndex.location_ofSource (by omega)]

/-- A printed program is found line by line. -/
theorem recordsFrom_of_program {limit : Nat} {program : List Assignment}
    (hl : ∀ a ∈ program, a.value.utf8ByteSize ≤ limit)
    (hafter : (ofString text).after pos = Text.bytes (printProgram program)) :
    recordsFrom (ofString text) (.ofSource (ofString text)) limit pos =
      programRecords (ofString text) pos program := by
  induction program generalizing pos with
  | nil => exact recordsFrom_of_end hafter
  | cons a program ih =>
    rw [printProgram, Text.bytes_append] at hafter
    obtain ⟨b, hb, hident⟩ := head_print a
    have hbyte : (ofString text).byte? pos = some b := by
      rw [← head?_after, hafter, List.head?_append, hb, Option.some_or]
    have hmatch := matchStatement?_of_assignment (.ofSource (ofString text)) a hafter (hl a List.mem_cons_self)
    have hrest := after_add hafter
    rw [Text.length_bytes] at hrest
    rw [recordsFrom_of_match hbyte hident hmatch, programRecords, recordsAt_eq hafter,
      ih (fun c hc => hl c (List.mem_cons_of_mem _ hc)) hrest]

/-- **Assignments that were printed are found.** For every program of assignments and every bound that no value
of it exceeds, extraction gives one record for each target, in order: its name, the value as printed, the kind
of that value and the place of the target in the text. -/
theorem extract_printProgram (program : List Assignment) (tree : Option Tree) {limit : Nat}
    (hl : ∀ a ∈ program, a.value.utf8ByteSize ≤ limit) :
    Language.python.extract limit ⟨printProgram program, tree⟩ =
      .ok (programRecords (ofString (printProgram program)) 0 program) := by
  obtain ⟨_, hfinds⟩ := finds_recordsFrom (ofString (printProgram program)) (.ofSource _) limit 0
  refine congrArg Except.ok ((Record.sortByPlace_of_ordered hfinds.ordered).trans ?_)
  exact recordsFrom_of_program hl rfl

theorem not_opensChain {value : List UInt8} (h : '='.toUInt8 ∉ value) : ¬ OpensChain value := by
  rintro ⟨name, gap, rest, -, -, -, rfl⟩
  exact h (by simp)

theorem opensOrdinary {prev quote : UInt8} {behind : List UInt8} (h : isQuote quote = true) :
    OpensOrdinary .python prev quote behind :=
  ⟨h, fun _ hlex => absurd hlex (by decide), fun _ hlex => absurd hlex (by decide)⟩

/-- A chain whose value has a semicolon in a literal and brackets in brackets. -/
def chainedCall : Assignment where
  first := "a"
  more := ["b"]
  value := "f(';', [1])"
  isTarget := by
    intro name hname
    simp only [List.mem_cons, List.not_mem_nil, or_false] at hname
    rcases hname with rfl | rfl <;> exact ⟨by decide, by decide⟩
  isValue := by
    have hliteral : Literal .python '('.toUInt8 [0x27, 0x3B, 0x27] (Text.bytes ", [1])") :=
      .quoted (opensOrdinary rfl) (by decide) (.plain (by decide) (by decide) (by decide) .close)
    refine ⟨by decide, by decide, ?_⟩
    refine .byte rfl rfl rfl (by decide) (by decide) rfl (.opener rfl (.literal hliteral ?_))
    refine .byte rfl rfl rfl (by decide) (by decide) rfl (.byte rfl rfl rfl (by decide) (by decide) rfl ?_)
    refine .opener rfl (.byte rfl rfl rfl (by decide) (by decide) rfl ?_)
    exact .closer rfl (.closer rfl .done)
  unchained := not_opensChain (by decide)

/-- An assignment of a literal in three quotes. -/
def tripleQuoted : Assignment where
  first := "größe"
  more := []
  value := "'''it's'''"
  isTarget := by
    intro name hname
    rw [List.mem_singleton.mp hname]
    exact ⟨by decide, by decide⟩
  isValue := by
    have hliteral : Literal .python ' '.toUInt8 (Text.bytes "'''it's'''") [] := by
      refine .triple (opensOrdinary rfl) rfl ?_
      refine .plain (by decide) (by decide) (.plain (by decide) (by decide) ?_)
      exact .plain (by decide) (by decide) (.plain (by decide) (by decide) .close)
    exact ⟨by decide, by decide, .literal hliteral .done⟩
  unchained := not_opensChain (by decide)

theorem extract_printProgram_twoLines :
    (∀ a ∈ [chainedCall, tripleQuoted], a.value.utf8ByteSize ≤ 11) ∧
    printProgram [chainedCall, tripleQuoted] = "a = b = f(';', [1])\ngröße = '''it's'''\n" ∧
    Language.python.extract 11 ⟨printProgram [chainedCall, tripleQuoted], none⟩ =
      .ok [⟨"a", "f(';', [1])", .unknown, [], ⟨1, 1, 0⟩⟩, ⟨"b", "f(';', [1])", .unknown, [], ⟨1, 5, 4⟩⟩,
        ⟨"größe", "'''it's'''", .string, [], ⟨2, 1, 20⟩⟩] := by
  have hl : ∀ a ∈ [chainedCall, tripleQuoted], a.value.utf8ByteSize ≤ 11 := by decide
  refine ⟨hl, by decide, (extract_printProgram _ none hl).trans (congrArg Except.ok ?_)⟩
  decide

end Python
end VarCensus
