import VarCensus.Proofs.ReadingValues
import VarCensus.Proofs.ScannedRecords

/-!
# Declarations that were printed are found

A program of typed declarations is printed line by line, `T a = value, b;`, and read back: the search finds one
record for each variable, with its type, with its value as it was printed or the text that stands for none, and
with the place where its name was put.

A comma ends a declarator only if another declarator comes behind it, and that is found out by looking ahead
(`declaratorFollows_of_variable`). So the comma behind a value is recognised by the variable that is printed
next, and the induction along the variables of a declaration needs only the next one.
-/

namespace VarCensus
namespace Dialect

open Source Written

variable {d : Dialect}

/-! ## Programs -/

/-- What the value of a declarator does not hold outside its literals and brackets. -/
def endsDeclarator (outside : Bool) (b : UInt8) : Bool :=
  outside && (b == ';'.toUInt8 || b == ','.toUInt8)

/-- A word that is a type by itself: a built-in one, or an identifier with a capital letter in front. -/
def IsType (d : Dialect) (type : String) : Prop :=
  d.primitives.contains type = true ∨
    Text.isIdent type = true ∧ type.toList.head?.any Char.isUpper = true

/-- A variable to be declared, with or without a value. -/
structure Variable (d : Dialect) where
  name : String
  value : Option String
  ident : Text.isIdent name = true
  free : d.isReserved name = false
  isValue : ∀ v ∈ value, IsValue d.lexicon endsDeclarator v

/-- A declaration of one or more variables. -/
structure Declaration (d : Dialect) where
  type : String
  first : Variable d
  more : List (Variable d)
  isType : d.IsType type

/-- The text of a declarator. -/
def Variable.print (x : Variable d) : String :=
  match x.value with
  | none => x.name
  | some v => x.name ++ " = " ++ v

/-- Further declarators, and the end of the line. -/
def printMore : List (Variable d) → String
  | [] => ";\n"
  | x :: more => ", " ++ x.print ++ printMore more

/-- Further declarators alone. -/
def moreText : List (Variable d) → String
  | [] => ""
  | x :: more => ", " ++ x.print ++ moreText more

/-- The line of a declaration. -/
def Declaration.print (c : Declaration d) : String :=
  c.type ++ " " ++ c.first.print ++ printMore c.more

/-- The text of a declaration in front of what ends it. -/
def Declaration.openPrint (c : Declaration d) : String :=
  c.type ++ " " ++ c.first.print ++ moreText c.more

/-- The lines of a program. -/
def printProgram : List (Declaration d) → String
  | [] => ""
  | c :: program => c.print ++ printProgram program

/-- The records of variables of one type, of which the first stands at `pos`. -/
def variableRecords (src : Source) (type : String) : Nat → List (Variable d) → List Record
  | _, [] => []
  | pos, x :: more =>
    ⟨x.name, x.value.getD noValue, .declared type, [], Location.atOffset src pos⟩ ::
      variableRecords src type (pos + (x.print ++ ", ").utf8ByteSize) more

/-- The records of a declaration whose line starts at `pos`. -/
def Declaration.recordsAt (src : Source) (pos : Nat) (c : Declaration d) : List Record :=
  variableRecords src c.type (pos + (c.type ++ " ").utf8ByteSize) (c.first :: c.more)

/-- The records of a program whose first line starts at `pos`. -/
def programRecords (src : Source) : Nat → List (Declaration d) → List Record
  | _, [] => []
  | pos, c :: program => c.recordsAt src pos ++ programRecords src (pos + c.print.utf8ByteSize) program

/-! ## One declarator -/

variable {text : String} {pos : Nat} {rest : List UInt8} {x : Variable d} {more : List (Variable d)}

/-- Behind one space a word starts right away. -/
theorem skipTrivia_of_word {src : Source} {name : String} {e : Nat} (hspace : src.byte? pos = some ' '.toUInt8)
    (hid : src.identAt? (pos + 1) = some (name, e)) :
    src.skipTrivia d.lexicon pos = pos + 1 ∧ ∃ b, src.byte? (pos + 1) = some b ∧ isIdentByte b = true := by
  have hword := isWord_of_identEnd? (identEnd?_of_identAt? hid)
  obtain ⟨b, hb, hident⟩ := (Option.any_eq_true ..).mp (hword.bytes (pos + 1) (Nat.le_refl _) hword.lt)
  rw [skipTrivia_blank hspace rfl]
  exact ⟨skipTrivia_of_isSolid hb (isSolid_of_isIdentByte hident), b, hb, hident⟩

theorem printMore_eq (more : List (Variable d)) : printMore more = moreText more ++ ";\n" := by
  induction more with
  | nil => rfl
  | cons x more ih => rw [printMore, moreText, ih, ← String.append_assoc]

theorem utf8ByteSize_moreText_cons (x : Variable d) (more : List (Variable d)) :
    (moreText (x :: more)).utf8ByteSize = 2 + x.print.utf8ByteSize + (moreText more).utf8ByteSize := by
  rw [moreText, String.utf8ByteSize_append, String.utf8ByteSize_append]
  rfl

theorem bytes_moreText_cons (x : Variable d) (more : List (Variable d)) (rest : List UInt8) :
    Text.bytes (moreText (x :: more)) ++ rest =
      ','.toUInt8 :: ' '.toUInt8 :: (Text.bytes x.print ++ (Text.bytes (moreText more) ++ rest)) := by
  rw [moreText]
  simp only [Text.bytes_append, List.append_assoc]
  rfl

/-- A declarator ends at a position: with a semicolon, or with a comma that another declarator comes behind. What
stands there changes no value in front of it. -/
structure Closes (d : Dialect) (src : Source) (pos : Nat) (m : UInt8) : Prop where
  byte : src.byte? pos = some m
  mark : m = ';'.toUInt8 ∨ m = ','.toUInt8
  terminates : src.isTerminator d.lexicon valueStops m pos = true
  fence : Fence (src.after pos)

theorem closes_semicolon {src : Source} (h : src.after pos = ';'.toUInt8 :: rest)
    (hf : Fence (';'.toUInt8 :: rest)) : Closes d src pos ';'.toUInt8 :=
  ⟨byte?_of_after h, Or.inl rfl, rfl, h ▸ hf⟩

theorem closes_comma {src : Source} (h : src.after pos = ','.toUInt8 :: ' '.toUInt8 :: rest)
    (hfollows : src.declaratorFollows d.lexicon (pos + 1) = true) : Closes d src pos ','.toUInt8 :=
  ⟨byte?_of_after h, Or.inr rfl, hfollows, h ▸ .mark (Or.inr rfl) rfl⟩

/-- What stands where a variable does, and where its value is looked for. -/
structure NameAt (src : Source) (pos : Nat) (x : Variable d) (next : Nat) : Prop where
  ident : src.identAt? pos = some (x.name, pos + x.name.utf8ByteSize)
  next : src.skipTrivia d.lexicon (pos + x.name.utf8ByteSize) = next

/-- A name and the equals sign behind it. -/
theorem equals_of_name {src : Source} {name : String} (lex : Lexicon) (hident : Text.isIdent name = true)
    (h : src.after pos = Text.bytes name ++ ' '.toUInt8 :: '='.toUInt8 :: ' '.toUInt8 :: rest) :
    src.identAt? pos = some (name, pos + name.utf8ByteSize) ∧
      src.skipTrivia lex (pos + name.utf8ByteSize) = pos + name.utf8ByteSize + 1 ∧
      src.isLoneEquals (pos + name.utf8ByteSize + 1) = true ∧
      src.after (pos + name.utf8ByteSize + 1) = '='.toUInt8 :: ' '.toUInt8 :: rest := by
  have hgap := after_add h
  rw [Text.length_bytes] at hgap
  have heq := after_succ hgap
  refine ⟨identAt?_of_after hident h rfl, skipTrivia_space hgap rfl, ?_, heq⟩
  have hbefore : src.byteBefore? (pos + name.utf8ByteSize + 1) = some ' '.toUInt8 := byte?_of_after hgap
  rw [isLoneEquals, byte?_of_after heq, byte?_of_after (after_succ heq), hbefore]
  decide

theorem nameAt_of_value {src : Source} {v : String} (hv : x.value = some v)
    (h : src.after pos = Text.bytes x.print ++ rest) :
    NameAt src pos x (pos + x.name.utf8ByteSize + 1) ∧ src.isLoneEquals (pos + x.name.utf8ByteSize + 1) = true ∧
      src.after (pos + x.name.utf8ByteSize + 1) = '='.toUInt8 :: ' '.toUInt8 :: (Text.bytes v ++ rest) := by
  have hname : src.after pos =
      Text.bytes x.name ++ ' '.toUInt8 :: '='.toUInt8 :: ' '.toUInt8 :: (Text.bytes v ++ rest) := by
    rw [h, Variable.print, hv]
    simp only [Text.bytes_append, List.append_assoc]
    rfl
  obtain ⟨hid, hnext, hequals, hafter⟩ := equals_of_name d.lexicon x.ident hname
  exact ⟨⟨hid, hnext⟩, hequals, hafter⟩

theorem nameAt_of_bare {src : Source} {m : UInt8} (hv : x.value = none)
    (h : src.after pos = Text.bytes x.print ++ rest) (hm : src.byte? (pos + x.print.utf8ByteSize) = some m)
    (hmark : m = ';'.toUInt8 ∨ m = ','.toUInt8) :
    NameAt src pos x (pos + x.name.utf8ByteSize) ∧ src.byte? (pos + x.name.utf8ByteSize) = some m := by
  rw [Variable.print, hv] at h hm
  have hrest : rest.head? = some m := by
    have hbehind := after_add h
    rw [Text.length_bytes] at hbehind
    rw [← hbehind, head?_after, hm]
  refine ⟨⟨identAt?_of_after x.ident h ?_, skipTrivia_of_isSolid hm ?_⟩, hm⟩
  · rw [hrest]
    rcases hmark with rfl | rfl <;> rfl
  · rcases hmark with rfl | rfl <;> rfl

theorem identAt?_of_variable {src : Source} {m : UInt8} (h : src.after pos = Text.bytes x.print ++ rest)
    (hm : src.byte? (pos + x.print.utf8ByteSize) = some m) (hmark : m = ';'.toUInt8 ∨ m = ','.toUInt8) :
    src.identAt? pos = some (x.name, pos + x.name.utf8ByteSize) := by
  cases hv : x.value with
  | none => exact (nameAt_of_bare hv h hm hmark).1.ident
  | some v => exact (nameAt_of_value hv h).1.ident

theorem isPointerMark_eq_false {src : Source} {b : UInt8} (hb : src.byte? pos = some b)
    (hident : isIdentByte b = true) : src.isPointerMark pos = false := by
  rw [isPointerMark, hb]
  by_contra hmark
  simp only [Bool.not_eq_false, Bool.or_eq_true, beq_iff_eq, Option.some.injEq] at hmark
  rcases hmark with rfl | rfl <;> exact absurd hident (by decide)

theorem skipPointerMarks_eq_self {src : Source} {b : UInt8} (lex : Lexicon) (hb : src.byte? pos = some b)
    (hident : isIdentByte b = true) : src.skipPointerMarks lex pos = pos := by
  rw [skipPointerMarks, dif_neg]
  simp [isPointerMark_eq_false hb hident]

/-- A name behind one space is seen as a declarator if an equals sign or the end of a declarator follows. -/
theorem declaratorFollows_of_name {src : Source} {name : String} {e next : Nat}
    (hspace : src.byte? pos = some ' '.toUInt8) (hid : src.identAt? (pos + 1) = some (name, e))
    (hnext : src.skipTrivia d.lexicon e = next)
    (hmark : src.isLoneEquals next = true ∨
      ∃ m, src.byte? next = some m ∧ (m = ';'.toUInt8 ∨ m = ','.toUInt8)) :
    src.declaratorFollows d.lexicon pos = true := by
  obtain ⟨hstart, b, hbyte, hident⟩ := skipTrivia_of_word hspace hid
  rw [declaratorFollows, hstart, skipPointerMarks_eq_self d.lexicon hbyte hident, identEnd?_of_identAt? hid]
  dsimp only
  rw [hnext]
  rcases hmark with hequals | ⟨m, hm, hor⟩
  · rw [hequals, Bool.true_or]
  · rw [hm]
    rcases hor with rfl | rfl <;> simp

/-- **A printed declarator is seen behind its comma.** -/
theorem declaratorFollows_of_variable {src : Source} {m : UInt8}
    (h : src.after pos = ' '.toUInt8 :: (Text.bytes x.print ++ rest))
    (hm : src.byte? (pos + 1 + x.print.utf8ByteSize) = some m) (hmark : m = ';'.toUInt8 ∨ m = ','.toUInt8) :
    src.declaratorFollows d.lexicon pos = true := by
  have hname := after_succ h
  cases hv : x.value with
  | none =>
    obtain ⟨hat, hbyte⟩ := nameAt_of_bare hv hname hm hmark
    exact declaratorFollows_of_name (byte?_of_after h) hat.ident hat.next (Or.inr ⟨m, hbyte, hmark⟩)
  | some v =>
    obtain ⟨hat, hequals, -⟩ := nameAt_of_value hv hname
    exact declaratorFollows_of_name (byte?_of_after h) hat.ident hat.next (Or.inl hequals)

/-- Where the last of some declarators ends, so does the one in front of them. -/
theorem closes_of_moreText {src : Source} {m : UInt8} (h : src.after pos = Text.bytes (moreText more) ++ rest)
    (hc : Closes d src (pos + (moreText more).utf8ByteSize) m) : ∃ m, Closes d src pos m := by
  induction more generalizing pos with
  | nil => exact ⟨m, hc⟩
  | cons y more ih =>
    rw [bytes_moreText_cons] at h
    have hspace := after_succ h
    have hbehind := after_add (after_succ hspace)
    rw [Text.length_bytes] at hbehind
    have hsize : pos + (moreText (y :: more)).utf8ByteSize =
        pos + 1 + 1 + y.print.utf8ByteSize + (moreText more).utf8ByteSize := by
      rw [utf8ByteSize_moreText_cons]
      omega
    obtain ⟨m', hc'⟩ := ih hbehind (hsize ▸ hc)
    exact ⟨','.toUInt8, closes_comma h (declaratorFollows_of_variable hspace hc'.byte hc'.mark)⟩

theorem isTerminator_eq_false (src : Source) (lex : Lexicon) (b : UInt8) (pos : Nat)
    (hb : endsDeclarator true b = false) (_ : b ≠ '\n'.toUInt8) :
    src.isTerminator lex valueStops b pos = false := by
  simp only [endsDeclarator, Bool.true_and, Bool.or_eq_false_iff, beq_eq_false_iff_ne] at hb
  simp [isTerminator, valueStops, hb]

/-- An equals sign stands on the line, so that no directive starts behind it. -/
theorem atLineStart_of_equals {src : Source} (h : src.after pos = '='.toUInt8 :: ' '.toUInt8 :: rest) :
    src.atLineStart (pos + 1 + 1) = false := by
  rw [atLineStart, byte?_of_after (after_succ h)]
  dsimp only
  rw [atLineStart, byte?_of_after h]
  rfl

/-- The trivia behind an equals sign end where a printed value starts. -/
theorem skipTrivia_of_value {v : String} (hv : IsValue d.lexicon endsDeclarator v) (hf : Fence rest)
    (h : (ofString text).after pos = '='.toUInt8 :: ' '.toUInt8 :: (Text.bytes v ++ rest)) :
    (ofString text).skipTrivia d.lexicon (pos + 1) = pos + 1 + 1 := by
  have hspace := after_succ h
  have hvalue := after_succ hspace
  obtain ⟨b, tail, hb, hblank, -⟩ := hv.exists_head
  have hcomment := commentEnd?_eq_none (hvalue ▸ opensComment_of_code hv.code hf)
  rw [skipTrivia_blank (byte?_of_after hspace) rfl]
  refine skipTrivia_eq_self ?_
  rw [hb] at hvalue
  rw [triviaEnd?, byte?_of_after hvalue]
  simp [hblank, hcomment, startsDirective, atLineStart_of_equals h]

theorem assigned_of_value {v : String} {m : UInt8} {limit indent namePos : Nat} {recordOf : String → Record}
    (hv : IsValue d.lexicon endsDeclarator v) (hl : v.utf8ByteSize ≤ limit)
    (h : (ofString text).after pos = '='.toUInt8 :: ' '.toUInt8 :: (Text.bytes v ++ rest))
    (hc : Closes d (ofString text) (pos + 2 + v.utf8ByteSize) m) :
    d.assigned (ofString text) limit indent namePos pos recordOf =
      .found (recordOf v) (pos + 2 + v.utf8ByteSize) := by
  have hprev : (ofString text).byteBefore? (pos + 2) = some ' '.toUInt8 := byte?_of_after (after_succ h)
  have hvalue : (ofString text).after (pos + 2) = Text.bytes v ++ rest := after_succ (after_succ h)
  have hbehind := after_add hvalue
  rw [Text.length_bytes] at hbehind
  have hfence : Fence rest := hbehind ▸ hc.fence
  have hrest : rest = m :: (ofString text).after (pos + 2 + v.utf8ByteSize + 1) := by
    rw [← hbehind]
    exact after_eq_cons hc.byte
  have hstart : (ofString text).skipTrivia d.lexicon (pos + 1) = pos + 2 := skipTrivia_of_value hv hfence h
  have hscan : (ofString text).scanValueUntil d.lexicon valueStops limit
      (d.startsDeclaration (ofString text) limit indent) (pos + 2) =
        ⟨pos + 2 + v.utf8ByteSize, .terminator (pos + 2 + v.utf8ByteSize)⟩ :=
    scanValueUntil_of_value hv (isTerminator_eq_false _ _) (hvalue.trans (by rw [← hrest])) (hrest ▸ hfence) hprev
      hc.terminates hl
  have hne : v.isEmpty = false := by simpa using hv.ne_empty
  simp only [assigned, hstart, hscan, codeText_of_value hv hvalue hfence hprev, hv.collapsed, hne]
  rfl

theorem dimensions_of_byte {src : Source} {limit : Nat} {b : UInt8} (hb : src.byte? pos = some b)
    (hne : b ≠ '['.toUInt8) : d.dimensions src limit pos = .ok ("", pos) := by
  rw [dimensions, if_neg]
  simp [hb, hne]

theorem declaratorValue_of_mark {src : Source} {place : Location} {limit indent namePos : Nat} {head : TypeHead}
    {name type : String} {m : UInt8} (hb : src.byte? pos = some m) (hm : m = ';'.toUInt8 ∨ m = ','.toUInt8) :
    d.declaratorValue src place limit indent head name type namePos pos =
      .found (bareRecord head name type place) pos := by
  have hequals : src.isLoneEquals pos = false := by
    rw [isLoneEquals, hb]
    rcases hm with rfl | rfl <;> rfl
  have hbrace : (src.byte? pos == some '\x7b'.toUInt8) = false := by
    rw [hb]
    rcases hm with rfl | rfl <;> rfl
  have hmark : (src.byte? pos == some ';'.toUInt8 || src.byte? pos == some ','.toUInt8) = true := by
    rw [hb]
    rcases hm with rfl | rfl <;> rfl
  simp only [declaratorValue, hequals, hbrace, hmark, Bool.and_false, Bool.false_eq_true, ↓reduceIte]

/-- The type of a declaration, as it has been read. -/
def typeOnly (type : String) (stop : Nat) : TypeHead :=
  ⟨type, type, false, false, stop⟩

theorem typeOnly_text (type : String) (stop : Nat) :
    (typeOnly type stop).text ++ String.ofList [] ++ "" = type := by
  simp [typeOnly]

/-- A name behind one space, with no marks in front. -/
theorem pointerMarks_of_word {src : Source} {name : String} {e : Nat} (hspace : src.byte? pos = some ' '.toUInt8)
    (hid : src.identAt? (pos + 1) = some (name, e)) :
    (if d.pointers then d.pointerMarks src (src.skipTrivia d.lexicon pos)
      else ([], src.skipTrivia d.lexicon pos)) = ([], pos + 1) := by
  obtain ⟨hstart, b, hbyte, hident⟩ := skipTrivia_of_word hspace hid
  have hmarks : d.pointerMarks src (pos + 1) = ([], pos + 1) := by
    rw [pointerMarks, dif_neg]
    simp [isPointerMark_eq_false hbyte hident]
  rw [hstart, hmarks, ite_self]

/-- A name with an equals sign behind it gets the value behind the sign. -/
theorem declaratorAt_of_equals {src : Source} {index : LineIndex} {limit indent e eq : Nat} {head : TypeHead}
    {name : String} (hspace : src.byte? pos = some ' '.toUInt8) (hid : src.identAt? (pos + 1) = some (name, e))
    (hfree : d.isReserved name = false) (hnext : src.skipTrivia d.lexicon e = eq)
    (hequals : src.isLoneEquals eq = true) :
    d.declaratorAt src index limit indent head pos =
      d.assigned src limit indent (pos + 1) eq
        fun value => ⟨name, value, kindOf head head.text value, [], index.location (pos + 1)⟩ := by
  have hdimensions : d.dimensions src limit eq = .ok ("", eq) :=
    dimensions_of_byte (byte?_of_isLoneEquals hequals) (by decide)
  have htype : head.text ++ String.ofList [] ++ "" = head.text := by simp
  simp only [declaratorAt, pointerMarks_of_word hspace hid, hid, hfree, hnext, hdimensions, declaratorValue, hequals,
    htype]
  rfl

/-- **A printed declarator is read.** The position is that of the space in front of it. -/
theorem declaratorAt_of_variable {index : LineIndex} {limit indent stop : Nat} {type : String} {m : UInt8}
    (hl : ∀ v ∈ x.value, v.utf8ByteSize ≤ limit)
    (h : (ofString text).after pos = ' '.toUInt8 :: (Text.bytes x.print ++ rest))
    (hc : Closes d (ofString text) (pos + 1 + x.print.utf8ByteSize) m) :
    d.declaratorAt (ofString text) index limit indent (typeOnly type stop) pos =
      .found ⟨x.name, x.value.getD noValue, .declared type, [], index.location (pos + 1)⟩
        (pos + 1 + x.print.utf8ByteSize) := by
  have hspace := byte?_of_after h
  have hname := after_succ h
  cases hv : x.value with
  | none =>
    obtain ⟨hat, hm⟩ := nameAt_of_bare hv hname hc.byte hc.mark
    have hdimensions : d.dimensions (ofString text) limit (pos + 1 + x.name.utf8ByteSize) =
        .ok ("", pos + 1 + x.name.utf8ByteSize) :=
      dimensions_of_byte hm (by rcases hc.mark with rfl | rfl <;> decide)
    simp only [declaratorAt, pointerMarks_of_word hspace hat.ident, hat.ident, x.free, hat.next, hdimensions,
      declaratorValue_of_mark hm hc.mark, typeOnly_text, Variable.print, hv]
    rfl
  | some v =>
    obtain ⟨hat, hequals, hafter⟩ := nameAt_of_value hv hname
    have hstop : pos + 1 + x.print.utf8ByteSize = pos + 1 + x.name.utf8ByteSize + 1 + 2 + v.utf8ByteSize := by
      rw [Variable.print, hv]
      dsimp only
      rw [String.utf8ByteSize_append, String.utf8ByteSize_append, ← Nat.add_assoc, ← Nat.add_assoc]
      rfl
    rw [hstop] at hc ⊢
    rw [declaratorAt_of_equals hspace hat.ident x.free hat.next hequals,
      assigned_of_value (x.isValue v hv) (hl v hv) hafter hc]
    rfl

theorem declaratorsFrom?_of_found {src : Source} {index : LineIndex} {limit start indent t : Nat}
    {head : TypeHead} {record : Record} (recorded : List Record)
    (h : d.declaratorAt src index limit indent head pos = .found record t) :
    d.declaratorsFrom? src index limit start indent head recorded pos =
      if src.byte? t == some ';'.toUInt8 then some ⟨recorded ++ [record], t + 1⟩
      else d.declaratorsFrom? src index limit start indent head (recorded ++ [record]) (t + 1) := by
  rw [declaratorsFrom?_eq_match, h]

/-- **The declarators of a printed declaration are read one by one**, up to what ends the last of them: a
semicolon ends the declaration too, and behind a comma it goes on. -/
theorem declaratorsFrom?_of_variables {limit start indent stop : Nat} {type : String} {recorded : List Record}
    {m : UInt8} (hl : ∀ y ∈ x :: more, ∀ v ∈ y.value, v.utf8ByteSize ≤ limit)
    (h : (ofString text).after pos =
      ' '.toUInt8 :: (Text.bytes x.print ++ (Text.bytes (moreText more) ++ rest)))
    (hc : Closes d (ofString text) (pos + 1 + x.print.utf8ByteSize + (moreText more).utf8ByteSize) m) :
    d.declaratorsFrom? (ofString text) (.ofSource (ofString text)) limit start indent (typeOnly type stop)
        recorded pos =
      if m == ';'.toUInt8 then
        some ⟨recorded ++ variableRecords (ofString text) type (pos + 1) (x :: more),
          pos + 1 + x.print.utf8ByteSize + (moreText more).utf8ByteSize + 1⟩
      else d.declaratorsFrom? (ofString text) (.ofSource (ofString text)) limit start indent (typeOnly type stop)
        (recorded ++ variableRecords (ofString text) type (pos + 1) (x :: more))
        (pos + 1 + x.print.utf8ByteSize + (moreText more).utf8ByteSize + 1) := by
  induction more generalizing x pos recorded with
  | nil =>
    have hle : pos + 1 ≤ (ofString text).size := byte?_eq_some_lt (byte?_of_after h)
    rw [declaratorsFrom?_of_found _ (declaratorAt_of_variable (hl x List.mem_cons_self) h hc),
      LineIndex.location_ofSource hle]
    have hbyte : (ofString text).byte? (pos + 1 + x.print.utf8ByteSize) = some m := hc.byte
    rw [hbyte]
    rfl
  | cons y more ih =>
    have hle : pos + 1 ≤ (ofString text).size := byte?_eq_some_lt (byte?_of_after h)
    have hbehind := after_add (after_succ h)
    rw [Text.length_bytes] at hbehind
    obtain ⟨m', hc'⟩ := closes_of_moreText hbehind hc
    rw [bytes_moreText_cons] at hbehind
    have hplace : pos + 1 + x.print.utf8ByteSize + 1 + 1 = pos + 1 + (x.print ++ ", ").utf8ByteSize := by
      rw [String.utf8ByteSize_append, ← Nat.add_assoc]
      rfl
    have hend : pos + 1 + x.print.utf8ByteSize + (moreText (y :: more)).utf8ByteSize =
        pos + 1 + x.print.utf8ByteSize + 1 + 1 + y.print.utf8ByteSize + (moreText more).utf8ByteSize := by
      rw [utf8ByteSize_moreText_cons]
      omega
    rw [hend] at hc ⊢
    rw [declaratorsFrom?_of_found _ (declaratorAt_of_variable (hl x List.mem_cons_self) h hc'),
      byte?_of_after hbehind, LineIndex.location_ofSource hle, if_neg (by decide),
      ih (fun z hz => hl z (List.mem_cons_of_mem _ hz)) (after_succ hbehind) hc, hplace, List.append_assoc]
    rfl

/-! ## Types -/

/-- What the words of a dialect have in common with those of the other. -/
structure Regular (d : Dialect) : Prop where
  primitive : ∀ word ∈ d.primitives, Text.isIdent word = true ∧ d.modifiers.contains word = false ∧
    d.keywords.contains word = false ∧ d.inferred.contains word = false
  small : ∀ word ∈ d.modifiers ++ d.keywords ++ d.inferred, word.toList.head?.any Char.isUpper = false
  separator : ∃ b rest, Text.bytes d.separator = b :: rest ∧ b ≠ ' '.toUInt8

theorem regular_java : Regular .java :=
  ⟨by decide, by decide, '.'.toUInt8, [], by decide, by decide⟩

theorem regular_cpp : Regular .cpp :=
  ⟨by decide, by decide, ':'.toUInt8, [':'.toUInt8], by decide, by decide⟩

variable {type : String}

/-- A type is an identifier, and no word that is skipped or refused where a type is looked for. -/
theorem IsType.word (hd : Regular d) (h : d.IsType type) : Text.isIdent type = true ∧
    d.modifiers.contains type = false ∧ d.keywords.contains type = false ∧ d.inferred.contains type = false := by
  rcases h with h | ⟨hident, hupper⟩
  · exact hd.primitive type (List.contains_iff_mem.mp h)
  · have hsmall {words : List String} (hsub : words ⊆ d.modifiers ++ d.keywords ++ d.inferred) :
        words.contains type = false := by
      by_contra hmem
      rw [Bool.not_eq_false, List.contains_iff_mem] at hmem
      rw [hd.small type (hsub hmem)] at hupper
      cases hupper
    exact ⟨hident, hsmall (by simp), hsmall (by simp), hsmall (by simp)⟩

theorem skipModifiers?_of_word {src : Source} {limit : Nat} {word : String} (hident : Text.isIdent word = true)
    (hmodifier : d.modifiers.contains word = false) (h : src.after pos = Text.bytes word ++ ' '.toUInt8 :: rest) :
    d.skipModifiers? src limit pos = some pos := by
  have hid := identAt?_of_after hident h rfl
  obtain ⟨b, tail, hb, -, hall⟩ := Text.exists_of_isIdent hident
  have hbyte : src.byte? pos = some b := byte?_of_after (h.trans (by rw [hb, List.cons_append]))
  have hannotation : ¬ (d.annotations && src.byte? pos == some '@'.toUInt8) = true := by
    rw [hbyte, Bool.and_eq_true, beq_iff_eq, Option.some.injEq]
    rintro ⟨-, rfl⟩
    exact absurd (hall '@'.toUInt8 (by simp [hb])) (by decide)
  rw [skipModifiers?, dif_pos (byte?_eq_some_lt hbyte), if_neg hannotation]
  split
  · next word e hword =>
    rw [hid] at hword
    cases hword
    rw [hmodifier, if_neg (by decide)]
  · rfl

/-- A word that leaves the type to the value is the whole type. -/
theorem typeHead?_of_inferred {src : Source} {limit : Nat} {word : String} (hident : Text.isIdent word = true)
    (hkeyword : d.keywords.contains word = false) (hinferred : d.inferred.contains word = true)
    (h : src.after pos = Text.bytes word ++ ' '.toUInt8 :: rest) :
    d.typeHead? src limit pos = some ⟨word, word, false, true, pos + word.utf8ByteSize⟩ := by
  simp only [typeHead?, identAt?_of_after hident h rfl, hkeyword, hinferred]
  rfl

theorem moreWords_of_free {src : Source} {name : String} {e : Nat} {head : TypeHead}
    (hfree : d.isReserved name = false)
    (hid : src.identAt? (src.skipTrivia d.lexicon head.stop) = some (name, e)) : d.moreWords src head = head := by
  simp only [isReserved, Bool.or_eq_false_iff] at hfree
  rw [moreWords]
  split
  · next word e' h =>
    rw [hid] at h
    cases h
    rw [hfree.2, if_neg (by decide)]
  · rfl

theorem moreParts?_of_space {src : Source} {limit : Nat} {head : TypeHead} (hd : Regular d)
    (h : src.byte? head.stop = some ' '.toUInt8) : d.moreParts? src limit head = some head := by
  have hseparator : src.startsWith head.stop d.separatorBytes = false := by
    obtain ⟨b, rest, hb, hne⟩ := hd.separator
    rw [separatorBytes, Text.toList_toUTF8, hb, startsWith, h]
    simp [hne.symm]
  rw [moreParts?, if_neg (by rw [h]; decide), if_neg (by simp [hseparator])]

theorem moreDimensions_of_word {src : Source} {head : TypeHead} {b : UInt8}
    (hb : src.byte? (src.skipTrivia d.lexicon head.stop) = some b) (hident : isIdentByte b = true) :
    d.moreDimensions src head = head := by
  rw [moreDimensions, dif_neg]
  rintro ⟨hopener, -⟩
  rw [hb] at hopener
  cases hopener
  exact absurd hident (by decide)

/-- A type and a name are read as such. -/
theorem typeHead?_of_type {src : Source} {limit e : Nat} {name : String} (hd : Regular d) (htype : d.IsType type)
    (hfree : d.isReserved name = false) (h : src.after pos = Text.bytes type ++ ' '.toUInt8 :: rest)
    (hid : src.identAt? (pos + type.utf8ByteSize + 1) = some (name, e)) :
    d.typeHead? src limit pos = some (typeOnly type (pos + type.utf8ByteSize)) := by
  obtain ⟨hident, -, hkeyword, hinferred⟩ := htype.word hd
  have hspace := after_add h
  rw [Text.length_bytes] at hspace
  obtain ⟨hstart, b, hbyte, hfirst⟩ := skipTrivia_of_word (byte?_of_after hspace) hid
  have hwords : d.moreWords src (typeOnly type (pos + type.utf8ByteSize)) =
      typeOnly type (pos + type.utf8ByteSize) := moreWords_of_free hfree (hstart ▸ hid)
  have hparts : d.moreParts? src limit (typeOnly type (pos + type.utf8ByteSize)) =
      some (typeOnly type (pos + type.utf8ByteSize)) := moreParts?_of_space hd (byte?_of_after hspace)
  have hdimensions : d.moreDimensions src (typeOnly type (pos + type.utf8ByteSize)) =
      typeOnly type (pos + type.utf8ByteSize) :=
    moreDimensions_of_word (hstart ▸ hbyte) hfirst
  have haccepted : d.isAccepted type (typeOnly type (pos + type.utf8ByteSize)) = true := by
    rcases htype with hprimitive | ⟨-, hupper⟩
    · simp only [isAccepted, hprimitive, Bool.true_or]
    · simp only [isAccepted, typeOnly, hupper, Bool.true_or, Bool.or_true]
  have hhead : (⟨type, type, false, false, pos + type.utf8ByteSize⟩ : TypeHead) =
      typeOnly type (pos + type.utf8ByteSize) := rfl
  simp only [typeHead?, identAt?_of_after hident h rfl, hkeyword, hinferred, hhead, hwords, ite_self, hparts,
    hdimensions, haccepted]
  rfl

/-! ## Declarations -/

theorem print_eq (c : Declaration d) : c.print = c.openPrint ++ ";\n" := by
  rw [Declaration.print, Declaration.openPrint, printMore_eq, ← String.append_assoc]

/-- **The variables of a declaration are found where it stands**, whatever ends the last of them. -/
theorem matchDeclaration?_of_variables {limit : Nat} {m : UInt8} (hd : Regular d) (c : Declaration d)
    (hl : ∀ y ∈ c.first :: c.more, ∀ v ∈ y.value, v.utf8ByteSize ≤ limit)
    (h : (ofString text).after pos = Text.bytes c.openPrint ++ rest)
    (hc : Closes d (ofString text) (pos + c.openPrint.utf8ByteSize) m) :
    d.matchDeclaration? (ofString text) (.ofSource (ofString text)) limit pos =
      if m == ';'.toUInt8 then some ⟨c.recordsAt (ofString text) pos, pos + c.openPrint.utf8ByteSize + 1⟩
      else d.declaratorsFrom? (ofString text) (.ofSource (ofString text)) limit pos
        ((ofString text).indentation pos) (typeOnly c.type (pos + c.type.utf8ByteSize))
        (c.recordsAt (ofString text) pos) (pos + c.openPrint.utf8ByteSize + 1) := by
  have hline : (ofString text).after pos = Text.bytes c.type ++
      ' '.toUInt8 :: (Text.bytes c.first.print ++ (Text.bytes (moreText c.more) ++ rest)) := by
    rw [h, Declaration.openPrint]
    simp only [Text.bytes_append, List.append_assoc]
    rfl
  have hspace := after_add hline
  rw [Text.length_bytes] at hspace
  have hbehind := after_add (after_succ hspace)
  rw [Text.length_bytes] at hbehind
  have hplace : pos + c.type.utf8ByteSize + 1 = pos + (c.type ++ " ").utf8ByteSize := by
    rw [String.utf8ByteSize_append, ← Nat.add_assoc]
    rfl
  have hend : pos + c.openPrint.utf8ByteSize =
      pos + c.type.utf8ByteSize + 1 + c.first.print.utf8ByteSize + (moreText c.more).utf8ByteSize := by
    rw [Declaration.openPrint, String.utf8ByteSize_append, String.utf8ByteSize_append, hplace]
    omega
  rw [hend] at hc ⊢
  obtain ⟨m', hc'⟩ := closes_of_moreText hbehind hc
  obtain ⟨hident, hmodifier, -⟩ := c.isType.word hd
  rw [matchDeclaration?, skipModifiers?_of_word hident hmodifier hline]
  dsimp only
  rw [typeHead?_of_type hd c.isType c.first.free hline
    (identAt?_of_variable (after_succ hspace) hc'.byte hc'.mark)]
  refine (declaratorsFrom?_of_variables hl hspace hc).trans ?_
  rw [List.nil_append, hplace]
  rfl

/-- **A printed declaration is found where it stands.** -/
theorem matchDeclaration?_of_declaration {limit : Nat} (hd : Regular d) (c : Declaration d)
    (hl : ∀ y ∈ c.first :: c.more, ∀ v ∈ y.value, v.utf8ByteSize ≤ limit)
    (h : (ofString text).after pos = Text.bytes c.print ++ rest) :
    ∃ next, next + 1 = pos + c.print.utf8ByteSize ∧
      d.matchDeclaration? (ofString text) (.ofSource (ofString text)) limit pos =
        some ⟨c.recordsAt (ofString text) pos, next⟩ := by
  rw [print_eq, Text.bytes_append, List.append_assoc] at h
  have hmark := after_add h
  rw [Text.length_bytes] at hmark
  have hc : Closes d (ofString text) (pos + c.openPrint.utf8ByteSize) ';'.toUInt8 :=
    closes_semicolon hmark (.mark (Or.inl rfl) rfl)
  refine ⟨pos + c.openPrint.utf8ByteSize + 1, ?_, matchDeclaration?_of_variables hd c hl h hc⟩
  rw [print_eq, String.utf8ByteSize_append]
  rfl

theorem head_print (hd : Regular d) (c : Declaration d) :
    ∃ b tail, Text.bytes c.print = b :: tail ∧ isIdentByte b = true := by
  obtain ⟨b, tail, hb, -, hall⟩ := Text.exists_of_isIdent (c.isType.word hd).1
  refine ⟨b, tail ++ Text.bytes (" " ++ c.first.print ++ printMore c.more), ?_, hall b (by simp [hb])⟩
  simp [Declaration.print, hb]

theorem getLast_printMore (more : List (Variable d)) :
    (Text.bytes (printMore more)).getLast? = some '\n'.toUInt8 := by
  induction more with
  | nil => rfl
  | cons x more ih =>
    rw [printMore, Text.bytes_append, List.getLast?_append, ih]
    rfl

theorem getLast_print (c : Declaration d) : (Text.bytes c.print).getLast? = some '\n'.toUInt8 := by
  rw [Declaration.print, Text.bytes_append, List.getLast?_append, getLast_printMore]
  rfl

/-- The search goes on behind a declaration that it finds. -/
theorem recordsFrom_of_match {src : Source} {index : LineIndex} {limit start : Nat} {found : Finding}
    (hstart : src.skipTrivia d.lexicon pos = start) (hlt : start < src.size)
    (h : d.matchDeclaration? src index limit start = some found) :
    d.recordsFrom src index limit pos = found.records ++ d.recordsFrom src index limit found.next := by
  rw [recordsFrom, dif_pos (hstart ▸ hlt)]
  split
  · next found' hfound =>
    rw [hstart, h] at hfound
    cases hfound
    rfl
  · next hnone =>
    rw [hstart, h] at hnone
    cases hnone

/-- A printed program is found line by line, from any position that only trivia separate from its first line. -/
theorem recordsFrom_of_program {limit line : Nat} (hd : Regular d) {program : List (Declaration d)}
    (hl : ∀ c ∈ program, ∀ x ∈ c.first :: c.more, ∀ v ∈ x.value, v.utf8ByteSize ≤ limit)
    (hafter : (ofString text).after line = Text.bytes (printProgram program))
    (hstart : (ofString text).skipTrivia d.lexicon pos = (ofString text).skipTrivia d.lexicon line) :
    d.recordsFrom (ofString text) (.ofSource (ofString text)) limit pos =
      programRecords (ofString text) line program := by
  induction program generalizing pos line with
  | nil =>
    have hsize : (ofString text).size ≤ line := by
      simpa [after, size, printProgram, Text.bytes] using hafter
    have hle := le_skipTrivia d.lexicon (ofString text) line
    rw [recordsFrom, dif_neg (by omega)]
    rfl
  | cons c program ih =>
    rw [printProgram, Text.bytes_append] at hafter
    obtain ⟨b, tail, hb, hident⟩ := head_print hd c
    have hbyte : (ofString text).byte? line = some b := byte?_of_after (hafter.trans (by rw [hb, List.cons_append]))
    rw [skipTrivia_of_isSolid hbyte (isSolid_of_isIdentByte hident)] at hstart
    obtain ⟨next, hnext, hmatch⟩ := matchDeclaration?_of_declaration hd c (hl c List.mem_cons_self) hafter
    have hrest := after_add hafter
    have hfeed := byteBefore?_add hafter (getLast_print c)
    rw [Text.length_bytes] at hrest hfeed
    rw [← hnext, byteBefore?] at hfeed
    rw [recordsFrom_of_match hstart (byte?_eq_some_lt hbyte) hmatch, programRecords,
      ih (fun c hc => hl c (List.mem_cons_of_mem _ hc)) hrest (by rw [skipTrivia_blank hfeed rfl, hnext])]

/-- **Declarations that were printed are found.** For every program of declarations in Java or C++ and every
bound that no value of it exceeds, extraction gives one record for each variable, in order: its name, its value
as printed or the text that stands for none, its type and the place of its name in the text. -/
theorem extract_printedDeclarations (hd : d = .java ∨ d = .cpp) (program : List (Declaration d))
    (tree : Option Tree) {limit : Nat}
    (hl : ∀ c ∈ program, ∀ x ∈ c.first :: c.more, ∀ v ∈ x.value, v.utf8ByteSize ≤ limit) :
    d.language.extract limit ⟨printProgram program, tree⟩ =
      .ok (programRecords (ofString (printProgram program)) 0 program) := by
  rcases hd with rfl | rfl
  · obtain ⟨_, hfinds⟩ := finds_recordsFrom isPlain_separator_java (ofString (printProgram program))
      (.ofSource _) limit 0
    refine congrArg Except.ok ((Record.sortByPlace_of_ordered hfinds.ordered).trans ?_)
    exact recordsFrom_of_program regular_java hl rfl rfl
  · obtain ⟨_, hfinds⟩ := finds_recordsFrom isPlain_separator_cpp (ofString (printProgram program))
      (.ofSource _) limit 0
    refine congrArg Except.ok ((Record.sortByPlace_of_ordered hfinds.ordered).trans ?_)
    exact recordsFrom_of_program regular_cpp hl rfl rfl

/-- A call with a comma and a separated number in its brackets. -/
def countedCall : Variable .cpp where
  name := "a"
  value := some "f(1'000, 'x')"
  ident := by decide
  free := by decide
  isValue := by
    intro v hv
    cases hv
    have hliteral : Literal .cpp ' '.toUInt8 [0x27, 0x78, 0x27] (Text.bytes ")") :=
      .quoted ⟨rfl, by decide, fun hquote => absurd hquote (by decide)⟩ (by decide)
        (.plain (by decide) (by decide) (by decide) .close)
    refine ⟨by decide, by decide, ?_⟩
    refine .byte rfl rfl rfl (by decide) (by decide) rfl (.opener rfl ?_)
    refine .byte rfl rfl rfl (by decide) (by decide) rfl (.byte rfl rfl rfl (by decide) (by decide) rfl ?_)
    refine .byte rfl rfl rfl (by decide) (by decide) rfl (.byte rfl rfl rfl (by decide) (by decide) rfl ?_)
    refine .byte rfl rfl rfl (by decide) (by decide) rfl (.byte rfl rfl rfl (by decide) (by decide) rfl ?_)
    exact .byte rfl rfl rfl (by decide) (by decide) rfl (.literal hliteral (.closer rfl .done))

/-- A raw literal that holds a semicolon, a parenthesis and a quote. -/
def rawText : Variable .cpp where
  name := "s"
  value := some "R\"k(;)\")k\""
  ident := by decide
  free := by decide
  isValue := by
    intro v hv
    cases hv
    have hmark : IsRawMark "k" := ⟨by decide, List.all_iff_forall_prop.mp (by decide)⟩
    have hfirst : ∀ i < (Text.bytes ";)\"").length,
        ¬ rawCloser "k" <+: (Text.bytes ";)\"" ++ rawCloser "k").drop i := by decide
    have hliteral : Literal .cpp 'R'.toUInt8 (Text.bytes "\"k(;)\")k\"") [] := .raw rfl rfl hmark hfirst
    exact ⟨by decide, by decide, .byte rfl rfl rfl (by decide) (by decide) rfl (.literal hliteral .done)⟩

/-- A variable without a value. -/
def bareName : Variable .cpp :=
  ⟨"b", none, by decide, by decide, by simp⟩

/-- Two lines, of which the first declares two variables. -/
def twoLines : List (Declaration .cpp) :=
  [⟨"int", countedCall, [bareName], Or.inl (by decide)⟩, ⟨"Text", rawText, [], Or.inr (by decide)⟩]

theorem extract_printedDeclarations_twoLines :
    (∀ c ∈ twoLines, ∀ x ∈ c.first :: c.more, ∀ v ∈ x.value, v.utf8ByteSize ≤ 13) ∧
    printProgram twoLines = "int a = f(1'000, 'x'), b;\nText s = R\"k(;)\")k\";\n" ∧
    Language.cpp.extract 13 ⟨printProgram twoLines, none⟩ =
      .ok [⟨"a", "f(1'000, 'x')", .declared "int", [], ⟨1, 5, 4⟩⟩,
        ⟨"b", noValue, .declared "int", [], ⟨1, 24, 23⟩⟩,
        ⟨"s", "R\"k(;)\")k\"", .declared "Text", [], ⟨2, 6, 31⟩⟩] := by
  have hl : ∀ c ∈ twoLines, ∀ x ∈ c.first :: c.more, ∀ v ∈ x.value, v.utf8ByteSize ≤ 13 := by decide
  refine ⟨hl, by decide, (extract_printedDeclarations (Or.inr rfl) twoLines none hl).trans (congrArg Except.ok ?_)⟩
  decide

end Dialect
end VarCensus
