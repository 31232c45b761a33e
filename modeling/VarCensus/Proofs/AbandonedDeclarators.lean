import VarCensus.Proofs.PrintedDeclarations

/-!
# Declarators that come to no end

A declaration of several variables may break off: the value of its last variable runs out of the text, out of the
brackets around it or past the bound on scans. What stands in front of that variable is not lost. The declaration
is matched with the records of the variables before it, exactly as if it had ended with a semicolon in the place
of the comma (`matchDeclaration?_of_abandoned`).

The variables in front are read by `matchDeclaration?_of_variables`, which asks of the comma only that a name with
an equals sign follows it. The two texts that are compared share what stands in front of the comma, and records
know no more of their text than that.
-/

namespace VarCensus

/-! ## Places in the front of a text -/

namespace Source

theorem byte?_append {s : String} {pos : Nat} (h : pos < s.utf8ByteSize) (t : String) :
    (ofString (s ++ t)).byte? pos = (ofString s).byte? pos := by
  rw [← Text.length_bytes] at h
  rw [byte?_ofString, byte?_ofString, Text.bytes_append, List.getElem?_append_left h]

theorem lineStartBelow_append {s : String} {pos : Nat} (h : pos ≤ s.utf8ByteSize) (t : String) :
    (ofString (s ++ t)).lineStartBelow pos = (ofString s).lineStartBelow pos := by
  induction pos with
  | zero => rfl
  | succ pos ih =>
    rw [lineStartBelow, lineStartBelow, byte?_append h, ih (Nat.le_of_succ_le h)]

end Source

/-- A place is read off the text in front of it. -/
theorem Location.atOffset_append {s : String} {pos : Nat} (h : pos ≤ s.utf8ByteSize) (t : String) :
    Location.atOffset (.ofString (s ++ t)) pos = Location.atOffset (.ofString s) pos := by
  have hsize : pos ≤ (Source.ofString s).size := by rw [size_ofString]; exact h
  have hsize' : pos ≤ (Source.ofString (s ++ t)).size := by
    rw [size_ofString, String.utf8ByteSize_append]
    omega
  have hfront : (Source.ofString (s ++ t)).bytes.extract 0 pos = (Source.ofString s).bytes.extract 0 pos := by
    apply Array.toList_inj.mp
    rw [Array.toList_extract, Array.toList_extract, List.extract_eq_take_drop, List.extract_eq_take_drop]
    have hall : (Source.ofString (s ++ t)).bytes.toList = Text.bytes s ++ Text.bytes t := Text.bytes_append s t
    rw [hall, List.drop_zero, List.drop_zero, Nat.sub_zero, List.take_append_of_le_length]
    · rfl
    · rw [Text.length_bytes]
      exact h
  simp only [Location.atOffset, Source.lineStart, Nat.min_eq_left hsize, Nat.min_eq_left hsize', hfront,
    Source.lineStartBelow_append h]

namespace Dialect

open Source Written

variable {d : Dialect} {src : Source} {index : LineIndex} {limit pos : Nat} {rest : List UInt8}
  {x : Variable d} {more : List (Variable d)}

theorem variableRecords_append {s type : String}
    (h : pos + x.print.utf8ByteSize + (moreText more).utf8ByteSize ≤ s.utf8ByteSize) (t : String) :
    variableRecords (ofString (s ++ t)) type pos (x :: more) = variableRecords (ofString s) type pos (x :: more) := by
  induction more generalizing x pos with
  | nil =>
    rw [variableRecords, variableRecords, Location.atOffset_append (by omega)]
    rfl
  | cons y more ih =>
    have hnext : (x.print ++ ", ").utf8ByteSize = x.print.utf8ByteSize + 2 := String.utf8ByteSize_append ..
    rw [utf8ByteSize_moreText_cons] at h
    have hrest : variableRecords (ofString (s ++ t)) type (pos + (x.print ++ ", ").utf8ByteSize) (y :: more) = _ :=
      ih (by omega)
    rw [variableRecords, hrest, Location.atOffset_append (by omega)]
    rfl

theorem offset_le_of_mem_variableRecords {type : String} {r : Record}
    (h : r ∈ variableRecords src type pos (x :: more)) :
    r.declaredAt.offset ≤ pos + x.print.utf8ByteSize + (moreText more).utf8ByteSize := by
  induction more generalizing x pos with
  | nil =>
    rw [variableRecords, variableRecords, List.mem_singleton] at h
    have hle : r.declaredAt.offset ≤ pos := by
      rw [h]
      exact Nat.min_le_left _ _
    omega
  | cons y more ih =>
    have hnext : (x.print ++ ", ").utf8ByteSize = x.print.utf8ByteSize + 2 := String.utf8ByteSize_append ..
    rw [utf8ByteSize_moreText_cons]
    rw [variableRecords] at h
    rcases List.mem_cons.mp h with h | h
    · have hle : r.declaredAt.offset ≤ pos := by
        rw [h]
        exact Nat.min_le_left _ _
      omega
    · have hle := ih h
      omega

theorem utf8ByteSize_openPrint (c : Declaration d) : c.openPrint.utf8ByteSize =
    (c.type ++ " ").utf8ByteSize + c.first.print.utf8ByteSize + (moreText c.more).utf8ByteSize := by
  rw [Declaration.openPrint, String.utf8ByteSize_append, String.utf8ByteSize_append]

/-- The records of a declaration depend on the text up to its last variable only. -/
theorem recordsAt_append (c : Declaration d) (before t : String) :
    c.recordsAt (ofString (before ++ c.openPrint ++ t)) before.utf8ByteSize =
      c.recordsAt (ofString (before ++ c.openPrint)) before.utf8ByteSize := by
  have hsize := utf8ByteSize_openPrint c
  have hall : (before ++ c.openPrint).utf8ByteSize = _ := String.utf8ByteSize_append
  exact variableRecords_append (by omega) t

theorem offset_le_of_mem_recordsAt {c : Declaration d} {r : Record} (h : r ∈ c.recordsAt src pos) :
    r.declaredAt.offset ≤ pos + c.openPrint.utf8ByteSize := by
  have hle := offset_le_of_mem_variableRecords h
  rw [utf8ByteSize_openPrint]
  omega

/-! ## Values without an end -/

theorem assigned_of_no_terminator {indent namePos : Nat} {recordOf : String → Record}
    (h : ∀ e, (d.valueScan src limit indent pos).stop ≠ .terminator e) :
    (∃ next, d.assigned src limit indent namePos pos recordOf = .finished next) ∨
      ∃ next, d.assigned src limit indent namePos pos recordOf = .abandoned next := by
  unfold valueScan at h
  unfold assigned
  dsimp only
  split
  · next e hstop => exact absurd hstop (h e)
  · exact Or.inr ⟨_, rfl⟩
  · exact Or.inr ⟨_, rfl⟩
  · exact Or.inl ⟨_, rfl⟩

/-- **A declarator that fails ends the declaration** with the records in front of it, if there are any. -/
theorem declaratorsFrom?_of_failure {start indent : Nat} {head : TypeHead} {recorded : List Record}
    (hne : recorded ≠ [])
    (h : (∃ next, d.declaratorAt src index limit indent head pos = .finished next) ∨
      ∃ next, d.declaratorAt src index limit indent head pos = .abandoned next) :
    ∃ next, d.declaratorsFrom? src index limit start indent head recorded pos = some ⟨recorded, next⟩ := by
  have hempty : recorded.isEmpty = false := by simpa using hne
  rcases h with ⟨next, h⟩ | ⟨next, h⟩
  · refine ⟨max next (start + 1), ?_⟩
    rw [declaratorsFrom?_eq_match, h]
    simp [hempty]
  · refine ⟨next, ?_⟩
    rw [declaratorsFrom?_eq_match, h]

theorem recordsAt_ne_nil (c : Declaration d) (src : Source) (pos : Nat) : c.recordsAt src pos ≠ [] := by
  simp [Declaration.recordsAt, variableRecords]

/-- A declaration goes on behind its variables with a name and an equals sign, and what comes behind the sign is no
value: the records of the variables are kept. -/
theorem matchDeclaration?_of_no_terminator (hd : Regular d) (c : Declaration d)
    (hl : ∀ x ∈ c.first :: c.more, ∀ v ∈ x.value, v.utf8ByteSize ≤ limit) (before value : String) {name : String}
    (hident : Text.isIdent name = true) (hfree : d.isReserved name = false) :
    let start := before.utf8ByteSize
    let broken := Source.ofString (before ++ c.openPrint ++ ", " ++ name ++ " = " ++ value)
    let equals := (before ++ c.openPrint ++ ", " ++ name ++ " ").utf8ByteSize
    (∀ e, (d.valueScan broken limit (broken.indentation start) equals).stop ≠ .terminator e) →
    ∃ next, d.matchDeclaration? broken (.ofSource broken) limit start = some ⟨c.recordsAt broken start, next⟩ := by
  intro start broken equals hstop
  have hline : broken.after start = Text.bytes c.openPrint ++ ','.toUInt8 :: ' '.toUInt8 ::
      (Text.bytes name ++ ' '.toUInt8 :: '='.toUInt8 :: ' '.toUInt8 :: Text.bytes value) := by
    simp only [broken, start, String.append_assoc, after_ofString_append, Text.bytes_append]
    rfl
  have hplace : equals = start + c.openPrint.utf8ByteSize + 1 + 1 + name.utf8ByteSize + 1 := by
    simp only [equals, start, String.utf8ByteSize_append]
    rfl
  have hcomma := after_add hline
  rw [Text.length_bytes] at hcomma
  have hspace := after_succ hcomma
  obtain ⟨hid, hnext, hequals, -⟩ := equals_of_name d.lexicon hident (after_succ hspace)
  have hfollows := declaratorFollows_of_name (byte?_of_after hspace) hid hnext (Or.inl hequals)
  rw [matchDeclaration?_of_variables hd c hl hline (closes_comma hcomma hfollows), if_neg (by decide)]
  refine declaratorsFrom?_of_failure (recordsAt_ne_nil c _ _) ?_
  rw [declaratorAt_of_equals (byte?_of_after hspace) hid hfree hnext hequals]
  rw [hplace] at hstop
  exact assigned_of_no_terminator hstop

/-- A declaration that ends with a semicolon, as the last text of all. -/
theorem matchDeclaration?_of_ended (hd : Regular d) (c : Declaration d)
    (hl : ∀ x ∈ c.first :: c.more, ∀ v ∈ x.value, v.utf8ByteSize ≤ limit) (before : String) :
    let ended := Source.ofString (before ++ c.openPrint ++ ";")
    ∃ next, d.matchDeclaration? ended (.ofSource ended) limit before.utf8ByteSize =
      some ⟨c.recordsAt ended before.utf8ByteSize, next⟩ := by
  intro ended
  have hline : ended.after before.utf8ByteSize = Text.bytes c.openPrint ++ [';'.toUInt8] := by
    simp only [ended, String.append_assoc, after_ofString_append, Text.bytes_append]
    rfl
  have hsemicolon := after_add hline
  rw [Text.length_bytes] at hsemicolon
  exact ⟨_, matchDeclaration?_of_variables hd c hl hline (closes_semicolon hsemicolon (.last (Or.inl rfl)))⟩

/-- **A declarator that fails loses none of the earlier ones.** A declaration of one or more variables is followed
by a comma, a name, an equals sign and any text on which the scan for the value does not come to a terminator. The
declaration is matched, with the records that it has when a semicolon stands in the place of the comma and nothing
behind it; all of them are in front of the name. -/
theorem matchDeclaration?_of_abandoned (hd : d = .java ∨ d = .cpp) (c : Declaration d)
    (hl : ∀ x ∈ c.first :: c.more, ∀ v ∈ x.value, v.utf8ByteSize ≤ limit) (before value : String) {name : String}
    (hident : Text.isIdent name = true) (hfree : d.isReserved name = false) :
    let start := before.utf8ByteSize
    let broken := Source.ofString (before ++ c.openPrint ++ ", " ++ name ++ " = " ++ value)
    let ended := Source.ofString (before ++ c.openPrint ++ ";")
    let equals := (before ++ c.openPrint ++ ", " ++ name ++ " ").utf8ByteSize
    (∀ e, (d.valueScan broken limit (broken.indentation start) equals).stop ≠ .terminator e) →
    ∃ records next next',
      d.matchDeclaration? broken (.ofSource broken) limit start = some ⟨records, next⟩ ∧
      d.matchDeclaration? ended (.ofSource ended) limit start = some ⟨records, next'⟩ ∧
      records = c.recordsAt ended start ∧
      ∀ r ∈ records, r.declaredAt.offset < (before ++ c.openPrint ++ ", ").utf8ByteSize := by
  intro start broken ended equals hstop
  have hregular : Regular d := by
    rcases hd with rfl | rfl
    · exact regular_java
    · exact regular_cpp
  obtain ⟨next, hbroken⟩ := matchDeclaration?_of_no_terminator hregular c hl before value hident hfree hstop
  obtain ⟨next', hended⟩ := matchDeclaration?_of_ended hregular c hl before
  -- both texts open with the same declaration
  have htext : before ++ c.openPrint ++ ", " ++ name ++ " = " ++ value =
      before ++ c.openPrint ++ (", " ++ name ++ " = " ++ value) := by
    simp only [String.append_assoc]
  have hrecords : c.recordsAt broken start = c.recordsAt ended start := by
    simp only [broken, ended, start, htext, recordsAt_append]
  refine ⟨c.recordsAt ended start, next, next', hrecords ▸ hbroken, hended, rfl, fun r hr => ?_⟩
  have hle := offset_le_of_mem_recordsAt hr
  have htwo : ", ".utf8ByteSize = 2 := rfl
  rw [String.utf8ByteSize_append, String.utf8ByteSize_append, htwo]
  omega

theorem isType_int : Dialect.cpp.IsType "int" :=
  Or.inl (by decide)

/-- The variables of `int a = f(1'000, 'x'), b`. -/
def callAndName : Declaration .cpp :=
  ⟨"int", countedCall, [bareName], isType_int⟩

theorem matchDeclaration?_of_abandoned_bracket :
    (∀ x ∈ callAndName.first :: callAndName.more, ∀ v ∈ x.value, v.utf8ByteSize ≤ 13) ∧
    Text.isIdent "c" = true ∧ Dialect.cpp.isReserved "c" = false ∧
    (let broken := Source.ofString "k;\nint a = f(1'000, 'x'), b, c = (1\nint k = 2;"
    (Dialect.cpp.valueScan broken 13 (broken.indentation 3) 31).stop = .unbalanced 35) ∧
    ∃ next, Dialect.cpp.matchDeclaration? (.ofString "k;\nint a = f(1'000, 'x'), b, c = (1\nint k = 2;")
      (.ofSource (.ofString "k;\nint a = f(1'000, 'x'), b, c = (1\nint k = 2;")) 13 3 =
        some ⟨[⟨"a", "f(1'000, 'x')", .declared "int", [], ⟨2, 5, 7⟩⟩,
          ⟨"b", noValue, .declared "int", [], ⟨2, 24, 26⟩⟩], next⟩ := by
  have hl : ∀ x ∈ callAndName.first :: callAndName.more, ∀ v ∈ x.value, v.utf8ByteSize ≤ 13 := by decide
  have hscan : (Dialect.cpp.valueScan (.ofString "k;\nint a = f(1'000, 'x'), b, c = (1\nint k = 2;") 13
      ((Source.ofString "k;\nint a = f(1'000, 'x'), b, c = (1\nint k = 2;").indentation 3) 31).stop =
        .unbalanced 35 := by decide +kernel
  obtain ⟨records, next, -, hmatch, -, hrecords, -⟩ := matchDeclaration?_of_abandoned (Or.inr rfl) callAndName hl
    "k;\n" "(1\nint k = 2;" (by decide : Text.isIdent "c" = true) (by decide)
    fun e he => absurd (hscan.symm.trans he) (by simp)
  refine ⟨hl, by decide, by decide, hscan, next, ?_⟩
  have hvalues : records = [⟨"a", "f(1'000, 'x')", .declared "int", [], ⟨2, 5, 7⟩⟩,
      ⟨"b", noValue, .declared "int", [], ⟨2, 24, 26⟩⟩] := hrecords.trans (by decide)
  rw [← hvalues]
  exact hmatch

end Dialect
end VarCensus
