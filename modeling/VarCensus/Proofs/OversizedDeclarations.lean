import VarCensus.Proofs.ClosedStatements

/-!
# What stands behind a declaration that is too long

A declaration whose value is longer than the bound on scans is given up, and the search goes on with the next line,
wherever in the value that line starts. Brackets that are open there do no harm: whatever the search makes of the
other lines of the declaration, it comes to the end of it and reads the text behind it as if that text stood alone
(`extract_behind_declaration`). A literal that is open there does: its closing quotes open another one, which can
take all the rest of the text with it (`extract_swallowed_behind_literal`).
-/

namespace VarCensus
namespace Source

variable {src : Source} {feed pos : Nat} {closers : List UInt8}

/-! ## A statement from its first byte on -/

theorem scanFrom_stop_congr {lex : Lexicon} {stops : Stops} {starts : Nat → Bool} {start limit codeEnd : Nat}
    (codeEnd' : Nat) : (src.scanFrom lex stops starts start limit closers pos codeEnd).stop =
      (src.scanFrom lex stops starts start limit closers pos codeEnd').stop := by
  fun_induction scanFrom lex src stops starts start limit closers pos codeEnd generalizing codeEnd' with
  | case1 closers pos codeEnd hnone => rw [scanFrom_eq_match, hnone]
  | case2 closers pos codeEnd piece hp hlimit =>
    rw [scanFrom_eq_match, hp]
    dsimp only
    rw [if_pos hlimit]
  | case3 closers pos codeEnd hlimit e hp _ ih =>
    rw [ih codeEnd', scanFrom_eq_match lex src stops starts start limit closers pos, hp]
    dsimp only
    rw [if_neg hlimit]
  | case4 closers pos codeEnd hlimit e hp _ ih =>
    rw [scanFrom_eq_match lex src stops starts start limit closers pos, hp]
    dsimp only
    rw [if_neg hlimit]
  | case5 closers pos codeEnd hlimit e hp _ ih =>
    rw [ih codeEnd', scanFrom_eq_match lex src stops starts start limit closers pos, hp]
    dsimp only
    rw [if_neg hlimit]
  | case6 closers pos codeEnd hlimit b hp stop hv =>
    rw [scanFrom_eq_match, hp]
    dsimp only
    rw [if_neg hlimit, hv]
  | case7 closers pos codeEnd hlimit b hp closers' hv _ ih =>
    rw [scanFrom_eq_match lex src stops starts start limit closers pos, hp]
    dsimp only
    rw [if_neg hlimit, hv]
    exact ih _

/-- A byte of a name, of inline space or of an assignment, which opens and ends nothing. -/
def isQuiet (b : UInt8) : Bool :=
  isIdentByte b || isInlineSpace b || b == '='.toUInt8

theorem isInert_of_isQuiet {b : UInt8} (h : isQuiet b = true) : isInert b = true ∧ b ≠ ';'.toUInt8 := by
  simp only [isQuiet, Bool.or_eq_true, beq_iff_eq] at h
  rcases h with (h | h) | rfl
  · refine ⟨isInert_of_isIdentByte h, ?_⟩
    rintro rfl
    exact absurd h (by decide)
  · simp only [isInlineSpace, Bool.or_eq_true, beq_iff_eq] at h
    rcases h with ((rfl | rfl) | rfl) | rfl <;> decide
  · decide

/-- In front of a quiet byte a scan has the same way to go as behind it. -/
theorem ClosesAt.of_quiet {b : UInt8} (h : src.ClosesAt feed [] (pos + 1)) (hb : src.byte? pos = some b)
    (hquiet : isQuiet b = true) : src.ClosesAt feed [] pos := by
  obtain ⟨hinert, hsemicolon⟩ := isInert_of_isQuiet hquiet
  obtain ⟨hplain, hopener, hcloser, hslash, hfeed⟩ := isInert_facts hinert
  obtain ⟨starts, start, limit, codeEnd, hstop⟩ := h
  have hlimit : pos ≤ start + limit := by
    rw [scanFrom_eq_match] at hstop
    split at hstop
    · cases hstop
    · split at hstop
      · cases hstop
      · omega
  have hterminator : src.isTerminator .python Python.statementStops b pos = false := by
    simp [isTerminator, Python.statementStops, hfeed, hsemicolon]
  refine ⟨starts, start, limit, codeEnd, ?_⟩
  rw [scanFrom_of_byte (pieceAt?_of_isPlain hb hplain hslash) hlimit
    (verdict_of_byte hopener hcloser hfeed fun _ => hterminator), scanFrom_stop_congr codeEnd]
  exact hstop

theorem ClosesAt.of_skipInlineSpace (h : src.ClosesAt feed [] (src.skipInlineSpace pos)) :
    src.ClosesAt feed [] pos := by
  unfold skipInlineSpace at h
  fun_induction skipWhile src isInlineSpace pos with
  | case1 pos hlt ht ih => exact (ih h).of_quiet (Array.getElem?_eq_getElem hlt) (by simp [isQuiet, ht])
  | case2 => exact h
  | case3 => exact h

theorem ClosesAt.of_after {run rest : List UInt8} (hafter : src.after pos = run ++ rest)
    (hquiet : ∀ b ∈ run, isQuiet b = true) (h : src.ClosesAt feed [] (pos + run.length)) :
    src.ClosesAt feed [] pos := by
  induction run generalizing pos with
  | nil => exact h
  | cons b run ih =>
    have hnext : src.ClosesAt feed [] (pos + 1) := by
      refine ih (after_succ hafter) (fun c hc => hquiet c (List.mem_cons_of_mem _ hc)) ?_
      rwa [Nat.add_assoc, Nat.add_comm 1]
    exact hnext.of_quiet (byte?_of_after hafter) (hquiet b List.mem_cons_self)

end Source

namespace Python

open Source

/-- The line of an assignment. -/
def assignmentLine (name v : String) : String :=
  name ++ " = " ++ v ++ "\n"

/-- An assignment that is complete on its own: under a bound that it does not reach, its line gives one record, and
the scan of its value stops at the line feed at the end. -/
structure Complete (name v : String) : Prop where
  target : IsTarget name
  record : ∃ r, Language.python.extract (assignmentLine name v).utf8ByteSize ⟨assignmentLine name v, none⟩ = .ok [r]
  stop : (valueScan (.ofString (assignmentLine name v)) (assignmentLine name v).utf8ByteSize 0
    (name ++ " = ").utf8ByteSize).stop = .terminator ((assignmentLine name v).utf8ByteSize - 1)

variable {name v : String}

theorem getLast_assignmentLine (name v : String) :
    (Text.bytes (assignmentLine name v)).getLast? = some '\n'.toUInt8 := by
  have hfeed : (Text.bytes "\n").getLast? = some '\n'.toUInt8 := by decide
  rw [assignmentLine, Text.bytes_append, List.getLast?_append, hfeed, Option.some_or]

theorem isQuiet_of_mem_target (h : IsTarget name) : ∀ b ∈ Text.bytes (name ++ " = "), isQuiet b = true := by
  intro b hb
  rw [Text.bytes_append, List.mem_append] at hb
  rcases hb with hb | hb
  · obtain ⟨-, -, -, -, hall⟩ := Text.exists_of_isIdent h.ident
    simp [isQuiet, hall b hb]
  · rw [bytes_equals] at hb
    exact List.all_eq_true.mp (by decide) b hb

theorem closed_assignmentLine (hlines : (Source.ofString (assignmentLine name v)).LiteralsOnLines) :
    Closed (.ofString (assignmentLine name v)) ((assignmentLine name v).utf8ByteSize - 1) where
  isFeed := by
    rw [byte?_ofString, ← Text.length_bytes, ← List.getLast?_eq_getElem?]
    exact getLast_assignmentLine name v
  size := by
    rw [size_ofString, assignmentLine, String.utf8ByteSize_append]
    rfl
  lines := hlines

theorem Complete.inside (h : Complete name v) :
    (Source.ofString (assignmentLine name v)).Inside ((assignmentLine name v).utf8ByteSize - 1) 0 := by
  refine ⟨Goes.refl 0, [], ?_⟩
  have hafter : (Source.ofString (assignmentLine name v)).after 0 =
      Text.bytes (name ++ " = ") ++ (Text.bytes v ++ Text.bytes "\n") := by
    rw [after_ofString, assignmentLine, Text.bytes_append, Text.bytes_append, List.append_assoc]
  refine ClosesAt.of_after hafter (isQuiet_of_mem_target h.target) ?_
  rw [Nat.zero_add, Text.length_bytes]
  exact ClosesAt.of_skipInlineSpace ⟨_, _, _, _, h.stop⟩

/-- **A declaration that is given up costs nothing but itself**, if no literal of it goes on from line to line. Take
an assignment that is complete on its own. Whatever the bound on scans is, and so also if the value exceeds it, the
text behind the assignment gives the records that it gives alone, with places that count the lines and bytes of the
assignment. -/
theorem extract_behind_declaration (h : Complete name v)
    (hlines : (Source.ofString (assignmentLine name v)).LiteralsOnLines) (limit : Nat) (text : String)
    (tree : Option Tree) :
    ∃ front back, Language.python.extract limit ⟨assignmentLine name v, tree⟩ = .ok front ∧
      Language.python.extract limit ⟨text, tree⟩ = .ok back ∧
      Language.python.extract limit ⟨assignmentLine name v ++ text, tree⟩ =
        .ok (front ++ back.map (·.behind (assignmentLine name v))) := by
  have hend : ∀ scan ∈ Language.python.scans limit (.ofString (assignmentLine name v)), scan.stop ≠ .endOfText :=
    (closed_assignmentLine hlines).scansFrom (Or.inl h.inside)
  refine ⟨_, _, extract_eq limit _ tree, extract_eq limit text tree, ?_⟩
  rw [extract_eq, recordsFrom_append (Or.inr (getLast_assignmentLine name v)) text hend]

/-- A value in brackets, over four lines, with a literal and a comment. -/
def bracketedValue : String :=
  "[\n1,\n'a', # b\n2]"

theorem complete_bracketedValue : Complete "x" bracketedValue where
  target := ⟨by decide, by decide⟩
  record := ⟨⟨"x", "[ 1, 'a', 2]", .array, [], ⟨1, 1, 0⟩⟩, congrArg Except.ok (by decide +kernel)⟩
  stop := by decide +kernel

theorem literalsOnLines_bracketedValue : (Source.ofString (assignmentLine "x" bracketedValue)).LiteralsOnLines := by
  intro pos e _ he i hi hlt hfeed
  have hbounds := literalEnd?_bounds he
  have hcheck : ∀ pos < 21, ∀ i < 21,
      ((Source.ofString (assignmentLine "x" bracketedValue)).literalEnd? .python pos).all
        (fun e => !(pos ≤ i && i < e) ||
          (Source.ofString (assignmentLine "x" bracketedValue)).byte? i != some '\n'.toUInt8) = true := by
    decide +kernel
  have hsize : (Source.ofString (assignmentLine "x" bracketedValue)).size = 21 := by decide +kernel
  have hall := hcheck pos (by omega) i (by omega)
  rw [he] at hall
  simp [hi, hlt, hfeed] at hall

theorem extract_behind_declaration_bracketedValue :
    Complete "x" bracketedValue ∧ (Source.ofString (assignmentLine "x" bracketedValue)).LiteralsOnLines ∧
    4 < bracketedValue.utf8ByteSize ∧
    ∃ front back, Language.python.extract 4 ⟨assignmentLine "x" bracketedValue, none⟩ = .ok front ∧
      Language.python.extract 4 ⟨"a = 1\n", none⟩ = .ok back ∧
      Language.python.extract 4 ⟨assignmentLine "x" bracketedValue ++ "a = 1\n", none⟩ =
        .ok (front ++ back.map (·.behind (assignmentLine "x" bracketedValue))) :=
  ⟨complete_bracketedValue, literalsOnLines_bracketedValue, by decide,
    extract_behind_declaration complete_bracketedValue literalsOnLines_bracketedValue 4 "a = 1\n" none⟩

/-- **But a literal that goes on from line to line can take everything with it.** The value here is one literal in
three quotes, with a line feed in it. Under a bound of four bytes the assignment is given up, its second line opens
another literal, and the declaration behind it, which is found in its own text, is not found any more. -/
theorem extract_swallowed_behind_literal :
    Complete "x" "\"\"\"\n\"\"\"" ∧ 4 < "\"\"\"\n\"\"\"".utf8ByteSize ∧
    Language.python.extract 4 ⟨"a = 1\n", none⟩ = .ok [⟨"a", "1", .number, [], ⟨1, 1, 0⟩⟩] ∧
    Language.python.extract 4 ⟨assignmentLine "x" "\"\"\"\n\"\"\"" ++ "a = 1\n", none⟩ = .ok [] := by
  refine ⟨⟨⟨by decide, by decide⟩, ?_, by decide +kernel⟩, by decide, ?_, ?_⟩
  · exact ⟨⟨"x", "\"\"\" \"\"\"", .string, [], ⟨1, 1, 0⟩⟩, congrArg Except.ok (by decide +kernel)⟩
  · exact congrArg Except.ok (by decide +kernel)
  · exact congrArg Except.ok (by decide +kernel)

end Python
end VarCensus
