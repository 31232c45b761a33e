import VarCensus.Proofs.JoinedTexts
import VarCensus.Proofs.UnclosedGroups
import VarCensus.Proofs.ValueCues

/-!
# Attributes that are assigned to

An attribute is no variable, so `a.b = 1` declares nothing: the name at its front is followed by a point, and the
search steps over the statement. But a statement that declares nothing ends at a colon, since the head of a block
does, and behind the colon of `a.b: T = 1` the annotation and its value read as an assignment of their own. It is
the type that gets a record there. `extract_attributeTarget` says both, for every chain of names.
-/

namespace VarCensus

/-! ## Numbers -/

namespace Text.IsNumber

variable {v : String}

theorem exists_digitChar {c : Char} (h : c.isDigit = true) : ∃ d : Fin 10, d.val.digitChar = c := by
  simp only [Char.isDigit, Bool.and_eq_true, decide_eq_true_eq, UInt32.le_iff_toNat_le] at h
  have hlow : 48 ≤ c.toNat := h.1
  have hhigh : c.toNat ≤ 57 := h.2
  have hchar : ∀ d : Fin 10, d.val.digitChar = Char.ofNat (48 + d.val) := by decide
  refine ⟨⟨c.toNat - 48, by omega⟩, (hchar _).trans ?_⟩
  rw [Nat.add_sub_cancel' hlow, Char.ofNat_toNat]

/-- Digits are a digit part without underscores. -/
theorem exists_digitPart (h : IsNumber v) : ∃ part : Cue.DigitPart, part.chars = v.toList := by
  obtain ⟨hne, hdigits⟩ := h
  rw [ne_eq, ← String.toList_eq_nil_iff] at hne
  generalize v.toList = cs at hne hdigits
  induction cs with
  | nil => exact absurd rfl hne
  | cons c cs ih =>
    obtain ⟨d, rfl⟩ := exists_digitChar (hdigits c List.mem_cons_self)
    cases cs with
    | nil => exact ⟨.last d, rfl⟩
    | cons c' cs =>
      obtain ⟨part, hpart⟩ := ih (by simp) fun c hc => hdigits c (List.mem_cons_of_mem _ hc)
      exact ⟨.digit d part, congrArg _ hpart⟩

/-- Digits are a number, by their shape alone. -/
theorem kindOf_eq (h : IsNumber v) : Cue.kindOf .python v = .number := by
  obtain ⟨part, hpart⟩ := h.exists_digitPart
  let n : Cue.Numeral := ⟨.whole part, none, [], Or.inl rfl⟩
  have hchars : n.chars = v.toList := (List.append_nil _).trans hpart
  have htext : n.text = v := by rw [Cue.Numeral.text, hchars, String.ofList_toList]
  rw [← htext, Cue.kindOf_text, Cue.isDecimal_numeral]
  rfl

end Text.IsNumber

namespace Python

open Source Written

variable {src : Source} {index : LineIndex} {limit pos : Nat} {rest : List UInt8}

theorem code_of_isIdentByte {prev : UInt8} {code : List UInt8} (h : ∀ b ∈ code, isIdentByte b = true) :
    Code .python endsStatement [] prev code := by
  have hstatement : ∀ b ∈ code, endsStatement true b = false := by
    intro b hb
    rw [endsStatement, beq_eq_false_iff_ne]
    rintro rfl
    exact absurd (h _ hb) (by decide)
  have hcode : Code .python endsStatement [] prev (code ++ []) :=
    code_of_inert (fun b hb => isInert_of_isIdentByte (h b hb)) hstatement .done
  rwa [List.append_nil] at hcode

/-- The assignment of a number to a single name. -/
def numberAssignment (name value : String) (hname : IsTarget name) (hvalue : Text.IsNumber value) : Assignment where
  first := name
  more := []
  value := value
  isTarget := fun n hn => List.mem_singleton.mp hn ▸ hname
  isValue := ⟨hvalue.1, hvalue.collapse_eq, code_of_isIdentByte fun _ hb => hvalue.isIdentByte hb⟩
  unchained := not_opensChain fun hmem => absurd (hvalue.isIdentByte hmem) (by decide)

/-! ## Statements that are stepped over -/

/-- A name with a point behind it starts no declaration. -/
theorem matchStatement?_of_point {name : String} (hname : IsTarget name)
    (h : src.after pos = Text.bytes name ++ '.'.toUInt8 :: rest) :
    matchStatement? src index limit pos = none := by
  have hpoint := after_add h
  rw [Text.length_bytes] at hpoint
  have hspace : src.skipInlineSpace (pos + name.utf8ByteSize) = pos + name.utf8ByteSize :=
    skipInlineSpace_eq_self (by rw [hpoint]; rfl)
  have hannotation : isAnnotationColon src (pos + name.utf8ByteSize) = false := by
    rw [isAnnotationColon, byte?_of_after hpoint]
    rfl
  have hequals : src.isLoneEquals (pos + name.utf8ByteSize) = false := by
    rw [isLoneEquals, byte?_of_after hpoint]
    rfl
  simp only [matchStatement?, identAt?_of_after hname.ident h rfl, hspace, hname.free, hannotation, hequals]
  rfl

/-- The byte of a line that a statement is stepped over to. -/
def endsSkipped (b : UInt8) : Bool :=
  b == '\n'.toUInt8 || b == ';'.toUInt8 || b == ':'.toUInt8

theorem isTerminator_skipStops {b : UInt8} (h : endsSkipped b = false) (pos : Nat) :
    src.isTerminator .python skipStops b pos = false := by
  simp only [endsSkipped, Bool.or_eq_false_iff, beq_eq_false_iff_ne] at h
  simp [isTerminator, skipStops, statementStops, h.1.1, h.1.2, h.2]

/-- A colon in front of a space ends a statement that is stepped over. -/
theorem isTerminator_colon {code : List UInt8}
    (h : src.after pos = code ++ ':'.toUInt8 :: ' '.toUInt8 :: rest) (hne : code ≠ [])
    (hcode : ∀ b ∈ code, endsSkipped b = false) :
    src.isTerminator .python skipStops ':'.toUInt8 (pos + code.length) = true := by
  have hnext := byte?_of_after (after_succ (after_add h))
  obtain ⟨c, hc⟩ := Option.ne_none_iff_exists'.mp (mt List.getLast?_eq_none_iff.mp hne)
  have hbefore : c ≠ ':'.toUInt8 := by
    rintro rfl
    exact absurd (hcode _ (List.mem_of_getLast? hc)) (by decide)
  have hsingle : src.inDoubleColon (pos + code.length) = false := by
    rw [inDoubleColon, hnext, byteBefore?_add h hc]
    simpa using And.intro (by decide : ' '.toUInt8 ≠ ':'.toUInt8) hbefore
  rw [isTerminator, if_neg (by decide), if_neg (by decide), if_pos (by decide), hsingle]
  rfl

/-- A statement of inert bytes ends at the first line feed, semicolon or colon. -/
theorem skipStatement_of_inert {code : List UInt8} {m : UInt8} (h : src.after pos = code ++ m :: rest)
    (hcode : ∀ b ∈ code, isInert b = true ∧ endsSkipped b = false) (hm : endsSkipped m = true)
    (hstop : src.isTerminator .python skipStops m (pos + code.length) = true) (hl : code.length ≤ limit) :
    skipStatement src limit pos = pos + code.length + 1 := by
  have hfacts : isPlain m = true ∧ m ≠ '\\'.toUInt8 ∧ closerOf? m = none ∧ isCloser m = false := by
    simp only [endsSkipped, Bool.or_eq_true, beq_iff_eq] at hm
    rcases hm with (rfl | rfl) | rfl <;> decide
  obtain ⟨hplain, hslash, hopener, hcloser⟩ := hfacts
  obtain ⟨codeEnd, hscan, -⟩ : ∃ codeEnd, scan src limit pos skipStops pos =
      ⟨codeEnd, .terminator (pos + code.length)⟩ ∧ _ :=
    scanValueUntil_of_inert h (fun b hb => (hcode b hb).1)
      (fun b hb p => isTerminator_skipStops (hcode b hb).2 p) hplain hslash hopener hcloser hstop hl
  rw [skipStatement, hscan]

/-- Space in front of a statement does not count. -/
theorem recordsFrom_congr {p q : Nat} (h : src.skipInlineSpace p = src.skipInlineSpace q) :
    recordsFrom src index limit p = recordsFrom src index limit q := by
  rw [recordsFrom_eq_match, recordsFrom_eq_match src index limit q, h]

/-- A name with an equals sign and nothing behind it on its line starts no declaration. -/
theorem matchStatement?_of_no_value {text name : String} (hname : IsTarget name)
    (h : (ofString text).after pos = Text.bytes (name ++ " = ") ++ '\n'.toUInt8 :: rest) :
    matchStatement? (ofString text) index limit pos = none := by
  have hat := targetAt_of_after hname h rfl
  have hfeed := after_add h
  rw [Text.length_bytes] at hfeed
  have hchain := chainedTargets_of_value (not_opensChain List.not_mem_nil) hfeed hat.before
  have hspace : (ofString text).skipInlineSpace (pos + (name ++ " = ").utf8ByteSize) =
      pos + (name ++ " = ").utf8ByteSize := skipInlineSpace_eq_self (by rw [hfeed]; rfl)
  have hscan : scan (ofString text) limit pos statementStops (pos + (name ++ " = ").utf8ByteSize) =
      ⟨pos + (name ++ " = ").utf8ByteSize, .terminator (pos + (name ++ " = ").utf8ByteSize)⟩ :=
    scanFrom_of_stop (pieceAt?_of_isPlain (byte?_of_after hfeed) (by decide) (by decide)) (by omega)
      (verdict_of_terminator rfl rfl rfl)
  have hvalue : (ofString text).codeText .python (pos + (name ++ " = ").utf8ByteSize)
      (pos + (name ++ " = ").utf8ByteSize) = "" := by
    rw [codeText, codeTextFrom, dif_neg (Nat.lt_irrefl _), Nat.max_self, slice_self]
  have hempty : (Text.collapse "").isEmpty = true := by decide
  simp only [matchStatement?, hat.ident, hat.gap, hname.free, isAnnotationColon_of_isLoneEquals hat.equals, hat.equals,
    matchChained?, hat.next, hchain, matchValue?, hspace, hscan, hvalue, hempty]
  rfl

/-! ## Attributes -/

/-- The bytes of names with points between them. -/
theorem mem_bytes_dotted {names : List String} (hnames : ∀ name ∈ names, IsTarget name) {b : UInt8}
    (hb : b ∈ Text.bytes (".".intercalate names)) : isIdentByte b = true ∨ b = '.'.toUInt8 := by
  induction names with
  | nil => cases hb
  | cons name more ih =>
    obtain ⟨-, -, -, -, hall⟩ := Text.exists_of_isIdent (hnames name List.mem_cons_self).ident
    cases more with
    | nil => exact Or.inl (hall b (by simpa using hb))
    | cons next more =>
      rw [String.intercalate_cons_cons, Text.bytes_append, Text.bytes_append, List.mem_append,
        List.mem_append] at hb
      rcases hb with (hb | hb) | hb
      · exact Or.inl (hall b hb)
      · exact Or.inr (List.mem_singleton.mp hb)
      · exact ih (fun n hn => hnames n (List.mem_cons_of_mem _ hn)) hb

theorem endsSkipped_of_isIdentByte {b : UInt8} (h : isIdentByte b = true) : endsSkipped b = false := by
  by_contra hends
  simp only [endsSkipped, Bool.not_eq_false, Bool.or_eq_true, beq_iff_eq] at hends
  rcases hends with (rfl | rfl) | rfl <;> exact absurd h (by decide)

theorem passes_of_isIdentByte {b : UInt8} (h : isIdentByte b = true) : isInert b = true ∧ endsSkipped b = false :=
  ⟨isInert_of_isIdentByte h, endsSkipped_of_isIdentByte h⟩

theorem passes_equals {b : UInt8} (hb : b ∈ Text.bytes " = ") : isInert b = true ∧ endsSkipped b = false := by
  have hall : ∀ b ∈ [' '.toUInt8, '='.toUInt8, ' '.toUInt8], isInert b = true ∧ endsSkipped b = false :=
    List.all_iff_forall_prop.mp (by decide)
  exact hall b (bytes_equals ▸ hb)

theorem passes_dotted {names : List String} (hnames : ∀ name ∈ names, IsTarget name) {b : UInt8}
    (hb : b ∈ Text.bytes (".".intercalate names)) : isInert b = true ∧ endsSkipped b = false := by
  rcases mem_bytes_dotted hnames hb with hident | rfl
  · exact passes_of_isIdentByte hident
  · decide

/-- An attribute starts no declaration. -/
theorem matchStatement?_of_dotted {names : List String} (hlength : 2 ≤ names.length)
    (hnames : ∀ name ∈ names, IsTarget name)
    (h : src.after pos = Text.bytes (".".intercalate names) ++ rest) :
    (∃ b, src.byte? pos = some b ∧ isIdentByte b = true) ∧ matchStatement? src index limit pos = none := by
  obtain ⟨name, next, more, rfl⟩ : ∃ name next more, names = name :: next :: more := by
    obtain ⟨name, tail, rfl⟩ := List.exists_cons_of_length_pos (Nat.lt_of_lt_of_le Nat.zero_lt_two hlength)
    obtain ⟨next, more, rfl⟩ := List.exists_cons_of_length_pos (Nat.lt_of_succ_le (Nat.le_of_succ_le_succ hlength))
    exact ⟨name, next, more, rfl⟩
  have hname := hnames name List.mem_cons_self
  rw [String.intercalate_cons_cons, Text.bytes_append, Text.bytes_append, List.append_assoc,
    List.append_assoc] at h
  obtain ⟨b, tail, hb, hident⟩ := head_of_isIdent hname.ident
  have hbyte : src.byte? pos = some b := by
    rw [hb] at h
    exact byte?_of_after h
  exact ⟨⟨b, hbyte, hident⟩, matchStatement?_of_point hname h⟩

theorem extract_eq_recordsFrom (limit : Nat) (text : String) (tree : Option Tree) :
    Language.python.extract limit ⟨text, tree⟩ =
      .ok (recordsFrom (ofString text) (.ofSource (ofString text)) limit 0) := by
  obtain ⟨_, hfinds⟩ := finds_recordsFrom (ofString text) (.ofSource _) limit 0
  exact congrArg Except.ok (Record.sortByPlace_of_ordered hfinds.ordered)

/-- A line that is stepped over, up to the end of the text. -/
theorem recordsFrom_of_last_line {code : List UInt8} {b : UInt8} (hb : src.byte? pos = some b)
    (hident : isIdentByte b = true) (hmatch : matchStatement? src index limit pos = none)
    (h : src.after pos = code ++ ['\n'.toUInt8]) (hcode : ∀ b ∈ code, isInert b = true ∧ endsSkipped b = false)
    (hl : code.length ≤ limit) : recordsFrom src index limit pos = [] := by
  rw [recordsFrom_of_isIdentByte hb hident, hmatch]
  dsimp only
  rw [skipStatement_of_inert h hcode rfl rfl hl]
  exact recordsFrom_of_end (after_succ (after_add h))

section

variable {names : List String} {type digits : String}

/-- An assignment to an attribute is stepped over. -/
theorem recordsFrom_of_attribute (hlength : 2 ≤ names.length) (hnames : ∀ name ∈ names, IsTarget name)
    (hdigits : ∀ b ∈ Text.bytes digits, isIdentByte b = true)
    (h : src.after pos = Text.bytes (".".intercalate names ++ " = " ++ digits) ++ ['\n'.toUInt8])
    (hl : (".".intercalate names ++ " = " ++ digits).utf8ByteSize ≤ limit) :
    recordsFrom src index limit pos = [] := by
  have hdotted : src.after pos = Text.bytes (".".intercalate names) ++
      (Text.bytes (" = " ++ digits) ++ ['\n'.toUInt8]) := by
    rw [h]
    simp only [Text.bytes_append, List.append_assoc]
  obtain ⟨⟨b, hb, hident⟩, hmatch⟩ := matchStatement?_of_dotted hlength hnames hdotted
  refine recordsFrom_of_last_line hb hident hmatch h (fun c hc => ?_) (by rw [Text.length_bytes]; exact hl)
  rw [Text.bytes_append, Text.bytes_append, List.mem_append, List.mem_append] at hc
  rcases hc with (hc | hc) | hc
  · exact passes_dotted hnames hc
  · exact passes_equals hc
  · exact passes_of_isIdentByte (hdigits c hc)

/-- An annotation of an attribute is stepped over as far as its colon. -/
theorem recordsFrom_of_annotation (hlength : 2 ≤ names.length) (hnames : ∀ name ∈ names, IsTarget name)
    (htype : IsTarget type)
    (h : src.after pos = Text.bytes (".".intercalate names) ++
      ':'.toUInt8 :: ' '.toUInt8 :: (Text.bytes type ++ rest))
    (hl : (".".intercalate names).utf8ByteSize ≤ limit) :
    recordsFrom src index limit pos =
      recordsFrom src index limit (pos + (".".intercalate names).utf8ByteSize + 2) := by
  obtain ⟨⟨b, hb, hident⟩, hmatch⟩ := matchStatement?_of_dotted hlength hnames h
  have hcolon := after_add h
  have hspace := after_succ hcolon
  have hword := after_succ hspace
  obtain ⟨c, tail, hc, hcident⟩ := head_of_isIdent htype.ident
  have hne : Text.bytes (".".intercalate names) ≠ [] := by
    intro hnil
    rw [hnil] at h
    obtain rfl := Option.some.inj (hb.symm.trans (byte?_of_after h))
    exact absurd hident (by decide)
  have hstop := isTerminator_colon h hne fun b hb => (passes_dotted hnames hb).2
  have hskip : skipStatement src limit pos = _ :=
    skipStatement_of_inert h (fun b hb => passes_dotted hnames hb) rfl hstop (by rw [Text.length_bytes]; exact hl)
  rw [Text.length_bytes] at hskip hspace hword
  rw [recordsFrom_of_isIdentByte hb hident, hmatch]
  dsimp only
  rw [hskip]
  refine recordsFrom_congr ?_
  have hbyte : src.byte? (pos + (".".intercalate names).utf8ByteSize + 1 + 1) = some c := by
    rw [hc] at hword
    exact byte?_of_after hword
  rw [skipInlineSpace_of_isIdentByte hbyte hcident]
  refine skipWhile_of_after (a := [' '.toUInt8]) hspace (List.all_eq_true.mp rfl) ?_
  rw [hc]
  exact isInlineSpace_of_isIdentByte hcident

/-- A last line `name = digits`, where the digits may be missing. -/
theorem recordsFrom_of_number {text : String} (htype : IsTarget type)
    (hdigits : ∀ c ∈ digits.toList, c.isDigit = true)
    (h : (ofString text).after pos = Text.bytes (type ++ " = " ++ digits) ++ ['\n'.toUInt8])
    (hl : (type ++ " = " ++ digits).utf8ByteSize ≤ limit) :
    recordsFrom (ofString text) (.ofSource (ofString text)) limit pos =
      if digits = "" then []
      else [⟨type, digits, .number, [], Location.atOffset (ofString text) pos⟩] := by
  by_cases hempty : digits = ""
  · subst hempty
    rw [String.append_empty] at h hl
    obtain ⟨b, tail, hb, hident⟩ := head_of_isIdent htype.ident
    obtain ⟨-, -, -, -, hall⟩ := Text.exists_of_isIdent htype.ident
    have hbyte : (ofString text).byte? pos = some b := by
      rw [Text.bytes_append, hb] at h
      exact byte?_of_after h
    refine (recordsFrom_of_last_line hbyte hident (matchStatement?_of_no_value htype h) h (fun c hc => ?_)
      (by rw [Text.length_bytes]; exact hl)).trans (if_pos rfl).symm
    rw [Text.bytes_append, List.mem_append] at hc
    rcases hc with hc | hc
    · exact passes_of_isIdentByte (hall c hc)
    · exact passes_equals hc
  · have hnumber : Text.IsNumber digits := ⟨hempty, hdigits⟩
    have hline : (ofString text).after pos =
        Text.bytes (printProgram [numberAssignment type digits htype hnumber]) := by
      rw [h]
      simp only [printProgram, Assignment.print, numberAssignment, printChain, Text.bytes_append, String.append_empty]
      rfl
    have hvalue : digits.utf8ByteSize ≤ limit := by
      rw [String.utf8ByteSize_append] at hl
      omega
    rw [if_neg hempty, recordsFrom_of_program (fun a ha => List.mem_singleton.mp ha ▸ hvalue) hline]
    simp [programRecords, Assignment.recordsAt, numberAssignment, placeChain, hnumber.kindOf_eq]

/-- **Attributes and their annotations.** An assignment of digits to an attribute declares nothing, but if the
attribute is annotated, with a name for its type, that name is recorded with the digits as its value. -/
theorem extract_attributeTarget {limit : Nat} (tree : Option Tree) (hlength : 2 ≤ names.length)
    (hnames : ∀ name ∈ names, IsTarget name) (htype : IsTarget type)
    (hdigits : ∀ c ∈ digits.toList, c.isDigit = true) :
    let plain := ".".intercalate names ++ " = " ++ digits
    let annotated := ".".intercalate names ++ ": " ++ type ++ " = " ++ digits
    (plain.utf8ByteSize ≤ limit → Language.python.extract limit ⟨plain ++ "\n", tree⟩ = .ok []) ∧
    (annotated.utf8ByteSize ≤ limit → Language.python.extract limit ⟨annotated ++ "\n", tree⟩ =
      .ok (if digits = "" then []
        else [⟨type, digits, .number, [],
          Location.atOffset (ofString (annotated ++ "\n")) ((".".intercalate names).utf8ByteSize + 2)⟩])) := by
  intro plain annotated
  constructor
  · intro hl
    have hline : (ofString (plain ++ "\n")).after 0 = Text.bytes plain ++ ['\n'.toUInt8] := by
      rw [after_ofString, Text.bytes_append]
      rfl
    rw [extract_eq_recordsFrom, recordsFrom_of_attribute hlength hnames
      (fun b hb => Text.isIdentByte_of_isDigit hdigits hb) hline hl]
  · intro hl
    have hline : (ofString (annotated ++ "\n")).after 0 = Text.bytes (".".intercalate names) ++
        ':'.toUInt8 :: ' '.toUInt8 :: (Text.bytes type ++ (Text.bytes (" = " ++ digits) ++ ['\n'.toUInt8])) := by
      rw [after_ofString]
      simp only [annotated, Text.bytes_append, List.append_assoc]
      rfl
    have hvalue := after_succ (after_succ (after_add hline))
    rw [Text.length_bytes, ← List.append_assoc, ← Text.bytes_append, ← String.append_assoc] at hvalue
    have hsize : annotated.utf8ByteSize =
        (".".intercalate names).utf8ByteSize + 2 + (type ++ " = " ++ digits).utf8ByteSize := by
      have hcolon : ": ".utf8ByteSize = 2 := rfl
      simp only [annotated, String.utf8ByteSize_append]
      omega
    rw [extract_eq_recordsFrom, recordsFrom_of_annotation hlength hnames htype hline (by omega),
      recordsFrom_of_number htype hdigits hvalue (by omega), Nat.zero_add]

theorem isTarget_of_mem_pair : ∀ name ∈ ["a", "b"], IsTarget name := by
  intro name hname
  simp only [List.mem_cons, List.not_mem_nil, or_false] at hname
  rcases hname with rfl | rfl <;> exact ⟨by decide, by decide⟩

/-- The attribute and the type of `a.b: T = 1`. -/
theorem extract_attributeTarget_annotated :
    (∀ name ∈ ["a", "b"], IsTarget name) ∧ IsTarget "T" ∧ (∀ c ∈ "1".toList, c.isDigit = true) ∧
    Language.python.extract 7 ⟨"a.b = 1\n", none⟩ = .ok [] ∧
    Language.python.extract 10 ⟨"a.b: T = 1\n", none⟩ = .ok [⟨"T", "1", .number, [], ⟨1, 6, 5⟩⟩] := by
  have hnames := isTarget_of_mem_pair
  have htype : IsTarget "T" := ⟨by decide, by decide⟩
  have hdigits : ∀ c ∈ "1".toList, c.isDigit = true := List.all_eq_true.mp (by decide)
  refine ⟨hnames, htype, hdigits, ?_, ?_⟩
  · exact (extract_attributeTarget none (by decide) hnames htype hdigits).1 (by decide)
  · exact (extract_attributeTarget none (by decide) hnames htype hdigits).2 (by decide)

/-- Not every annotated attribute is passed over without a record. -/
theorem exists_recorded_annotation : ∃ (names : List String) (type digits : String),
    2 ≤ names.length ∧ (∀ name ∈ names, IsTarget name) ∧ IsTarget type ∧ Text.IsNumber digits ∧
    Language.python.extract 100 ⟨".".intercalate names ++ ": " ++ type ++ " = " ++ digits ++ "\n", none⟩ ≠
      .ok [] := by
  refine ⟨["a", "b"], "T", "1", by decide, isTarget_of_mem_pair, ⟨by decide, by decide⟩, ⟨by decide, ?_⟩, ?_⟩
  · exact List.all_eq_true.mp (by decide)
  · intro h
    have hrecords := Except.ok.inj h
    exact absurd hrecords (by decide +kernel)

end

end Python
end VarCensus
