import VarCensus.Proofs.AbandonedDeclarators
import VarCensus.Proofs.InertComments
import VarCensus.Proofs.UnclosedGroups
import VarCensus.Proofs.ValueCues

/-!
# Literals with an encoding

A literal of C++ may have a mark in front that tells its encoding. The scan for the end of a value knows nothing of
such marks. Where a single quote stands behind a hexadecimal digit it is taken for a separator between the digits of
a number, and one of the marks ends in a digit.

So a literal is kept whole with every mark and either quote, whatever its body holds, but for that mark and a single
quote. With these the opening quote opens nothing and the body is read as code. What becomes of the closing quote
depends on the last byte of the body: behind a digit it separates nothing either, and the value happens to come out
whole; behind anything else it opens a literal that takes in the semicolon, and the declaration is lost
(`extract_encodedLiteral`).
-/

namespace VarCensus
namespace Dialect

open Source Written

/-! ## A variable whose type is left to its value -/

/-- The line that declares a variable by its value alone. -/
def inferredLine (value : String) : String :=
  "auto n = " ++ value ++ ";\n"

/-- The type of that line, as it is read. -/
def inferredHead : TypeHead :=
  ⟨"auto", "auto", false, true, 4⟩

section InferredLine

variable {value : String} {limit : Nat}

theorem after_inferredLine (value : String) : (ofString (inferredLine value)).after 0 =
    Text.bytes "auto" ++ ' '.toUInt8 ::
      (Text.bytes "n" ++ ' '.toUInt8 :: '='.toUInt8 :: ' '.toUInt8 :: (Text.bytes value ++ Text.bytes ";\n")) := by
  rw [after_ofString, inferredLine]
  simp only [Text.bytes_append, List.append_assoc]
  rfl

theorem utf8ByteSize_inferredLine (value : String) :
    (inferredLine value).utf8ByteSize = 9 + value.utf8ByteSize + 2 := by
  simp only [inferredLine, String.utf8ByteSize_append]
  rfl

theorem equals_inferredLine (value : String) : (ofString (inferredLine value)).after 7 =
    '='.toUInt8 :: ' '.toUInt8 :: (Text.bytes value ++ Text.bytes ";\n") := by
  have hname := after_succ (after_add (after_inferredLine value))
  exact after_succ (after_add hname)

/-- The line is read from its equals sign on. -/
theorem matchDeclaration?_of_inferredLine (value : String) (index : LineIndex) (limit : Nat) :
    cpp.matchDeclaration? (ofString (inferredLine value)) index limit 0 =
        cpp.declaratorsFrom? (ofString (inferredLine value)) index limit 0
          ((ofString (inferredLine value)).indentation 0) inferredHead [] 4 ∧
      cpp.declaratorAt (ofString (inferredLine value)) index limit ((ofString (inferredLine value)).indentation 0)
          inferredHead 4 =
        cpp.assigned (ofString (inferredLine value)) limit ((ofString (inferredLine value)).indentation 0) 5 7
          fun v => ⟨"n", v, Cue.kindOf .cLike v, [], index.location 5⟩ := by
  have hline := after_inferredLine value
  have hspace := after_add hline
  obtain ⟨hid, hnext, hequals, -⟩ := equals_of_name cpp.lexicon (by decide) (after_succ hspace)
  constructor
  · rw [matchDeclaration?, skipModifiers?_of_word (by decide) (by decide) hline]
    dsimp only
    rw [typeHead?_of_inferred (by decide) (by decide) (by decide) hline]
    rfl
  · exact declaratorAt_of_equals (byte?_of_after hspace) hid (by decide) hnext hequals

theorem skipTrivia_inferredLine (value : String) : (ofString (inferredLine value)).skipTrivia cpp.lexicon 0 = 0 :=
  skipTrivia_of_isSolid (byte?_of_after (after_inferredLine value)) (by decide)

theorem recordsFrom_of_trivia {src : Source} {index : LineIndex} {pos : Nat} (h : src.size ≤ src.skipTrivia .cpp pos) :
    cpp.recordsFrom src index limit pos = [] := by
  rw [recordsFrom, dif_neg]
  exact Nat.not_lt.mpr h

/-- **A value that is code is found on the line**, and its shape tells the kind. -/
theorem extract_of_isValue (hv : IsValue .cpp endsDeclarator value) (tree : Option Tree)
    (hl : value.utf8ByteSize ≤ limit) : Language.cpp.extract limit ⟨inferredLine value, tree⟩ =
      .ok [⟨"n", value, Cue.kindOf .cLike value, [], ⟨1, 6, 5⟩⟩] := by
  have hafter := equals_inferredLine value
  have hsize := utf8ByteSize_inferredLine value
  have hend := after_add (after_succ (after_succ hafter))
  rw [Text.length_bytes] at hend
  have hc : Closes cpp (ofString (inferredLine value)) (7 + 2 + value.utf8ByteSize) ';'.toUInt8 :=
    closes_semicolon hend (.mark (Or.inl rfl) rfl)
  have hplace : (LineIndex.ofSource (ofString (inferredLine value))).location 5 = ⟨1, 6, 5⟩ := by
    rw [LineIndex.location_ofSource (by rw [size_ofString]; omega), inferredLine, String.append_assoc,
      Location.atOffset_append (by decide)]
    decide
  obtain ⟨hmatch, hdeclarator⟩ :=
    matchDeclaration?_of_inferredLine value (.ofSource (ofString (inferredLine value))) limit
  rw [assigned_of_value hv hl hafter hc, hplace] at hdeclarator
  rw [declaratorsFrom?_of_found _ hdeclarator, hc.byte, if_pos (by decide)] at hmatch
  have hrest : cpp.recordsFrom (ofString (inferredLine value)) (.ofSource (ofString (inferredLine value))) limit
      (7 + 2 + value.utf8ByteSize + 1) = [] := by
    refine recordsFrom_of_trivia ?_
    rw [skipTrivia_blank (byte?_of_after (after_succ hend)) rfl, size_ofString, hsize]
    exact Nat.le_trans (by omega) (le_skipTrivia _ _ _)
  have hrecords := recordsFrom_of_match (skipTrivia_inferredLine value) (by rw [size_ofString]; omega) hmatch
  rw [hrest] at hrecords
  exact (Language.extract_of_dialect? rfl limit _).trans (congrArg Except.ok hrecords)

end InferredLine

/-! ## Literals -/

/-- The encodings of a literal. -/
inductive Encoding where
  | plain
  | wide
  | utf16
  | utf32
  | utf8
deriving DecidableEq, Repr

/-- What stands in front of the quote. -/
def Encoding.mark : Encoding → String
  | .plain => ""
  | .wide => "L"
  | .utf16 => "u"
  | .utf32 => "U"
  | .utf8 => "u8"

/-- A literal without blanks, backslashes and quotes in it. -/
structure EncodedLiteral where
  encoding : Encoding
  quote : Char
  body : String
  isQuote : quote = '"' ∨ quote = '\''
  isBody : ∀ c ∈ body.toList, Text.isBlank c = false ∧ c ∉ ['\\', '"', '\'']

namespace EncodedLiteral

variable (l : EncodedLiteral)

/-- The literal as it is written. -/
def text : String :=
  l.encoding.mark ++ String.ofList [l.quote] ++ l.body ++ String.ofList [l.quote]

/-- The line that gives it to a variable. -/
abbrev source : Source :=
  ofString (inferredLine l.text)

/-- The record of that variable. -/
def record : Record :=
  ⟨"n", l.text, .string, [], ⟨1, 6, 5⟩⟩

/-- The opening quote is taken for a separator of digits. -/
def IsMisread : Prop :=
  l.encoding = .utf8 ∧ l.quote = '\''

theorem toList_text : l.text.toList = l.encoding.mark.toList ++ l.quote :: (l.body.toList ++ [l.quote]) := by
  simp [text]

theorem bytes_text : Text.bytes l.text =
    Text.bytes l.encoding.mark ++ l.quote.toUInt8 :: (Text.bytes l.body ++ [l.quote.toUInt8]) := by
  have hquote : Text.bytes (String.ofList [l.quote]) = [l.quote.toUInt8] := by
    rcases l.isQuote with h | h <;> rw [h] <;> decide
  simp only [text, Text.bytes_append, hquote, List.append_assoc]
  rfl

/-- A mark is letters and digits, and only one of them ends in what may be a digit of a number. -/
theorem mark_facts (encoding : Encoding) :
    (∀ b ∈ Text.bytes encoding.mark, isInert b = true ∧ endsDeclarator true b = false) ∧
      (isHexDigit ((Text.bytes encoding.mark).getLastD ' '.toUInt8) = true → encoding = .utf8) ∧
      (Text.bytes encoding.mark).getLastD ' '.toUInt8 ≠ 'R'.toUInt8 := by
  refine ⟨List.all_iff_forall_prop.mp ?_, ?_⟩
  · cases encoding <;> decide
  · cases encoding <;> decide

theorem body_byte {b : UInt8} (hb : b ∈ Text.bytes l.body) :
    b ≠ '\\'.toUInt8 ∧ b ≠ '\n'.toUInt8 ∧ b ≠ l.quote.toUInt8 := by
  have hnot := Text.notMem_of_mem_bytes (by decide) (fun c hc => (l.isBody c hc).2) hb
  simp only [List.map_cons, List.map_nil, List.mem_cons, List.not_mem_nil, or_false, not_or] at hnot
  refine ⟨hnot.1, ?_, ?_⟩
  · rintro rfl
    have hfeed := (l.isBody '\n' (Text.mem_toList_of_mem_bytes (by decide) (by decide) hb)).1
    exact absurd hfeed (by decide)
  · rcases l.isQuote with h | h <;> rw [h]
    · exact hnot.2.1
    · exact hnot.2.2

/-- The literal is one word. -/
theorem isWord_text : Text.IsWord l.text.toList := by
  have hmark : ∀ c ∈ l.encoding.mark.toList, Text.isBlank c = false :=
    List.all_iff_forall_prop.mp (by cases l.encoding <;> decide)
  have hquote : Text.isBlank l.quote = false := by
    rcases l.isQuote with h | h <;> rw [h] <;> decide
  rw [toList_text]
  refine ⟨by simp, fun c hc => ?_⟩
  simp only [List.mem_append, List.mem_cons, List.not_mem_nil, or_false] at hc
  rcases hc with hc | rfl | hc | rfl
  · exact hmark c hc
  · exact hquote
  · exact (l.isBody c hc).1
  · exact hquote

/-- The mark is what stands in front of the first quote, and it is one that is known. -/
theorem quoteMark?_text : Cue.quoteMark? .cLike l.text.toList = some l.encoding.mark.toList := by
  have hplain : ∀ c ∈ l.encoding.mark.toList, (!Cue.isQuote c) = true :=
    List.all_eq_true.mp (by cases l.encoding <;> decide)
  have hquote : (!Cue.isQuote l.quote) = false := by
    rcases l.isQuote with h | h <;> rw [h] <;> decide
  have hmark : l.text.toList.takeWhile (!Cue.isQuote ·) = l.encoding.mark.toList := by
    rw [toList_text, List.takeWhile_append_of_pos hplain, List.takeWhile_cons_of_neg (by simp [hquote]),
      List.append_nil]
  have hknown : Spelling.cLike.isQuoteMark l.encoding.mark.toList = true := by
    cases l.encoding <;> decide
  have hlength : l.encoding.mark.toList.length < l.text.toList.length := by
    rw [toList_text]
    simp
  simp only [Cue.quoteMark?, hmark, hknown, hlength, decide_true, Bool.and_self, ↓reduceIte]

/-- **The shape of a literal tells a string**, with every mark. -/
theorem kindOf_text : Cue.kindOf .cLike l.text = .string := by
  obtain ⟨hne, hblank⟩ := l.isWord_text
  rw [Cue.kindOf_eq_kindOfTrimmed fun c hc => hblank c (hc.elim List.mem_of_head? List.mem_of_getLast?)]
  have hnonempty : l.text.toList.isEmpty = false := by simpa using hne
  simp only [Cue.kindOfTrimmed, hnonempty, quoteMark?_text]
  rfl

/-- A literal that is code as a value is found on its line. -/
theorem extract_of_code (tree : Option Tree) {limit : Nat} (hl : (inferredLine l.text).utf8ByteSize ≤ limit)
    (hcode : Code .cpp endsDeclarator [] ' '.toUInt8 (Text.bytes l.text)) :
    Language.cpp.extract limit ⟨inferredLine l.text, tree⟩ = .ok [l.record] := by
  have hword := l.isWord_text
  have hv : IsValue .cpp endsDeclarator l.text :=
    ⟨by simpa using hword.1, Text.collapse_of_isWord hword, hcode⟩
  rw [utf8ByteSize_inferredLine] at hl
  rw [extract_of_isValue hv tree (by omega), kindOf_text, record]

theorem quotedTail_of_plain {quote : UInt8} {body : List UInt8}
    (h : ∀ b ∈ body, b ≠ '\\'.toUInt8 ∧ b ≠ '\n'.toUInt8 ∧ b ≠ quote) : QuotedTail quote (body ++ [quote]) := by
  induction body with
  | nil => exact .close
  | cons b body ih =>
    obtain ⟨hslash, hfeed, hquote⟩ := h b List.mem_cons_self
    exact .plain hslash hfeed hquote (ih fun c hc => h c (List.mem_cons_of_mem _ hc))

/-- **A literal is code, unless it is misread**: its mark is passed and the quotes enclose the body. -/
theorem code_text (h : ¬ l.IsMisread) : Code .cpp endsDeclarator [] ' '.toUInt8 (Text.bytes l.text) := by
  obtain ⟨hmark, hdigit, hraw⟩ := mark_facts l.encoding
  have hquote : VarCensus.isQuote l.quote.toUInt8 = true := by
    rcases l.isQuote with h | h <;> rw [h] <;> decide
  have hopens : OpensOrdinary .cpp ((Text.bytes l.encoding.mark).getLastD ' '.toUInt8) l.quote.toUInt8
      (Text.bytes l.body ++ [l.quote.toUInt8] ++ []) := by
    refine ⟨hquote, fun hsingle _ => ?_, fun _ _ hletter => absurd hletter hraw⟩
    -- only `u8` ends in a digit, and with a single quote that is the case left out
    by_contra hhex
    refine h ⟨hdigit (Bool.not_eq_false _ ▸ hhex), l.isQuote.resolve_left fun hdouble => ?_⟩
    rw [hdouble] at hsingle
    exact absurd hsingle (by decide)
  have hliteral : Literal .cpp ((Text.bytes l.encoding.mark).getLastD ' '.toUInt8)
      (l.quote.toUInt8 :: (Text.bytes l.body ++ [l.quote.toUInt8])) [] :=
    .quoted hopens (fun htriple => absurd htriple (by decide)) (quotedTail_of_plain fun _ hb => l.body_byte hb)
  have hcode : Code .cpp endsDeclarator [] ((Text.bytes l.encoding.mark).getLastD ' '.toUInt8)
      (l.quote.toUInt8 :: (Text.bytes l.body ++ [l.quote.toUInt8]) ++ []) := .literal hliteral .done
  rw [List.append_nil] at hcode
  rw [bytes_text]
  exact code_of_inert (fun b hb => (hmark b hb).1) (fun b hb => (hmark b hb).2) hcode

end EncodedLiteral

/-! ## The next statement -/

section NextStatement

variable {d : Dialect} {src : Source} {pos : Nat} {code rest : List UInt8}

/-- The bytes behind which the search for a declaration may go on. -/
def boundaries : List UInt8 :=
  [';', '\x7b', '\x7d', ':', '('].map Char.toUInt8

theorem nextStatement_of_byte {b : UInt8} (hb : src.byte? pos = some b)
    (he : src.enclosedEnd? d.lexicon pos = none) (hnot : b ∉ boundaries) :
    d.nextStatement src pos = d.nextStatement src (pos + 1) := by
  simp only [boundaries, List.map_cons, List.map_nil, List.mem_cons, List.not_mem_nil, or_false, not_or] at hnot
  rw [nextStatement_eq_match d hb, he]
  simp [hnot]

/-- The search for the next statement passes inert bytes that bound none. -/
theorem nextStatement_of_inert (h : src.after pos = code ++ rest)
    (hcode : ∀ b ∈ code, isInert b = true ∧ b ∉ boundaries) :
    d.nextStatement src pos = d.nextStatement src (pos + code.length) := by
  induction code generalizing pos with
  | nil => rfl
  | cons b code ih =>
    obtain ⟨hinert, hnot⟩ := hcode b List.mem_cons_self
    have hbyte := byte?_of_after h
    rw [nextStatement_of_byte hbyte (enclosedEnd?_eq_none hbyte (isInert_facts hinert).1) hnot,
      ih (after_succ h) fun c hc => hcode c (List.mem_cons_of_mem _ hc), List.length_cons, Nat.add_assoc,
      Nat.add_comm 1]

theorem nextStatement_of_enclosed {e : Nat} (h : src.enclosedEnd? d.lexicon pos = some e) :
    d.nextStatement src pos = d.nextStatement src e := by
  obtain ⟨b, hb⟩ : ∃ b, src.byte? pos = some b :=
    ⟨_, Array.getElem?_eq_getElem (Nat.lt_of_lt_of_le (enclosedEnd?_bounds h).1 (enclosedEnd?_bounds h).2)⟩
  rw [nextStatement_eq_match d hb, h]

theorem nextStatement_of_end (h : src.after pos = []) : d.nextStatement src pos = src.size := by
  rw [nextStatement, dif_neg]
  · rfl
  · simpa [after] using h

end NextStatement

namespace EncodedLiteral

variable (l : EncodedLiteral)

/-- The characters of code that are more than a part of a name or an operator. -/
def codeMarks : List Char :=
  ['#', '/', ';', ',', ':', '(', ')', '[', ']', '\x7b', '\x7d']

theorem body_byte_of_unmarked (h : ∀ c ∈ l.body.toList, c ∉ codeMarks) {b : UInt8} (hb : b ∈ Text.bytes l.body) :
    isInert b = true ∧ b ∉ boundaries ∧ endsDeclarator true b = false := by
  have hquotes := Text.notMem_of_mem_bytes (by decide) (fun c hc => (l.isBody c hc).2) hb
  have hmarks := Text.notMem_of_mem_bytes (by decide) h hb
  have hfeed := (l.body_byte hb).2.1
  simp only [codeMarks, List.map_cons, List.map_nil, List.mem_cons, List.not_mem_nil, or_false, not_or]
    at hquotes hmarks
  refine ⟨?_, ?_, ?_⟩
  · simp [isInert, isPlain, closerOf?, isCloser, hquotes, hmarks, hfeed]
  · simp [boundaries, hmarks]
  · simp [endsDeclarator, hmarks]

/-! ## Misread literals -/

theorem after_misread (h : l.IsMisread) : l.source.after 0 = Text.bytes "auto n = " ++
    (Text.bytes "u8" ++ '\''.toUInt8 :: (Text.bytes l.body ++ '\''.toUInt8 :: Text.bytes ";\n")) := by
  rw [after_ofString, inferredLine, Text.bytes_append, Text.bytes_append, bytes_text, h.1, h.2]
  simp only [List.append_assoc, List.cons_append]
  rfl

/-- The opening quote stands behind a digit and opens nothing. -/
theorem enclosedEnd?_open (h : l.IsMisread) : l.source.enclosedEnd? .cpp 11 = none := by
  have hmark := after_add (l.after_misread h)
  have hquote : l.source.byte? 11 = some '\''.toUInt8 := byte?_of_after (after_add hmark)
  have hdigit : l.source.byteBefore? 11 = some '8'.toUInt8 := byteBefore?_add hmark rfl
  rw [enclosedEnd?, commentEnd?_of_byte hquote (by decide) (by decide)]
  exact literalEnd?_eq_none hquote hdigit fun _ => ⟨rfl, rfl, by decide⟩

/-- A body that ends in a digit makes code of the literal. -/
theorem code_misread (h : l.IsMisread) (hbody : ∀ c ∈ l.body.toList, c ∉ codeMarks)
    (hlast : (Text.bytes l.body).getLast?.any isHexDigit = true) :
    Code .cpp endsDeclarator [] ' '.toUInt8 (Text.bytes l.text) := by
  obtain ⟨hmark, -⟩ := mark_facts l.encoding
  obtain ⟨b, hb, hdigit⟩ := (Option.any_eq_true _ _).mp hlast
  have hprev : isHexDigit ((Text.bytes l.body).getLastD '\''.toUInt8) = true := by
    rwa [List.getLastD_eq_getLast?, hb]
  have hclose : Code .cpp endsDeclarator [] ((Text.bytes l.body).getLastD '\''.toUInt8) ['\''.toUInt8] :=
    .byte rfl rfl rfl (by decide) (fun _ => ⟨rfl, rfl, hprev⟩) rfl .done
  have hinside : Code .cpp endsDeclarator [] '\''.toUInt8 (Text.bytes l.body ++ ['\''.toUInt8]) :=
    code_of_inert (fun b hb => (l.body_byte_of_unmarked hbody hb).1)
      (fun b hb => (l.body_byte_of_unmarked hbody hb).2.2) hclose
  rw [bytes_text, h.2]
  refine code_of_inert (fun b hb => (hmark b hb).1) (fun b hb => (hmark b hb).2) ?_
  rw [h.1]
  exact .byte rfl rfl rfl (by decide) (fun _ => ⟨rfl, rfl, by decide⟩) (opensComment_of_isQuote rfl) hinside

/-- A single quote that stands behind no digit, in front of the semicolon at the end of a line, opens a literal that
goes as far as the line does. -/
theorem literalEnd?_of_stray {text : String} {pos : Nat} {prev : UInt8} {rest : List UInt8}
    (h : (ofString text).after pos = '\''.toUInt8 :: ';'.toUInt8 :: '\n'.toUInt8 :: rest)
    (hprev : (ofString text).byteBefore? pos = some prev) (hdigit : isHexDigit prev = false) :
    (ofString text).literalEnd? .cpp pos = some (pos + 2) := by
  have hopens : OpensOrdinary .cpp prev '\''.toUInt8 (';'.toUInt8 :: '\n'.toUInt8 :: rest) :=
    ⟨rfl, fun _ _ => hdigit, fun hdouble => absurd hdouble (by decide)⟩
  have htriple : Lexicon.cpp.tripleQuotes = false := rfl
  have hbehind := after_succ h
  rw [literalEnd?_of_opensOrdinary hopens h hprev, ordinaryEnd, htriple, Bool.false_and, if_neg (by decide),
    quotedEnd_cons hbehind, quotedEnd_cons (after_succ hbehind)]
  rfl

section Lost

variable {l : EncodedLiteral} (h : l.IsMisread) (hbody : ∀ c ∈ l.body.toList, c ∉ codeMarks)
  (hlast : (Text.bytes l.body).getLast?.any isHexDigit = false)

include h in
theorem size_misread : l.source.size = 12 + (Text.bytes l.body).length + 3 := by
  have hmark : (Text.bytes Encoding.utf8.mark).length = 2 := rfl
  rw [size_ofString, utf8ByteSize_inferredLine, ← Text.length_bytes l.text, bytes_text, h.1]
  simp only [List.length_append, List.length_cons, List.length_nil]
  omega

include h in
theorem after_close : l.source.after (12 + (Text.bytes l.body).length) = '\''.toUInt8 :: Text.bytes ";\n" :=
  after_add (after_succ (after_add (after_add (l.after_misread h))))

include h hlast in
/-- The closing quote opens a literal of its own. -/
theorem literalEnd?_close : l.source.literalEnd? .cpp (12 + (Text.bytes l.body).length) =
    some (12 + (Text.bytes l.body).length + 2) := by
  have hquote : l.source.after 11 =
      '\''.toUInt8 :: Text.bytes l.body ++ '\''.toUInt8 :: Text.bytes ";\n" :=
    after_add (after_add (l.after_misread h))
  have hprev := byteBefore?_add hquote List.getLast?_cons
  rw [List.length_cons, Nat.add_comm (Text.bytes l.body).length, ← Nat.add_assoc] at hprev
  refine literalEnd?_of_stray (after_close h) hprev ?_
  cases hb : (Text.bytes l.body).getLast? with
  | none => decide
  | some b =>
    rw [hb] at hlast
    exact hlast

include h hbody in
/-- The scan of the value comes to the closing quote without having opened anything. -/
theorem runsThrough_misread (startsStatement : Nat → Bool) {limit : Nat}
    (hl : 3 + (Text.bytes l.body).length ≤ limit) :
    RunsThrough .cpp l.source valueStops startsStatement 9 limit [] 9
      ('u'.toUInt8 :: '8'.toUInt8 :: '\''.toUInt8 :: Text.bytes l.body) := by
  have hmark := after_add (l.after_misread h)
  have hdigit := after_succ hmark
  have hquote := after_succ hdigit
  refine .byte (pieceAt?_of_isPlain (byte?_of_after hmark) (by decide) (by decide)) (by omega)
    (verdict_of_byte rfl rfl (by decide) fun _ => rfl) ?_
  refine .byte (pieceAt?_of_isPlain (byte?_of_after hdigit) (by decide) (by decide)) (by omega)
    (verdict_of_byte rfl rfl (by decide) fun _ => rfl) ?_
  refine .byte (pieceAt?_of_byte (byte?_of_after hquote) (by decide) (l.enclosedEnd?_open h)) (by omega)
    (verdict_of_byte rfl rfl (by decide) fun _ => rfl) ?_
  refine runsThrough_of_inert (after_succ hquote) (fun b hb => (l.body_byte_of_unmarked hbody hb).1)
    (fun b hb pos => ?_) (by omega)
  exact isTerminator_eq_false _ _ b pos (l.body_byte_of_unmarked hbody hb).2.2 (l.body_byte hb).2.1

include h hbody hlast in
/-- **The scan of the value comes to no terminator**: the semicolon is in the literal that the closing quote opens. -/
theorem scanValueUntil_lost (startsStatement : Nat → Bool) {limit : Nat}
    (hl : 5 + (Text.bytes l.body).length ≤ limit) :
    (l.source.scanValueUntil .cpp valueStops limit startsStatement 9).stop = .endOfText := by
  obtain ⟨codeEnd, hscan, -⟩ :=
    runsThrough_misread h hbody startsStatement (show 3 + (Text.bytes l.body).length ≤ limit by omega) 9
  have hlength : 9 + ('u'.toUInt8 :: '8'.toUInt8 :: '\''.toUInt8 :: Text.bytes l.body).length =
      12 + (Text.bytes l.body).length := by
    simp only [List.length_cons]
    omega
  have hclose := after_close h
  have hfeed := after_succ (after_succ hclose)
  have hliteral : l.source.pieceAt? .cpp (12 + (Text.bytes l.body).length) =
      some (.literal (12 + (Text.bytes l.body).length + 2)) := by
    have hquote := byte?_of_after hclose
    rw [pieceAt?, hquote, commentEnd?_of_byte hquote (by decide) (by decide), literalEnd?_close h hlast]
  have hline : l.source.pieceAt? .cpp (12 + (Text.bytes l.body).length + 2) =
      some (.byte '\n'.toUInt8) := pieceAt?_of_isPlain (byte?_of_after hfeed) (by decide) (by decide)
  have hend : l.source.pieceAt? .cpp (12 + (Text.bytes l.body).length + 2 + 1) = none := by
    rw [pieceAt?, ← head?_after, after_succ hfeed]
    rfl
  rw [scanValueUntil, hscan, hlength, scanFrom_of_literal hliteral (by omega),
    scanFrom_of_byte hline (by omega) rfl, scanFrom_eq_match, hend]

include h hbody hlast in
/-- The search for the next statement passes the whole line. -/
theorem nextStatement_lost : cpp.nextStatement l.source 0 = l.source.size := by
  have hline := l.after_misread h
  have hmark := after_add hline
  have hquote := after_add hmark
  have hclose := after_close h
  have hfeed := after_succ (after_succ hclose)
  have hliteral : l.source.enclosedEnd? .cpp (12 + (Text.bytes l.body).length) =
      some (12 + (Text.bytes l.body).length + 2) := by
    rw [enclosedEnd?, commentEnd?_of_byte (byte?_of_after hclose) (by decide) (by decide), literalEnd?_close h hlast]
  calc cpp.nextStatement l.source 0 = cpp.nextStatement l.source 9 :=
        nextStatement_of_inert hline (List.all_iff_forall_prop.mp (by decide))
    _ = cpp.nextStatement l.source 11 := nextStatement_of_inert hmark (List.all_iff_forall_prop.mp (by decide))
    _ = cpp.nextStatement l.source 12 :=
        nextStatement_of_byte (byte?_of_after hquote) (l.enclosedEnd?_open h) (by decide)
    _ = cpp.nextStatement l.source (12 + (Text.bytes l.body).length) :=
        nextStatement_of_inert (after_succ hquote) fun b hb =>
          ⟨(l.body_byte_of_unmarked hbody hb).1, (l.body_byte_of_unmarked hbody hb).2.1⟩
    _ = cpp.nextStatement l.source (12 + (Text.bytes l.body).length + 2) := nextStatement_of_enclosed hliteral
    _ = cpp.nextStatement l.source (12 + (Text.bytes l.body).length + 2 + 1) :=
        nextStatement_of_byte (byte?_of_after hfeed) (enclosedEnd?_eq_none (byte?_of_after hfeed) (by decide))
          (by decide)
    _ = l.source.size := nextStatement_of_end (after_succ hfeed)

include h hbody hlast in
theorem assigned_lost (indent : Nat) (recordOf : String → Record) {limit : Nat} (hl : l.source.size ≤ limit) :
    cpp.assigned l.source limit indent 5 7 recordOf = .finished l.source.size := by
  have hstart : l.source.skipTrivia cpp.lexicon (7 + 1) = 9 := by
    rw [skipTrivia_blank (byte?_of_after (after_succ (equals_inferredLine l.text))) rfl]
    exact skipTrivia_of_isSolid (byte?_of_after (after_add (l.after_misread h))) (by decide)
  rw [size_misread h] at hl
  have hscan : (l.source.scanValueUntil cpp.lexicon valueStops limit
      (cpp.startsDeclaration l.source limit indent) 9).stop = .endOfText :=
    scanValueUntil_lost h hbody hlast _ (by omega)
  simp only [assigned, hstart, hscan]

include h hbody hlast in
/-- A declaration whose literal is misread to the end of the line is lost. -/
theorem extract_lost (tree : Option Tree) {limit : Nat} (hl : (inferredLine l.text).utf8ByteSize ≤ limit) :
    Language.cpp.extract limit ⟨inferredLine l.text, tree⟩ = .ok [] := by
  obtain ⟨hmatch, hdeclarator⟩ := matchDeclaration?_of_inferredLine l.text (.ofSource l.source) limit
  rw [assigned_lost h hbody hlast _ _ ((size_ofString _).trans_le hl)] at hdeclarator
  rw [declaratorsFrom?_eq_match, hdeclarator] at hmatch
  have hlt : 0 < l.source.size := by
    rw [size_misread h]
    omega
  have hzero := skipTrivia_inferredLine l.text
  -- no declaration is matched, and the next statement would be behind the text
  have hrecords : cpp.recordsFrom l.source (.ofSource l.source) limit 0 = [] := by
    rw [recordsFrom_eq_match cpp _ _ _ (hzero.trans_lt hlt), hzero, hmatch]
    dsimp only
    rw [nextStatement_lost h hbody hlast]
    exact recordsFrom_of_trivia (le_skipTrivia _ _ _)
  exact (Language.extract_of_dialect? rfl limit _).trans (congrArg Except.ok hrecords)

end Lost

end EncodedLiteral

/-- **A literal with an encoding is kept whole**, for every mark and either quote, whatever the body holds: the one
record of the line has the literal as its value and says that it is a string. A single quote behind `u8` is the one
exception. If the body holds no mark of code, the record is the same where its last byte is a hexadecimal digit, and
nothing at all is found where it is not. -/
theorem extract_encodedLiteral (l : EncodedLiteral) (tree : Option Tree) {limit : Nat}
    (hl : (inferredLine l.text).utf8ByteSize ≤ limit) :
    (¬ l.IsMisread → Language.cpp.extract limit ⟨inferredLine l.text, tree⟩ = .ok [l.record]) ∧
    (l.IsMisread → (∀ c ∈ l.body.toList, c ∉ EncodedLiteral.codeMarks) →
      Language.cpp.extract limit ⟨inferredLine l.text, tree⟩ =
        .ok (if (Text.bytes l.body).getLast?.any isHexDigit then [l.record] else [])) := by
  refine ⟨fun hread => l.extract_of_code tree hl (l.code_text hread), fun hmisread hbody => ?_⟩
  cases hlast : (Text.bytes l.body).getLast?.any isHexDigit with
  | true => exact l.extract_of_code tree hl (l.code_misread hmisread hbody hlast)
  | false => exact EncodedLiteral.extract_lost hmisread hbody hlast tree hl

/-- A body in which everything would mean something outside a literal. -/
def markedLiteral (encoding : Encoding) (quote : Char) (isQuote : quote = '"' ∨ quote = '\'') : EncodedLiteral :=
  ⟨encoding, quote, "/*;,\x7b", isQuote, List.all_iff_forall_prop.mp (by decide)⟩

/-- A letter that is a hexadecimal digit, between single quotes. -/
def digitLiteral : EncodedLiteral :=
  ⟨.utf8, '\'', "a", Or.inr rfl, List.all_iff_forall_prop.mp (by decide)⟩

theorem extract_encodedLiteral_marks :
    Language.cpp.extract 64 ⟨"auto n = u8\"/*;,\x7b\";\n", none⟩ =
      .ok [⟨"n", "u8\"/*;,\x7b\"", .string, [], ⟨1, 6, 5⟩⟩] ∧
    Language.cpp.extract 64 ⟨"auto n = U'/*;,\x7b';\n", none⟩ =
      .ok [⟨"n", "U'/*;,\x7b'", .string, [], ⟨1, 6, 5⟩⟩] ∧
    Language.cpp.extract 64 ⟨"auto n = u8'a';\n", none⟩ =
      .ok [⟨"n", "u8'a'", .string, [], ⟨1, 6, 5⟩⟩] := by
  refine ⟨?_, ?_, ?_⟩
  · exact (extract_encodedLiteral (markedLiteral .utf8 '"' (Or.inl rfl)) none (by decide)).1
      fun h => absurd h.2 (by decide)
  · exact (extract_encodedLiteral (markedLiteral .utf32 '\'' (Or.inr rfl)) none (by decide)).1
      fun h => absurd h.1 (by decide)
  · exact (extract_encodedLiteral digitLiteral none (by decide)).2 ⟨rfl, rfl⟩ (List.all_iff_forall_prop.mp (by decide))

/-- A character with an encoding, and no record of its variable. -/
theorem encodedLiteral_lost : Language.cpp.extract 64 ⟨"auto n = u8'x';\n", none⟩ = .ok [] := by
  decide +kernel

end Dialect
end VarCensus
