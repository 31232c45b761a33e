import VarCensus.Proofs.Collapse
import VarCensus.Proofs.CommentedDeclarations
import VarCensus.Proofs.LineRecovery
import VarCensus.Proofs.PrintedDeclarations

/-!
# An unclosed group costs one declaration

A bracket in a value that is never closed would take everything behind it for a part of the value. The scan guards
against that at each line feed inside brackets: if a declaration starts on the next line, and is not indented more
than the one that is being read, the value is given up and the search goes on with that line.

So two lines are enough, whatever comes behind them: the first opens a group and leaves it open, the second declares
a variable. The scan runs through the first value with brackets open (`scanFrom_of_unbroken`) until it meets the line
feed, where the type of the second line is tried out (`startsDeclaration_of_lead`). The declaration is abandoned
there, and the second one is read as if the first were not.
-/

namespace VarCensus

/-! ## Bytes of single characters -/

namespace Text

theorem bytes_of_single {cs : List Char} (hsize : ∀ c ∈ cs, c.utf8Size = 1) :
    bytes (String.ofList cs) = cs.map Char.toUInt8 := by
  induction cs with
  | nil => rfl
  | cons c cs ih =>
    rw [← List.singleton_append, String.ofList_append, bytes_append, bytes_singleton (hsize c List.mem_cons_self),
      ih fun c' hc' => hsize c' (List.mem_cons_of_mem _ hc')]
    rfl

/-- A text without certain ASCII characters is one without their bytes. -/
theorem notMem_of_mem_bytes {s : String} {cs : List Char}
    (hcs : cs.all (fun c => c.utf8Size == 1 && c.toUInt8 < 0x80) = true) (h : ∀ c ∈ s.toList, c ∉ cs) {b : UInt8}
    (hb : b ∈ bytes s) : b ∉ cs.map Char.toUInt8 := by
  intro hmem
  obtain ⟨c, hc, rfl⟩ := List.mem_map.mp hmem
  have hascii := List.all_eq_true.mp hcs c hc
  simp only [Bool.and_eq_true, beq_iff_eq, decide_eq_true_eq] at hascii
  exact h c (mem_toList_of_mem_bytes hascii.1 hascii.2 hb) hc

theorem char_of_isDigit {c : Char} (h : c.isDigit = true) :
    c.utf8Size = 1 ∧ isAsciiDigit c.toUInt8 = true ∧ isBlank c = false := by
  simp only [Char.isDigit, Bool.and_eq_true, decide_eq_true_eq, UInt32.le_iff_toNat_le] at h
  have hlow : 48 ≤ c.toNat := h.1
  have hhigh : c.toNat ≤ 57 := h.2
  have hbyte : c.toUInt8.toNat = c.toNat := Nat.mod_eq_of_lt (Nat.lt_of_le_of_lt hhigh (by decide))
  refine ⟨?_, ?_, ?_⟩
  · rw [Char.utf8Size_eq_one_iff, UInt32.le_iff_toNat_le]
    exact Nat.le_trans hhigh (by decide)
  · simp only [isAsciiDigit, Bool.and_eq_true, decide_eq_true_eq, UInt8.le_iff_toNat_le, hbyte]
    exact ⟨hlow, hhigh⟩
  · simp [isBlank]
    omega

theorem isIdentByte_of_isDigit {v : String} (h : ∀ c ∈ v.toList, c.isDigit = true) {b : UInt8} (hb : b ∈ bytes v) :
    isIdentByte b = true := by
  rw [← String.ofList_toList (s := v), bytes_of_single fun c hc => (char_of_isDigit (h c hc)).1] at hb
  obtain ⟨c, hc, rfl⟩ := List.mem_map.mp hb
  simp [isIdentByte, (char_of_isDigit (h c hc)).2.1]

end Text

/-- A number without sign or point: digits, at least one. -/
def Text.IsNumber (s : String) : Prop :=
  s ≠ "" ∧ ∀ c ∈ s.toList, c.isDigit = true

namespace Text.IsNumber

variable {v : String}

theorem isIdentByte (h : IsNumber v) {b : UInt8} (hb : b ∈ bytes v) : isIdentByte b = true :=
  isIdentByte_of_isDigit h.2 hb

theorem collapse_eq (h : IsNumber v) : collapse v = v :=
  collapse_of_isWord ⟨by simpa using h.1, fun c hc => (char_of_isDigit (h.2 c hc)).2.2⟩

end Text.IsNumber

namespace Source

open Written

variable {lex : Lexicon} {src : Source} {pos : Nat} {rest : List UInt8}

/-! ## Code with no end in sight -/

/-- The characters that can close a bracket, open or escape anything but a bracket, or end a line. -/
def breaks : List Char :=
  ['\n', ')', ']', '\x7d', '"', '\'', '/', '\\']

/-- Whether a byte is none of the breaks. -/
def isUnbroken (b : UInt8) : Bool :=
  !(breaks.map Char.toUInt8).contains b

theorem isUnbroken_facts {b : UInt8} (h : isUnbroken b = true) :
    b ≠ '\n'.toUInt8 ∧ isCloser b = false ∧ isQuote b = false ∧ b ≠ '/'.toUInt8 ∧ b ≠ '\\'.toUInt8 := by
  simp only [isUnbroken, breaks, List.map_cons, List.map_nil, Bool.not_eq_true', List.contains_eq_mem,
    List.mem_cons, List.not_mem_nil, or_false, decide_eq_false_iff_not, not_or] at h
  obtain ⟨hfeed, hround, hsquare, hcurly, hdouble, hsingle, hslash, hback⟩ := h
  exact ⟨hfeed, by simp [isCloser, hround, hsquare, hcurly], by simp [isQuote, hdouble, hsingle], hslash, hback⟩

theorem isUnbroken_of_isIdentByte {b : UInt8} (h : isIdentByte b = true) : isUnbroken b = true := by
  by_contra hmem
  simp only [isUnbroken, breaks, List.map_cons, List.map_nil, Bool.not_eq_true, Bool.not_eq_false',
    List.contains_iff_mem, List.mem_cons, List.not_mem_nil, or_false] at hmem
  rcases hmem with rfl | rfl | rfl | rfl | rfl | rfl | rfl | rfl <;> exact absurd h (by decide)

theorem commentEnd?_of_isUnbroken {b : UInt8} (hlex : lex.comments = .slash) (hb : src.byte? pos = some b)
    (h : isUnbroken b = true) : src.commentEnd? lex pos = none := by
  obtain ⟨-, -, -, hslash, -⟩ := isUnbroken_facts h
  refine commentEnd?_eq_none ?_
  rw [after_eq_cons hb, opensComment, hlex]
  simp [List.isPrefixOf, hslash.symm]

theorem enclosedEnd?_of_isUnbroken {b : UInt8} (hlex : lex.comments = .slash) (hb : src.byte? pos = some b)
    (h : isUnbroken b = true) : src.enclosedEnd? lex pos = none := by
  obtain ⟨-, -, hquote, -⟩ := isUnbroken_facts h
  rw [enclosedEnd?, commentEnd?_of_isUnbroken hlex hb h, literalEnd?, hb]
  refine if_pos ?_
  simpa [isQuote] using hquote

section Scan

variable {stops : Stops} {startsStatement : Nat → Bool} {start limit : Nat} {code : List UInt8}

/-- **A scan runs through code without breaks**, and no bracket that is open when it starts is closed on the way.
Outside brackets the code must not end the value either. -/
theorem scanFrom_of_unbroken (closers : List UInt8) (codeEnd : Nat) (hlex : lex.comments = .slash)
    (h : src.after pos = code ++ rest) (hcode : ∀ b ∈ code, isUnbroken b = true)
    (hstop : closers = [] → ∀ b ∈ code, ∀ pos, src.isTerminator lex stops b pos = false)
    (hl : pos + code.length ≤ start + limit) :
    ∃ closers' codeEnd', src.scanFrom lex stops startsStatement start limit closers pos codeEnd =
        src.scanFrom lex stops startsStatement start limit closers' (pos + code.length) codeEnd' ∧
      (closers' = [] → closers = []) := by
  induction code generalizing pos closers codeEnd with
  | nil => exact ⟨closers, codeEnd, rfl, id⟩
  | cons b code ih =>
    rw [List.length_cons] at hl
    have hb := hcode b List.mem_cons_self
    obtain ⟨hfeed, hcloser, -, -, hslash⟩ := isUnbroken_facts hb
    have hbyte := byte?_of_after h
    have hpiece := pieceAt?_of_byte hbyte hslash (enclosedEnd?_of_isUnbroken hlex hbyte hb)
    -- an opening bracket is remembered, and any other byte leaves the brackets as they are
    obtain ⟨opened, hverdict, hopened⟩ : ∃ opened,
        src.verdict lex stops startsStatement closers b pos = .ok opened ∧ (opened = [] → closers = []) := by
      cases hopener : closerOf? b with
      | some c => exact ⟨c :: closers, verdict_of_opener hopener, by simp⟩
      | none =>
        exact ⟨closers, verdict_of_byte hopener hcloser hfeed fun hnil => hstop hnil b List.mem_cons_self pos, id⟩
    obtain ⟨closers', codeEnd', hscan, hclosers'⟩ :=
      ih opened (if isAsciiBlank b then codeEnd else pos + 1) (after_succ h)
        (fun c hc => hcode c (List.mem_cons_of_mem _ hc))
        (fun hnil c hc => hstop (hopened hnil) c (List.mem_cons_of_mem _ hc)) (by omega)
    refine ⟨closers', codeEnd', ?_, fun hnil => hopened (hclosers' hnil)⟩
    rw [scanFrom_of_byte hpiece (by omega) hverdict, hscan, List.length_cons, Nat.add_assoc pos, Nat.add_comm 1]

/-- **A group that is left open ends with its line** where a statement starts on the next one. -/
theorem scanValueUntil_of_unclosed {front inner : List UInt8} {b c : UInt8} (hlex : lex.comments = .slash)
    (h : src.after start = front ++ b :: (inner ++ '\n'.toUInt8 :: rest))
    (hfront : ∀ x ∈ front, isUnbroken x = true ∧ ∀ pos, src.isTerminator lex stops x pos = false)
    (hb : closerOf? b = some c) (hinner : ∀ x ∈ inner, isUnbroken x = true)
    (hl : front.length + 1 + inner.length ≤ limit)
    (hstarts : startsStatement (start + front.length + 1 + inner.length + 1) = true) :
    (src.scanValueUntil lex stops limit startsStatement start).stop =
      .unbalanced (start + front.length + 1 + inner.length) := by
  have hgroup := after_add h
  have hfeed := after_add (after_succ hgroup)
  have hopener : src.pieceAt? lex (start + front.length) = some (.byte b) := by
    obtain ⟨hplain, hslash⟩ := isPlain_of_bracket (Or.inl (by simp [hb] : closerOf? b ≠ none))
    exact pieceAt?_of_isPlain (byte?_of_after hgroup) hplain hslash
  have hline : src.pieceAt? lex (start + front.length + 1 + inner.length) = some (.byte '\n'.toUInt8) :=
    pieceAt?_of_isPlain (byte?_of_after hfeed) (by decide) (by decide)
  obtain ⟨outer, outerEnd, houter, -⟩ := scanFrom_of_unbroken [] start hlex h (fun x hx => (hfront x hx).1)
    (fun _ x hx => (hfront x hx).2) (show start + front.length ≤ start + limit by omega)
  obtain ⟨closers, innerEnd, hrun, hopen⟩ := scanFrom_of_unbroken (c :: outer)
    (if isAsciiBlank b then outerEnd else start + front.length + 1) hlex (after_succ hgroup) hinner (by simp)
    (show start + front.length + 1 + inner.length ≤ start + limit by omega)
  rw [scanValueUntil, houter, scanFrom_of_byte hopener (by omega) (verdict_of_opener hb), hrun]
  cases closers with
  | nil => simp at hopen
  | cons c' closers => rw [scanFrom_of_stop hline (by omega) (verdict_of_statement hstarts)]

/-- The scan of a word ends at the semicolon behind it. -/
theorem scanValueUntil_of_word (hsemicolon : stops.semicolon = true)
    (h : src.after start = code ++ ';'.toUInt8 :: rest) (hne : code ≠ [])
    (hcode : ∀ b ∈ code, isIdentByte b = true)
    (hstop : ∀ b ∈ code, ∀ pos, src.isTerminator lex stops b pos = false) (hl : code.length ≤ limit) :
    src.scanValueUntil lex stops limit startsStatement start =
      ⟨start + code.length, .terminator (start + code.length)⟩ := by
  obtain ⟨codeEnd, hscan, hlast⟩ := scanValueUntil_of_inert h (fun b hb => isInert_of_isIdentByte (hcode b hb))
    hstop (by decide) (by decide) rfl rfl hsemicolon hl
  obtain ⟨b, hb⟩ := Option.ne_none_iff_exists'.mp (mt List.getLast?_eq_none_iff.mp hne)
  have hblank : isAsciiBlank b = false := by
    have hsolid := isSolid_of_isIdentByte (hcode b (List.mem_of_getLast? hb))
    simp only [isSolid, Bool.and_eq_true, Bool.not_eq_true'] at hsolid
    exact hsolid.1.1
  rw [hscan, hlast b hb hblank]

/-- The text of code without breaks is the code. -/
theorem codeTextFrom_of_unbroken {chunk stop : Nat} (hlex : lex.comments = .slash)
    (h : src.after pos = code ++ rest) (hcode : ∀ b ∈ code, isUnbroken b = true) (hchunk : chunk ≤ stop)
    (hstop : stop = pos + code.length) : src.codeTextFrom lex stop chunk pos = src.slice chunk stop := by
  induction code generalizing pos with
  | nil => rw [codeTextFrom, dif_neg (by simp [hstop]), Nat.max_eq_left hchunk]
  | cons b code ih =>
    rw [List.length_cons] at hstop
    have hb := hcode b List.mem_cons_self
    obtain ⟨-, -, -, -, hslash⟩ := isUnbroken_facts hb
    have hbyte := byte?_of_after h
    rw [codeTextFrom_of_byte (by omega) hbyte hslash (enclosedEnd?_of_isUnbroken hlex hbyte hb),
      ih (after_succ h) (fun c hc => hcode c (List.mem_cons_of_mem _ hc)) (by omega)]

end Scan

/-- The trivia in front of code without breaks are some of its bytes. -/
theorem skipTrivia_of_unbroken {front : List UInt8} {b : UInt8} (hlex : lex.comments = .slash)
    (hline : src.atLineStart pos = false) (h : src.after pos = front ++ b :: rest)
    (hfront : ∀ x ∈ front, isUnbroken x = true) (hb : isSolid b = true) :
    ∃ skipped left, front = skipped ++ left ∧ src.skipTrivia lex pos = pos + skipped.length := by
  induction front generalizing pos with
  | nil => exact ⟨[], [], rfl, skipTrivia_of_isSolid (byte?_of_after h) hb⟩
  | cons x front ih =>
    have hx := hfront x List.mem_cons_self
    have hbyte := byte?_of_after h
    cases hblank : isAsciiBlank x with
    | true =>
      obtain ⟨hfeed, -⟩ := isUnbroken_facts hx
      have hline' : src.atLineStart (pos + 1) = false := by
        rw [atLineStart, hbyte]
        simp [hfeed, hline]
      obtain ⟨skipped, left, rfl, hskip⟩ :=
        ih hline' (after_succ h) fun y hy => hfront y (List.mem_cons_of_mem _ hy)
      refine ⟨x :: skipped, left, rfl, ?_⟩
      rw [skipTrivia_blank hbyte hblank, hskip, List.length_cons, Nat.add_assoc, Nat.add_comm 1]
    | false =>
      refine ⟨[], x :: front, rfl, skipTrivia_eq_self ?_⟩
      rw [triviaEnd?, hbyte]
      simp [hblank, commentEnd?_of_isUnbroken hlex hbyte hx, startsDirective, hline]

end Source

namespace Dialect

open Source

variable {d : Dialect} {src : Source} {pos limit : Nat} {rest : List UInt8}

/-! ## Two lines -/

/-- What a declaration of one variable opens with: its type and its name. -/
structure Lead (d : Dialect) where
  type : String
  name : String
  isType : d.IsType type
  ident : Text.isIdent name = true
  free : d.isReserved name = false

/-- The opening of a declaration with a value. -/
def Lead.print (c : Lead d) : String :=
  c.type ++ " " ++ c.name ++ " = "

/-- A declaration whose value opens a group on its line and does not close it there. The value has a plain part
in front of the bracket, and behind it anything that cannot close a group. -/
structure OpenDeclaration (d : Dialect) extends Lead d where
  front : String
  opener : Char
  inner : String
  isFront : ∀ c ∈ front.toList, c ∉ breaks ++ ['(', '[', '\x7b', ';', ',']
  isOpener : opener ∈ ['(', '[', '\x7b']
  isInner : ∀ c ∈ inner.toList, c ∉ breaks

/-- The part of the value that stands on the line. -/
def OpenDeclaration.value (c : OpenDeclaration d) : String :=
  c.front ++ String.ofList [c.opener] ++ c.inner

/-- The line of such a declaration. -/
def OpenDeclaration.print (c : OpenDeclaration d) : String :=
  c.toLead.print ++ c.value ++ "\n"

/-- A declaration of a variable that is a number. -/
structure NumberDeclaration (d : Dialect) extends Lead d where
  value : String
  isNumber : Text.IsNumber value

def NumberDeclaration.print (n : NumberDeclaration d) : String :=
  n.toLead.print ++ n.value ++ ";"

/-- The record of the variable, where the declaration starts at `pos`. -/
def NumberDeclaration.recordAt (src : Source) (pos : Nat) (n : NumberDeclaration d) : Record :=
  ⟨n.name, n.value, .declared n.type, [], Location.atOffset src (pos + (n.type ++ " ").utf8ByteSize)⟩

theorem OpenDeclaration.bytes_print (c : OpenDeclaration d) (rest : List UInt8) :
    Text.bytes c.print ++ rest = Text.bytes c.toLead.print ++ (Text.bytes c.value ++ '\n'.toUInt8 :: rest) := by
  rw [OpenDeclaration.print]
  simp only [Text.bytes_append, List.append_assoc]
  rfl

theorem NumberDeclaration.bytes_print (n : NumberDeclaration d) (rest : List UInt8) :
    Text.bytes n.print ++ rest = Text.bytes n.toLead.print ++ (Text.bytes n.value ++ ';'.toUInt8 :: rest) := by
  rw [NumberDeclaration.print]
  simp only [Text.bytes_append, List.append_assoc]
  rfl

/-! ## The opening of a declaration -/

/-- What is read where a declaration opens: the type, the name behind it and the equals sign. -/
structure LeadAt (src : Source) (limit pos : Nat) (c : Lead d) (rest : List UInt8) (nameEnd equals : Nat) : Prop where
  modifiers : d.skipModifiers? src limit pos = some pos
  head : d.typeHead? src limit pos = some (typeOnly c.type (pos + c.type.utf8ByteSize))
  space : src.byte? (pos + c.type.utf8ByteSize) = some ' '.toUInt8
  name : src.identAt? (pos + c.type.utf8ByteSize + 1) = some (c.name, nameEnd)
  next : src.skipTrivia d.lexicon nameEnd = equals
  lone : src.isLoneEquals equals = true
  value : src.after equals = '='.toUInt8 :: ' '.toUInt8 :: rest
  stop : equals + 2 = pos + c.print.utf8ByteSize

theorem Lead.reads (limit : Nat) (hd : Regular d) (c : Lead d) (h : src.after pos = Text.bytes c.print ++ rest) :
    ∃ nameEnd equals, LeadAt src limit pos c rest nameEnd equals := by
  have hline : src.after pos = Text.bytes c.type ++ ' '.toUInt8 ::
      (Text.bytes c.name ++ ' '.toUInt8 :: '='.toUInt8 :: ' '.toUInt8 :: rest) := by
    rw [h, Lead.print]
    simp only [Text.bytes_append, List.append_assoc]
    rfl
  have hspace := after_add hline
  rw [Text.length_bytes] at hspace
  obtain ⟨hid, hnext, hequals, hafter⟩ := equals_of_name d.lexicon c.ident (after_succ hspace)
  obtain ⟨hident, hmodifier, -⟩ := c.isType.word hd
  refine ⟨_, _, skipModifiers?_of_word hident hmodifier hline, typeHead?_of_type hd c.isType c.free hline hid,
    byte?_of_after hspace, hid, hnext, hequals, hafter, ?_⟩
  have hone : " ".utf8ByteSize = 1 := rfl
  have hthree : " = ".utf8ByteSize = 3 := rfl
  simp only [Lead.print, String.utf8ByteSize_append, hone, hthree]
  omega

theorem Lead.head_print (hd : Regular d) (c : Lead d) :
    ∃ b tail, Text.bytes c.print = b :: tail ∧ isIdentByte b = true := by
  obtain ⟨b, tail, hb, -, hall⟩ := Text.exists_of_isIdent (c.isType.word hd).1
  refine ⟨b, tail ++ Text.bytes (" " ++ c.name ++ " = "), ?_, hall b (by simp [hb])⟩
  simp [Lead.print, hb]

/-- **A declaration with a value is noticed at the start of its line**, whatever the indentation of the statement
that is being read. -/
theorem startsDeclaration_of_lead {indent : Nat} (hd : Regular d) (c : Lead d)
    (h : src.after pos = Text.bytes c.print ++ rest) : d.startsDeclaration src limit indent pos = true := by
  obtain ⟨nameEnd, equals, hat⟩ := c.reads limit hd h
  obtain ⟨b, tail, hb, hident⟩ := c.head_print hd
  have hindent : src.skipInlineSpace pos = pos := by
    refine skipInlineSpace_eq_self ?_
    rw [h, hb, List.cons_append, List.head?_cons, Option.any_some]
    by_contra hspace
    rw [(isPlain_of_isAsciiBlank (isAsciiBlank_of_isInlineSpace (Bool.not_eq_false _ ▸ hspace))).2] at hident
    cases hident
  obtain ⟨hname, b', hb', hident'⟩ := skipTrivia_of_word (d := d) hat.space hat.name
  simp only [startsDeclaration, hindent, Nat.sub_self, Nat.not_lt_zero, ↓reduceIte, hat.modifiers, Option.bind_some,
    hat.head, typeOnly, hname, skipPointerMarks_eq_self d.lexicon hb' hident', ite_self, hat.name, hat.next, hat.lone,
    c.free, Bool.not_false, Bool.true_or, Bool.and_self]

/-- A declaration is read from its equals sign on. -/
theorem matchDeclaration?_of_lead (index : LineIndex) {c : Lead d} {nameEnd equals : Nat}
    (hat : LeadAt src limit pos c rest nameEnd equals) :
    d.matchDeclaration? src index limit pos =
        d.declaratorsFrom? src index limit pos (src.indentation pos) (typeOnly c.type (pos + c.type.utf8ByteSize)) []
          (pos + c.type.utf8ByteSize) ∧
      d.declaratorAt src index limit (src.indentation pos) (typeOnly c.type (pos + c.type.utf8ByteSize))
          (pos + c.type.utf8ByteSize) =
        d.assigned src limit (src.indentation pos) (pos + c.type.utf8ByteSize + 1) equals fun value =>
          ⟨c.name, value, .declared c.type, [], index.location (pos + c.type.utf8ByteSize + 1)⟩ := by
  refine ⟨?_, declaratorAt_of_equals hat.space hat.name c.free hat.next hat.lone⟩
  rw [matchDeclaration?, hat.modifiers]
  dsimp only
  rw [hat.head]
  rfl

/-! ## The line that is given up -/

theorem OpenDeclaration.front_bytes (c : OpenDeclaration d) {b : UInt8} (hb : b ∈ Text.bytes c.front) :
    isUnbroken b = true ∧ endsDeclarator true b = false := by
  have hnot := Text.notMem_of_mem_bytes (by decide) c.isFront hb
  simp only [List.map_append, List.mem_append, not_or] at hnot
  refine ⟨by simpa [isUnbroken] using hnot.1, ?_⟩
  have hmarks := hnot.2
  simp only [List.map_cons, List.map_nil, List.mem_cons, List.not_mem_nil, or_false, not_or] at hmarks
  simp [endsDeclarator, hmarks]

theorem OpenDeclaration.inner_bytes (c : OpenDeclaration d) {b : UInt8} (hb : b ∈ Text.bytes c.inner) :
    isUnbroken b = true := by
  simpa [isUnbroken] using Text.notMem_of_mem_bytes (by decide) c.isInner hb

theorem OpenDeclaration.opener_byte (c : OpenDeclaration d) : c.opener.utf8Size = 1 ∧
    (∃ closer, closerOf? c.opener.toUInt8 = some closer) ∧ isSolid c.opener.toUInt8 = true := by
  have hopener := c.isOpener
  simp only [List.mem_cons, List.not_mem_nil, or_false] at hopener
  rcases hopener with h | h | h <;> rw [h] <;> exact ⟨by decide, ⟨_, rfl⟩, by decide⟩

theorem OpenDeclaration.bytes_value (c : OpenDeclaration d) :
    Text.bytes c.value = Text.bytes c.front ++ c.opener.toUInt8 :: Text.bytes c.inner := by
  rw [value, Text.bytes_append, Text.bytes_append, Text.bytes_singleton c.opener_byte.1, List.append_assoc]
  rfl

/-- **A value that leaves a group open is given up at the end of its line**, if a declaration follows. -/
theorem assigned_of_open {indent namePos : Nat} {recordOf : String → Record} (hlex : d.lexicon.comments = .slash)
    (c : OpenDeclaration d) (hl : c.value.utf8ByteSize ≤ limit)
    (h : src.after pos = '='.toUInt8 :: ' '.toUInt8 :: (Text.bytes c.value ++ '\n'.toUInt8 :: rest))
    (hstarts : d.startsDeclaration src limit indent (pos + 2 + c.value.utf8ByteSize + 1) = true) :
    d.assigned src limit indent namePos pos recordOf = .abandoned (pos + 2 + c.value.utf8ByteSize) := by
  obtain ⟨-, ⟨closer, hcloser⟩, hsolid⟩ := c.opener_byte
  have hspace := after_succ h
  have hvalue : src.after (pos + 2) =
      Text.bytes c.front ++ c.opener.toUInt8 :: (Text.bytes c.inner ++ '\n'.toUInt8 :: rest) := by
    rw [after_succ hspace, c.bytes_value, List.append_assoc]
    rfl
  -- blanks in front of the value are not scanned with it
  obtain ⟨skipped, left, hfront, hskip⟩ := skipTrivia_of_unbroken hlex (atLineStart_of_equals h) hvalue
    (fun b hb => (c.front_bytes hb).1) hsolid
  have hstart : src.skipTrivia d.lexicon (pos + 1) = pos + 2 + skipped.length := by
    rw [skipTrivia_blank (byte?_of_after hspace) rfl]
    exact hskip
  have hleft : src.after (pos + 2 + skipped.length) =
      left ++ c.opener.toUInt8 :: (Text.bytes c.inner ++ '\n'.toUInt8 :: rest) :=
    after_add (hvalue.trans (by rw [hfront, List.append_assoc]))
  have hlength : c.value.utf8ByteSize = skipped.length + left.length + (1 + (Text.bytes c.inner).length) := by
    rw [← Text.length_bytes, c.bytes_value, hfront, List.length_append, List.length_append, List.length_cons,
      Nat.add_comm 1]
  have hfeed : pos + 2 + c.value.utf8ByteSize =
      pos + 2 + skipped.length + left.length + 1 + (Text.bytes c.inner).length := by omega
  rw [hfeed] at hstarts ⊢
  have hplain : ∀ b ∈ left, isUnbroken b = true ∧
      ∀ pos, src.isTerminator d.lexicon valueStops b pos = false := by
    intro b hb
    obtain ⟨hunbroken, hends⟩ := c.front_bytes (hfront ▸ List.mem_append_right _ hb)
    exact ⟨hunbroken, fun pos => isTerminator_eq_false src d.lexicon b pos hends (isUnbroken_facts hunbroken).1⟩
  have hscan := scanValueUntil_of_unclosed hlex hleft hplain hcloser (fun b hb => c.inner_bytes hb)
    (show left.length + 1 + (Text.bytes c.inner).length ≤ limit by omega) hstarts
  simp only [assigned, hstart, hscan]

/-- **A declaration that leaves a group open is dropped with its line**, if a declaration follows. -/
theorem matchDeclaration?_of_open (index : LineIndex) (hd : Regular d) (hlex : d.lexicon.comments = .slash)
    (c : OpenDeclaration d) (n : Lead d) (hl : c.value.utf8ByteSize ≤ limit)
    (h : src.after pos = Text.bytes c.print ++ (Text.bytes n.print ++ rest)) :
    ∃ feed, feed + 1 = pos + c.print.utf8ByteSize ∧ src.byte? feed = some '\n'.toUInt8 ∧
      d.matchDeclaration? src index limit pos = some ⟨[], feed⟩ := by
  have hnext := after_add h
  rw [Text.length_bytes] at hnext
  obtain ⟨nameEnd, equals, hat⟩ := c.reads limit hd (h.trans (c.bytes_print _))
  have hfeed : equals + 2 + c.value.utf8ByteSize + 1 = pos + c.print.utf8ByteSize := by
    have hone : "\n".utf8ByteSize = 1 := rfl
    rw [OpenDeclaration.print, String.utf8ByteSize_append, String.utf8ByteSize_append, hone]
    have := hat.stop
    omega
  obtain ⟨hmatch, hdeclarator⟩ := matchDeclaration?_of_lead index hat
  refine ⟨equals + 2 + c.value.utf8ByteSize, hfeed, ?_, ?_⟩
  · have hvalue := after_add (after_succ (after_succ hat.value))
    rw [Text.length_bytes] at hvalue
    exact byte?_of_after hvalue
  · rw [hmatch, declaratorsFrom?_eq_match, hdeclarator, assigned_of_open hlex c hl hat.value]
    rw [hfeed]
    exact startsDeclaration_of_lead hd n hnext

/-! ## The line that is found -/

theorem isTerminator_of_isIdentByte (src : Source) (lex : Lexicon) {b : UInt8} (pos : Nat)
    (hb : isIdentByte b = true) : src.isTerminator lex valueStops b pos = false := by
  refine isTerminator_eq_false src lex b pos ?_ (isUnbroken_facts (isUnbroken_of_isIdentByte hb)).1
  by_contra hends
  simp only [endsDeclarator, Bool.true_and, Bool.not_eq_false, Bool.or_eq_true, beq_iff_eq] at hends
  rcases hends with rfl | rfl <;> exact absurd hb (by decide)

/-- A number that ends with a semicolon is the value that is read. -/
theorem assigned_of_number {v : String} {indent namePos : Nat} {recordOf : String → Record}
    (hlex : d.lexicon.comments = .slash) (hv : Text.IsNumber v) (hl : v.utf8ByteSize ≤ limit)
    (h : src.after pos = '='.toUInt8 :: ' '.toUInt8 :: (Text.bytes v ++ ';'.toUInt8 :: rest)) :
    d.assigned src limit indent namePos pos recordOf = .found (recordOf v) (pos + 2 + v.utf8ByteSize) := by
  have hspace := after_succ h
  have hvalue : src.after (pos + 2) = Text.bytes v ++ ';'.toUInt8 :: rest := after_succ hspace
  have hmark := after_add hvalue
  rw [Text.length_bytes] at hmark
  have hword : ∀ b ∈ Text.bytes v, isIdentByte b = true := fun b hb => hv.isIdentByte hb
  obtain ⟨b, tail, hb⟩ := List.exists_cons_of_ne_nil (mt Text.bytes_eq_nil.mp hv.1)
  have hstart : src.skipTrivia d.lexicon (pos + 1) = pos + 2 := by
    rw [hb, List.cons_append] at hspace
    exact skipTrivia_space hspace (isSolid_of_isIdentByte (hword b (by simp [hb])))
  have hstop : ∀ b ∈ Text.bytes v, ∀ pos, src.isTerminator d.lexicon valueStops b pos = false :=
    fun b hb pos => isTerminator_of_isIdentByte src d.lexicon pos (hword b hb)
  have hscan : src.scanValueUntil d.lexicon valueStops limit (d.startsDeclaration src limit indent) (pos + 2) =
      ⟨pos + 2 + v.utf8ByteSize, .terminator (pos + 2 + v.utf8ByteSize)⟩ := by
    rw [← Text.length_bytes] at hl ⊢
    exact scanValueUntil_of_word rfl hvalue (mt Text.bytes_eq_nil.mp hv.1) hword hstop hl
  have htext : src.codeText d.lexicon (pos + 2) (pos + 2 + v.utf8ByteSize) = v := by
    have hle := byte?_eq_some_lt (byte?_of_after hmark)
    rw [codeText, codeTextFrom_of_unbroken hlex hvalue (fun b hb => isUnbroken_of_isIdentByte (hword b hb))
      (Nat.le_add_right _ _) (by rw [Text.length_bytes]), slice_of_after hvalue (by omega)]
  have hne : v.isEmpty = false := by simpa using hv.1
  simp only [assigned, hstart, hscan, htext, hv.collapse_eq, hne]
  rfl

/-- **A declaration of a number is found**, with nothing asked of what comes behind its semicolon. -/
theorem matchDeclaration?_of_number (hd : Regular d) (hlex : d.lexicon.comments = .slash) (n : NumberDeclaration d)
    (hl : n.value.utf8ByteSize ≤ limit) (h : src.after pos = Text.bytes n.print ++ rest) :
    d.matchDeclaration? src (.ofSource src) limit pos =
      some ⟨[n.recordAt src pos], pos + n.print.utf8ByteSize⟩ := by
  obtain ⟨nameEnd, equals, hat⟩ := n.reads limit hd (h.trans (n.bytes_print rest))
  obtain ⟨hmatch, hdeclarator⟩ := matchDeclaration?_of_lead (.ofSource src) hat
  have hmark := after_add (after_succ (after_succ hat.value))
  rw [Text.length_bytes] at hmark
  have hbyte : src.byte? (equals + 2 + n.value.utf8ByteSize) = some ';'.toUInt8 := byte?_of_after hmark
  have hplace : pos + n.type.utf8ByteSize + 1 = pos + (n.type ++ " ").utf8ByteSize := by
    rw [String.utf8ByteSize_append, ← Nat.add_assoc]
    rfl
  have hnext : equals + 2 + n.value.utf8ByteSize + 1 = pos + n.print.utf8ByteSize := by
    have hone : ";".utf8ByteSize = 1 := rfl
    have := hat.stop
    rw [NumberDeclaration.print, String.utf8ByteSize_append, String.utf8ByteSize_append, hone]
    omega
  have hle : pos + n.type.utf8ByteSize + 1 ≤ src.size := byte?_eq_some_lt hat.space
  rw [assigned_of_number hlex n.isNumber hl hat.value] at hdeclarator
  rw [hmatch, declaratorsFrom?_of_found [] hdeclarator, hbyte, if_pos (beq_self_eq_true _), hnext,
    LineIndex.location_ofSource hle, hplace]
  rfl

/-! ## Both lines -/

/-- The search takes up a declaration where it stands. -/
theorem Lead.skipTrivia_eq_self (hd : Regular d) (c : Lead d) (h : src.after pos = Text.bytes c.print ++ rest) :
    src.skipTrivia d.lexicon pos = pos ∧ pos < src.size := by
  obtain ⟨b, tail, hb, hident⟩ := c.head_print hd
  have hbyte : src.byte? pos = some b := byte?_of_after (h.trans (by rw [hb, List.cons_append]))
  exact ⟨skipTrivia_of_isSolid hbyte (isSolid_of_isIdentByte hident), byte?_eq_some_lt hbyte⟩

/-- **The search recovers with the next line.** The first line gives no record, and the second one is found. -/
theorem recordsFrom_of_open (hd : Regular d) (hlex : d.lexicon.comments = .slash) (c : OpenDeclaration d)
    (n : NumberDeclaration d) (hvalue : c.value.utf8ByteSize ≤ limit) (hnumber : n.value.utf8ByteSize ≤ limit)
    (h : src.after 0 = Text.bytes c.print ++ (Text.bytes n.print ++ rest)) :
    d.recordsFrom src (.ofSource src) limit 0 =
      n.recordAt src c.print.utf8ByteSize ::
        d.recordsFrom src (.ofSource src) limit (c.print.utf8ByteSize + n.print.utf8ByteSize) := by
  have hnext := after_add h
  rw [Text.length_bytes, Nat.zero_add] at hnext
  obtain ⟨hstart, hlt⟩ := c.skipTrivia_eq_self hd (h.trans (c.bytes_print _))
  obtain ⟨hstart', hlt'⟩ := n.skipTrivia_eq_self hd (hnext.trans (n.bytes_print rest))
  obtain ⟨feed, hfeed, hbyte, hopen⟩ :=
    matchDeclaration?_of_open (.ofSource src) hd hlex c n.toLead hvalue (h.trans (by rw [n.bytes_print]))
  rw [Nat.zero_add] at hfeed
  have htrivia : src.skipTrivia d.lexicon feed = c.print.utf8ByteSize := by
    rw [skipTrivia_blank hbyte rfl, hfeed, hstart']
  rw [recordsFrom_of_match hstart hlt hopen, List.nil_append,
    recordsFrom_of_match htrivia hlt' (matchDeclaration?_of_number hd hlex n hnumber hnext)]
  rfl

/-- The records behind both lines stand behind the second one. -/
theorem exists_records_of_open (hsep : d.separatorBytes.all isPlain = true) (hd : Regular d)
    (hlex : d.lexicon.comments = .slash) (c : OpenDeclaration d) (n : NumberDeclaration d)
    (hvalue : c.value.utf8ByteSize ≤ limit) (hnumber : n.value.utf8ByteSize ≤ limit)
    (h : src.after 0 = Text.bytes c.print ++ (Text.bytes n.print ++ rest)) :
    ∃ more, Record.sortByPlace (d.recordsFrom src (.ofSource src) limit 0) =
        n.recordAt src c.print.utf8ByteSize :: more ∧
      ∀ r ∈ n.recordAt src c.print.utf8ByteSize :: more, r.declaredAt.offset ≠ (c.type ++ " ").utf8ByteSize := by
  obtain ⟨_, hfinds⟩ := finds_recordsFrom hsep src (.ofSource src) limit 0
  obtain ⟨_, hbehind⟩ :=
    finds_recordsFrom hsep src (.ofSource src) limit (c.print.utf8ByteSize + n.print.utf8ByteSize)
  refine ⟨_, (Record.sortByPlace_of_ordered hfinds.ordered).trans (recordsFrom_of_open hd hlex c n hvalue hnumber h),
    fun r hr => ?_⟩
  have hname : (c.type ++ " ").utf8ByteSize < c.print.utf8ByteSize := by
    have hone : "\n".utf8ByteSize = 1 := rfl
    simp only [OpenDeclaration.print, Lead.print, String.utf8ByteSize_append, hone]
    omega
  have hsize : c.print.utf8ByteSize ≤ src.size := by
    have hne : Text.bytes c.print ≠ [] := by
      rw [← List.length_pos_iff, Text.length_bytes]
      omega
    simpa using add_length_le_size h hne
  rcases List.mem_cons.mp hr with rfl | hr
  · -- the name stands on the second line
    simp only [NumberDeclaration.recordAt, Location.atOffset]
    omega
  · have := (hbehind.between r hr).1
    omega

end Dialect

open Dialect

/-- **An unclosed bracket does not swallow the next declaration.** In Java and C++, whatever a value opens and
leaves open on its line, a declaration of a number on the next line is found: it is the first record, at the place
of its name, and no record stands where the name of the broken declaration does. Nothing is asked of the text that
follows. -/
theorem extract_unclosedGroup {d : Dialect} (hd : d = .java ∨ d = .cpp) (c : OpenDeclaration d)
    (n : NumberDeclaration d) (rest : String) (tree : Option Tree) {limit : Nat}
    (hvalue : c.value.utf8ByteSize ≤ limit) (hnumber : n.value.utf8ByteSize ≤ limit) :
    ∃ more, d.language.extract limit ⟨c.print ++ n.print ++ rest, tree⟩ =
        .ok (n.recordAt (.ofString (c.print ++ n.print ++ rest)) c.print.utf8ByteSize :: more) ∧
      ∀ r ∈ n.recordAt (.ofString (c.print ++ n.print ++ rest)) c.print.utf8ByteSize :: more,
        r.declaredAt.offset ≠ (c.type ++ " ").utf8ByteSize := by
  have hafter : (Source.ofString (c.print ++ n.print ++ rest)).after 0 =
      Text.bytes c.print ++ (Text.bytes n.print ++ Text.bytes rest) := by
    rw [Source.after_ofString, Text.bytes_append, Text.bytes_append, List.append_assoc]
  rcases hd with rfl | rfl
  · obtain ⟨more, hrecords, hplaces⟩ :=
      exists_records_of_open isPlain_separator_java regular_java rfl c n hvalue hnumber hafter
    exact ⟨more, congrArg Except.ok hrecords, hplaces⟩
  · obtain ⟨more, hrecords, hplaces⟩ :=
      exists_records_of_open isPlain_separator_cpp regular_cpp rfl c n hvalue hnumber hafter
    exact ⟨more, congrArg Except.ok hrecords, hplaces⟩

/-- A call that nobody closes, and calls in it. -/
def openCall : OpenDeclaration .java where
  type := "List"
  name := "items"
  isType := Or.inr (by decide)
  ident := by decide
  free := by decide
  front := " base + of"
  opener := '('
  inner := "1, g(2; [3"
  isFront := List.all_iff_forall_prop.mp (by decide)
  isOpener := by decide
  isInner := List.all_iff_forall_prop.mp (by decide)

/-- A count on a line of its own. -/
def plainCount : NumberDeclaration .java where
  type := "int"
  name := "count"
  isType := Or.inl (by decide)
  ident := by decide
  free := by decide
  value := "42"
  isNumber := ⟨by decide, List.all_iff_forall_prop.mp (by decide)⟩

theorem extract_unclosedGroup_openCall :
    (openCall.print = "List items =  base + of(1, g(2; [3\n" ∧ plainCount.print = "int count = 42;") ∧
      ∃ more, Dialect.java.language.extract 32 ⟨openCall.print ++ plainCount.print ++ ")]) \"", none⟩ =
          .ok (plainCount.recordAt (.ofString (openCall.print ++ plainCount.print ++ ")]) \"")) 35 :: more) ∧
        ∀ r ∈ plainCount.recordAt (.ofString (openCall.print ++ plainCount.print ++ ")]) \"")) 35 :: more,
          r.declaredAt.offset ≠ 5 :=
  ⟨by decide, extract_unclosedGroup (Or.inl rfl) openCall plainCount ")]) \"" none (by decide) (by decide)⟩

end VarCensus
