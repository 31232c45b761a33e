import Mathlib.Data.Bool.AllAny
import VarCensus.Proofs.Collapse
import VarCensus.Proofs.Standing
import VarCensus.Source.Piece

/-!
# Values as they are written

The text of a value, as somebody who writes one sees it: code in which every bracket is closed by its own
counterpart and every literal is terminated. `Code` says so without any search, reading the text once from left
to right with the brackets that are still open. What a quote opens depends on the byte before it and on what
comes behind it, so both are part of the description: a raw literal is announced by a letter, a quote between
digits may open nothing, and three quotes open another literal than one.

A value does not stand alone. `Fence` is what comes behind it, and the lemmas on fences say that it never
changes how the value is read.
-/

namespace VarCensus

/-- A byte that opens and closes literals. -/
def isQuote (b : UInt8) : Bool :=
  b == '"'.toUInt8 || b == '\''.toUInt8

theorem isQuote_cases {b : UInt8} (h : isQuote b = true) : b = '"'.toUInt8 ∨ b = '\''.toUInt8 := by
  simpa [isQuote] using h

namespace Written

/-! ## Literals -/

/-- The rest of a literal behind its opening quote: bytes and escaped bytes up to the next such quote, which
is its end. -/
inductive QuotedTail (quote : UInt8) : List UInt8 → Prop
  | close : QuotedTail quote [quote]
  | escape (b : UInt8) {tail : List UInt8} : QuotedTail quote tail → QuotedTail quote ('\\'.toUInt8 :: b :: tail)
  | plain {b : UInt8} {tail : List UInt8} : b ≠ '\\'.toUInt8 → b ≠ '\n'.toUInt8 → b ≠ quote →
      QuotedTail quote tail → QuotedTail quote (b :: tail)

/-- The rest of a literal behind three opening quotes, up to the next three of them. -/
inductive TripleTail (quote : UInt8) : List UInt8 → Prop
  | close : TripleTail quote [quote, quote, quote]
  | escape (b : UInt8) {tail : List UInt8} : TripleTail quote tail → TripleTail quote ('\\'.toUInt8 :: b :: tail)
  | plain {b : UInt8} {tail : List UInt8} : b ≠ '\\'.toUInt8 → ¬ [quote, quote, quote] <+: b :: tail →
      TripleTail quote tail → TripleTail quote (b :: tail)

/-- The mark between the quote and the parenthesis of a raw literal. -/
structure IsRawMark (mark : String) : Prop where
  short : mark.utf8ByteSize ≤ 16
  plain : ∀ c ∈ mark.toList, Text.isBlank c = false ∧ c ≠ '\\' ∧ c ≠ ')' ∧ c ≠ '('

/-- A raw literal opens with the quote in front of a text. -/
def OpensRaw (behind : List UInt8) : Prop :=
  ∃ mark tail, IsRawMark mark ∧ behind = Text.bytes mark ++ '('.toUInt8 :: tail

/-- What closes a raw literal. -/
def rawCloser (mark : String) : List UInt8 :=
  ')'.toUInt8 :: Text.bytes mark ++ ['"'.toUInt8]

/-- A quote between the byte `prev` and the text `behind` opens a literal that is not raw: it separates no
digits, and it is not announced as the quote of a raw literal. -/
structure OpensOrdinary (lex : Lexicon) (prev quote : UInt8) (behind : List UInt8) : Prop where
  quotes : isQuote quote = true
  separates : quote = '\''.toUInt8 → lex.digitSeparators = true → isHexDigit prev = false
  announced : quote = '"'.toUInt8 → lex.rawStrings = true → prev = 'R'.toUInt8 → ¬ OpensRaw behind

/-- A literal, whole and terminated, between the byte `prev` and a rest. -/
inductive Literal (lex : Lexicon) (prev : UInt8) : List UInt8 → List UInt8 → Prop
  | quoted {quote : UInt8} {tail rest : List UInt8} : OpensOrdinary lex prev quote (tail ++ rest) →
      (lex.tripleQuotes = true → ¬ [quote, quote] <+: tail ++ rest) → QuotedTail quote tail →
      Literal lex prev (quote :: tail) rest
  | triple {quote : UInt8} {tail rest : List UInt8} :
      OpensOrdinary lex prev quote (quote :: quote :: tail ++ rest) → lex.tripleQuotes = true →
      TripleTail quote tail → Literal lex prev (quote :: quote :: quote :: tail) rest
  | raw {mark : String} {body rest : List UInt8} : lex.rawStrings = true → prev = 'R'.toUInt8 → IsRawMark mark →
      (∀ i < body.length, ¬ rawCloser mark <+: (body ++ rawCloser mark).drop i) →
      Literal lex prev ('"'.toUInt8 :: Text.bytes mark ++ '('.toUInt8 :: body ++ rawCloser mark) rest

/-! ## Code -/

/-- Whether a text opens with a comment. -/
def opensComment (lex : Lexicon) (text : List UInt8) : Bool :=
  match lex.comments with
  | .hash => ['#'.toUInt8].isPrefixOf text
  | .slash => ['/'.toUInt8, '/'.toUInt8].isPrefixOf text || ['/'.toUInt8, '*'.toUInt8].isPrefixOf text

/-- Code behind the byte `prev`, in which the brackets still open want the given closers, the innermost first.
Outside its literals there is no comment and no backslash, and no byte that is barred where it stands: `barred`
is told whether that is outside all brackets. -/
inductive Code (lex : Lexicon) (barred : Bool → UInt8 → Bool) : List UInt8 → UInt8 → List UInt8 → Prop
  | done {prev : UInt8} : Code lex barred [] prev []
  | byte {closers : List UInt8} {prev b : UInt8} {rest : List UInt8} :
      closerOf? b = none → isCloser b = false → barred closers.isEmpty b = false → b ≠ '\\'.toUInt8 →
      (isQuote b = true → b = '\''.toUInt8 ∧ lex.digitSeparators = true ∧ isHexDigit prev = true) →
      opensComment lex (b :: rest) = false → Code lex barred closers b rest →
      Code lex barred closers prev (b :: rest)
  | opener {closers : List UInt8} {prev b c : UInt8} {rest : List UInt8} : closerOf? b = some c →
      Code lex barred (c :: closers) b rest → Code lex barred closers prev (b :: rest)
  | closer {closers : List UInt8} {prev c : UInt8} {rest : List UInt8} : isCloser c = true →
      Code lex barred closers c rest → Code lex barred (c :: closers) prev (c :: rest)
  | literal {closers : List UInt8} {prev : UInt8} {text rest : List UInt8} : Literal lex prev text rest →
      Code lex barred closers (text.getLastD prev) rest → Code lex barred closers prev (text ++ rest)

/-! ## Fences -/

/-- What may stand behind a value: a blank, also one behind a semicolon or a comma, or one of these marks as the
last byte of all. -/
inductive Fence : List UInt8 → Prop
  | blank {b : UInt8} {rest : List UInt8} : isAsciiBlank b = true → Fence (b :: rest)
  | last {m : UInt8} : m = ';'.toUInt8 ∨ m = ','.toUInt8 → Fence [m]
  | mark {m b : UInt8} {rest : List UInt8} : m = ';'.toUInt8 ∨ m = ','.toUInt8 → isAsciiBlank b = true →
      Fence (m :: b :: rest)

variable {lex : Lexicon} {prev : UInt8} {beyond : List UInt8}

/-- The bytes that a fence may start with. -/
def fenceBytes : List UInt8 :=
  [0x09, 0x0A, 0x0C, 0x0D, 0x20, ';'.toUInt8, ','.toUInt8]

theorem mem_fenceBytes_of_isAsciiBlank {b : UInt8} (h : isAsciiBlank b = true) : b ∈ fenceBytes := by
  simp only [isAsciiBlank, Bool.or_eq_true, beq_iff_eq] at h
  rcases h with (((rfl | rfl) | rfl) | rfl) | rfl <;> decide

theorem Fence.exists_head (h : Fence beyond) : ∃ b rest, beyond = b :: rest ∧ b ∈ fenceBytes := by
  cases h with
  | blank hb => exact ⟨_, _, rfl, mem_fenceBytes_of_isAsciiBlank hb⟩
  | last hm => rcases hm with rfl | rfl <;> exact ⟨_, _, rfl, by decide⟩
  | mark hm hb => rcases hm with rfl | rfl <;> exact ⟨_, _, rfl, by decide⟩

theorem isPlain_of_mem_fenceBytes : ∀ b ∈ fenceBytes, isPlain b = true :=
  List.all_eq_true.mp (by decide)

theorem isPlain_of_isQuote {b : UInt8} (h : isQuote b = true) : isPlain b = false := by
  rcases isQuote_cases h with rfl | rfl <;> decide

/-- Two quotes that stand partly behind the fence do not follow each other. -/
theorem Fence.quotes (h : Fence beyond) {quote : UInt8} (hq : isQuote quote = true) {text : List UInt8}
    (hne : text ≠ []) (hpre : [quote, quote] <+: text ++ beyond) : [quote, quote] <+: text := by
  obtain ⟨b, rest, rfl, hb⟩ := h.exists_head
  have hplain := isPlain_of_mem_fenceBytes b hb
  match text with
  | [] => exact absurd rfl hne
  | [c] =>
    simp only [List.cons_append, List.nil_append, List.cons_prefix_cons] at hpre
    rw [← hpre.2.1, isPlain_of_isQuote hq] at hplain
    cases hplain
  | c :: d :: text => simpa [List.cons_prefix_cons] using hpre

/-- The mark of a raw literal does not reach across a fence. -/
theorem Fence.opensRaw (h : Fence beyond) {text : List UInt8} (hraw : OpensRaw (text ++ beyond)) :
    OpensRaw text := by
  obtain ⟨mark, tail, hmark, heq⟩ := hraw
  have hblank {b : UInt8} (hb : isAsciiBlank b = true) (hmem : b ∈ Text.bytes mark) : False := by
    obtain ⟨c, hc, hcblank⟩ := Text.exists_isBlank_of_mem_bytes hb hmem
    rw [(hmark.plain c hc).1] at hcblank
    cases hcblank
  rcases List.append_eq_append_iff.mp heq with ⟨rest, hbytes, hbeyond⟩ | ⟨rest, htext, hparen⟩
  · -- the parenthesis stands behind the fence, so a blank of the fence would belong to the mark
    exfalso
    have hmem {b : UInt8} (hb : b ∈ rest) : b ∈ Text.bytes mark := by
      rw [hbytes]
      exact List.mem_append_right _ hb
    cases h with
    | blank hb =>
      cases rest with
      | nil =>
        rw [List.nil_append] at hbeyond
        cases hbeyond
        exact absurd hb (by decide)
      | cons c rest =>
        cases hbeyond
        exact hblank hb (hmem List.mem_cons_self)
    | last hm =>
      cases rest with
      | nil =>
        rw [List.nil_append] at hbeyond
        cases hbeyond
        rcases hm with hm | hm <;> exact absurd hm (by decide)
      | cons c rest =>
        have hlength := congrArg List.length hbeyond
        simp at hlength
    | mark hm hb =>
      match rest with
      | [] =>
        rw [List.nil_append] at hbeyond
        cases hbeyond
        rcases hm with hm | hm <;> exact absurd hm (by decide)
      | [c] =>
        cases hbeyond
        exact absurd hb (by decide)
      | c :: d :: rest =>
        cases hbeyond
        exact hblank hb (hmem (by simp))
  · cases rest with
    | nil =>
      obtain ⟨b, more, rfl, hb⟩ := h.exists_head
      rw [List.nil_append] at hparen
      cases hparen
      exact absurd hb (by decide)
    | cons c rest =>
      cases hparen
      exact ⟨mark, rest, hmark, htext⟩

theorem OpensOrdinary.extend {quote : UInt8} {behind : List UInt8} (h : OpensOrdinary lex prev quote behind)
    (hf : Fence beyond) : OpensOrdinary lex prev quote (behind ++ beyond) :=
  ⟨h.quotes, h.separates, fun hq hr hp hraw => h.announced hq hr hp (hf.opensRaw hraw)⟩

theorem QuotedTail.ne_nil {quote : UInt8} {tail : List UInt8} (h : QuotedTail quote tail) : tail ≠ [] := by
  cases h <;> simp

theorem Literal.exists_quote {literal rest : List UInt8} (h : Literal lex prev literal rest) :
    ∃ quote tail, literal = quote :: tail ∧ isQuote quote = true := by
  cases h with
  | quoted hopens => exact ⟨_, _, rfl, hopens.quotes⟩
  | triple hopens => exact ⟨_, _, rfl, hopens.quotes⟩
  | raw => exact ⟨_, _, rfl, rfl⟩

theorem Literal.ne_nil {literal rest : List UInt8} (h : Literal lex prev literal rest) : literal ≠ [] := by
  obtain ⟨_, _, rfl, -⟩ := h.exists_quote
  simp

/-- **A fence changes no literal.** -/
theorem Literal.extend {text rest : List UInt8} (h : Literal lex prev text rest) (hf : Fence beyond) :
    Literal lex prev text (rest ++ beyond) := by
  cases h with
  | quoted hopens htriple htail =>
    refine .quoted ?_ (fun ht hpre => htriple ht ?_) htail
    · rw [← List.append_assoc]
      exact hopens.extend hf
    · rw [← List.append_assoc] at hpre
      exact hf.quotes hopens.quotes (by simp [htail.ne_nil]) hpre
  | triple hopens htriple htail =>
    refine .triple ?_ htriple htail
    rw [← List.append_assoc]
    exact hopens.extend hf
  | raw hlex hprev hmark hfirst => exact .raw hlex hprev hmark hfirst

theorem opensComment_cons {b : UInt8} {rest : List UInt8} (hhash : b ≠ '#'.toUInt8) (hslash : b ≠ '/'.toUInt8) :
    opensComment lex (b :: rest) = false := by
  unfold opensComment
  split <;> simp [List.isPrefixOf, hhash.symm, hslash.symm]

theorem opensComment_of_isPlain {b : UInt8} {rest : List UInt8} (h : isPlain b = true) :
    opensComment lex (b :: rest) = false := by
  simp only [isPlain, Bool.and_eq_true, bne_iff_ne] at h
  exact opensComment_cons h.1.1.1 h.1.1.2

theorem opensComment_of_isQuote {b : UInt8} {rest : List UInt8} (h : isQuote b = true) :
    opensComment lex (b :: rest) = false := by
  rcases isQuote_cases h with rfl | rfl <;> exact opensComment_cons (by decide) (by decide)

theorem opensComment_extend {b : UInt8} {rest : List UInt8} (h : opensComment lex (b :: rest) = false)
    (hf : Fence beyond) : opensComment lex (b :: rest ++ beyond) = false := by
  obtain ⟨c, more, rfl, hc⟩ := hf.exists_head
  have hslash : c ≠ '/'.toUInt8 := by
    rintro rfl
    exact absurd hc (by decide)
  have hstar : c ≠ '*'.toUInt8 := by
    rintro rfl
    exact absurd hc (by decide)
  unfold opensComment at h ⊢
  split at h
  · simpa [List.isPrefixOf] using h
  · cases rest with
    | nil => simp [List.isPrefixOf, hslash.symm, hstar.symm]
    | cons d rest => simpa [List.isPrefixOf] using h

/-! ## Values -/

/-- A value: a text that is not empty, in the form that collapsing leaves as it is, and whose bytes are code
when a space comes before them. -/
structure IsValue (lex : Lexicon) (barred : Bool → UInt8 → Bool) (v : String) : Prop where
  ne_empty : v ≠ ""
  collapsed : Text.collapse v = v
  code : Code lex barred [] ' '.toUInt8 (Text.bytes v)

namespace IsValue

variable {barred : Bool → UInt8 → Bool} {v : String}

theorem bytes_ne_nil (h : IsValue lex barred v) : Text.bytes v ≠ [] :=
  mt Text.bytes_eq_nil.mp h.ne_empty

theorem notMem_feed (h : IsValue lex barred v) : '\n'.toUInt8 ∉ Text.bytes v := by
  intro hmem
  have hc := Text.mem_toList_of_mem_bytes (by decide) (by decide) hmem
  exact absurd ((Text.isCollapsed_of_collapse h.collapsed).spaces '\n' hc rfl) (by decide)

theorem head_not_blank (h : IsValue lex barred v) {b : UInt8} (hb : (Text.bytes v).head? = some b) :
    isAsciiBlank b = false := by
  by_contra hblank
  obtain ⟨c, hsize, hascii, hc, rfl⟩ := Text.exists_char_of_isAsciiBlank (Bool.not_eq_false _ ▸ hblank)
  rw [← Source.after_ofString, Source.head?_after] at hb
  rw [(Text.isCollapsed_of_collapse h.collapsed).head c (Source.head?_of_byte? hsize hascii hb)] at hc
  cases hc

theorem exists_head (h : IsValue lex barred v) :
    ∃ b tail, Text.bytes v = b :: tail ∧ isAsciiBlank b = false ∧ isInlineSpace b = false := by
  obtain ⟨b, tail, hb⟩ := List.exists_cons_of_ne_nil h.bytes_ne_nil
  have hblank : isAsciiBlank b = false := h.head_not_blank (by rw [hb]; rfl)
  refine ⟨b, tail, hb, hblank, ?_⟩
  by_contra hspace
  rw [isAsciiBlank_of_isInlineSpace (Bool.not_eq_false _ ▸ hspace)] at hblank
  cases hblank

theorem last_not_blank (h : IsValue lex barred v) {b : UInt8} (hb : (Text.bytes v).getLast? = some b) :
    isAsciiBlank b = false := by
  by_contra hblank
  obtain ⟨c, hsize, hascii, hc, rfl⟩ := Text.exists_char_of_isAsciiBlank (Bool.not_eq_false _ ▸ hblank)
  have hbyte : (Source.ofString v).byte? (v.utf8ByteSize - 1) = some c.toUInt8 := by
    rw [List.getLast?_eq_getElem?, Text.length_bytes] at hb
    simpa [Source.byte?, Source.ofString, Text.bytes] using hb
  rw [(Text.isCollapsed_of_collapse h.collapsed).last c (Source.getLast?_of_byte? hsize hascii hbyte)] at hc
  cases hc

end IsValue
end Written
end VarCensus
