import VarCensus.Proofs.WrittenValues
import VarCensus.Source.CodeText

/-!
# Values are read as they are written

The scans that look for the end of a value, and the one that reads its text, step over whole literals and take
everything else byte by byte. Here they are run over a value as `Code` describes it, with a fence behind it.
Every step of `Code` is one step of the scans: a literal is stepped over to its end, and a byte that is no part
of a literal opens nothing. Both scans follow by induction on `Code`.
-/

namespace VarCensus
namespace Source

open Written

variable {lex : Lexicon} {src : Source} {pos : Nat} {prev : UInt8} {rest beyond : List UInt8}

/-! ## Literals -/

theorem quotedEnd_cons {quote b : UInt8} (h : src.after pos = b :: rest) :
    src.quotedEnd quote pos =
      if b == '\\'.toUInt8 then src.quotedEnd quote (pos + 2)
      else if b == '\n'.toUInt8 then pos
      else if b == quote then pos + 1
      else src.quotedEnd quote (pos + 1) := by
  obtain ⟨hlt, hb⟩ := Array.getElem?_eq_some_iff.mp (byte?_of_after h)
  rw [quotedEnd, dif_pos hlt, hb]

theorem tripleQuotedEnd_cons {quote b : UInt8} (h : src.after pos = b :: rest) :
    src.tripleQuotedEnd quote pos =
      if b == '\\'.toUInt8 then src.tripleQuotedEnd quote (pos + 2)
      else if src.startsWith pos [quote, quote, quote] then pos + 3
      else src.tripleQuotedEnd quote (pos + 1) := by
  obtain ⟨hlt, hb⟩ := Array.getElem?_eq_some_iff.mp (byte?_of_after h)
  rw [tripleQuotedEnd, dif_pos hlt, hb]

theorem quotedEnd_of_tail {quote : UInt8} {tail : List UInt8} (hq : isQuote quote = true)
    (htail : QuotedTail quote tail) (h : src.after pos = tail ++ rest) :
    src.quotedEnd quote pos = pos + tail.length := by
  induction htail generalizing pos with
  | close =>
    rw [quotedEnd_cons h]
    rcases isQuote_cases hq with rfl | rfl <;> rfl
  | escape b _ ih =>
    rw [quotedEnd_cons h, if_pos (beq_self_eq_true _), ih (after_succ (after_succ h))]
    simp only [List.length_cons]
    omega
  | plain hslash hfeed hne _ ih =>
    rw [quotedEnd_cons h, if_neg (by simpa using hslash), if_neg (by simpa using hfeed),
      if_neg (by simpa using hne), ih (after_succ h)]
    simp only [List.length_cons]
    omega

theorem three_le_length {quote : UInt8} {tail : List UInt8} (h : TripleTail quote tail) : 3 ≤ tail.length := by
  induction h with
  | close => exact Nat.le_refl _
  | escape _ _ ih => exact Nat.le_add_right_of_le (Nat.le_add_right_of_le ih)
  | plain _ _ _ ih => exact Nat.le_add_right_of_le ih

theorem tripleQuotedEnd_of_tail {quote : UInt8} {tail : List UInt8} (hq : isQuote quote = true)
    (htail : TripleTail quote tail) (h : src.after pos = tail ++ rest) :
    src.tripleQuotedEnd quote pos = pos + tail.length := by
  have hslash : quote ≠ '\\'.toUInt8 := by rcases isQuote_cases hq with rfl | rfl <;> decide
  induction htail generalizing pos with
  | close =>
    have hstarts : src.startsWith pos [quote, quote, quote] = true :=
      (startsWith_iff (by simp)).mpr ⟨rest, h.symm⟩
    rw [tripleQuotedEnd_cons h, if_neg (by simpa using hslash), if_pos hstarts]
    rfl
  | escape b _ ih =>
    rw [tripleQuotedEnd_cons h, if_pos (beq_self_eq_true _), ih (after_succ (after_succ h))]
    simp only [List.length_cons]
    omega
  | @plain b tail hb hne htail ih =>
    -- the three quotes would lie inside the tail, which is long enough for them
    have hstarts : ¬ src.startsWith pos [quote, quote, quote] = true := by
      rw [startsWith_iff (by simp), h]
      intro hpre
      refine hne (List.prefix_of_prefix_length_le hpre (List.prefix_append _ _) ?_)
      exact Nat.le_succ_of_le (three_le_length htail)
    rw [tripleQuotedEnd_cons h, if_neg (by simpa using hb), if_neg hstarts, ih (after_succ h)]
    simp only [List.length_cons]
    omega

/-- The first place where a pattern stands. -/
theorem find?_of_after {pattern body : List UInt8} (hne : pattern ≠ [])
    (hfirst : ∀ i < body.length, ¬ pattern <+: (body ++ pattern).drop i)
    (h : src.after pos = body ++ pattern ++ rest) : src.find? pattern pos = some (pos + body.length) := by
  have hlt : pos < src.size := by
    have hle := add_length_le_size h (by simp [hne])
    have := List.length_pos_iff.mpr hne
    simp only [List.length_append] at hle
    omega
  induction body generalizing pos with
  | nil =>
    have hstarts : src.startsWith pos pattern = true := (startsWith_iff hne).mpr ⟨rest, h.symm⟩
    rw [find?, if_pos hlt, if_pos hstarts]
    rfl
  | cons b body ih =>
    have hstarts : ¬ src.startsWith pos pattern = true := by
      rw [startsWith_iff hne, h]
      intro hpre
      refine hfirst 0 (Nat.succ_pos _) (List.prefix_of_prefix_length_le hpre (List.prefix_append _ _) ?_)
      rw [List.drop_zero, List.length_append]
      exact Nat.le_add_left _ _
    have hsucc : src.after (pos + 1) = body ++ pattern ++ rest := after_succ h
    have hle := add_length_le_size hsucc (by simp [hne])
    have hpos := List.length_pos_iff.mpr hne
    simp only [List.length_append] at hle
    rw [find?, if_pos hlt, if_neg hstarts, ih (fun i hi => hfirst (i + 1) (Nat.succ_lt_succ hi)) hsucc (by omega)]
    simp only [List.length_cons, Option.some.injEq]
    omega

theorem toList_extract (src : Source) (pos n : Nat) :
    (src.bytes.extract pos (pos + n)).toList = (src.after pos).take n := by
  rw [Array.toList_extract, List.extract_eq_take_drop, Nat.add_sub_cancel_left]
  rfl

theorem rawMarkLength?_of_after {mark : String} (hmark : IsRawMark mark)
    (h : src.after pos = Text.bytes mark ++ '('.toUInt8 :: rest) :
    src.rawMarkLength? pos = some mark.utf8ByteSize := by
  have hnot : ∀ b ∈ Text.bytes mark, (b == '('.toUInt8) = false := by
    intro b hb
    rw [beq_eq_false_iff_ne]
    rintro rfl
    exact (hmark.plain '(' (Text.mem_toList_of_mem_bytes (by decide) (by decide) hb)).2.2.2 rfl
  have hshort := hmark.short
  obtain ⟨n, hn⟩ : ∃ n, 17 - mark.utf8ByteSize = n + 1 := ⟨16 - mark.utf8ByteSize, by omega⟩
  rw [rawMarkLength?, toList_extract, h, List.take_append, Text.length_bytes, hn, List.take_succ_cons,
    List.take_of_length_le (by rw [Text.length_bytes]; omega), List.findIdx?_append,
    List.findIdx?_eq_none_iff.mpr hnot]
  simp [List.findIdx?_cons]

theorem rawStringEnd?_of_after {mark : String} {body : List UInt8} (hmark : IsRawMark mark)
    (hfirst : ∀ i < body.length, ¬ rawCloser mark <+: (body ++ rawCloser mark).drop i)
    (h : src.after pos = '"'.toUInt8 :: Text.bytes mark ++ '('.toUInt8 :: body ++ rawCloser mark ++ rest) :
    src.rawStringEnd? pos =
      some (pos + ('"'.toUInt8 :: Text.bytes mark ++ '('.toUInt8 :: body ++ rawCloser mark).length) := by
  have hbehind : src.after (pos + 1) = Text.bytes mark ++ '('.toUInt8 :: (body ++ rawCloser mark ++ rest) := by
    simpa using after_succ h
  have hbody : src.after (pos + 2 + mark.utf8ByteSize) = body ++ rawCloser mark ++ rest := by
    have := after_succ (after_add hbehind)
    rw [Text.length_bytes] at this
    rw [← this]
    congr 1
    omega
  have hle := byte?_eq_some_lt (byte?_of_after h)
  have hplain : (mark.toList.any fun c => Text.isBlank c || c == '\\' || c == ')') = false := by
    rw [List.any_eq_false]
    intro c hc
    have := hmark.plain c hc
    simp [this.1, this.2.1, this.2.2.1]
  have hslice : src.slice (pos + 1) (pos + 1 + mark.utf8ByteSize) = mark := slice_of_after hbehind hle
  have hfind := find?_of_after (by simp [rawCloser]) hfirst hbody
  rw [rawCloser] at hfind
  rw [rawStringEnd?, rawMarkLength?_of_after hmark hbehind]
  dsimp only
  rw [hslice, hplain, if_neg (by simp), Text.toList_toUTF8, hfind]
  simp only [rawCloser, List.length_append, List.length_cons, Text.length_bytes, Option.some.injEq]
  omega

theorem rawMarkLength?_eq_some {len : Nat} (h : src.rawMarkLength? pos = some len) :
    src.after pos = (src.after pos).take len ++ '('.toUInt8 :: src.after (pos + len + 1) ∧ len ≤ 16 ∧
      '('.toUInt8 ∉ (src.after pos).take len := by
  rw [rawMarkLength?, toList_extract] at h
  obtain ⟨hlen, hparen, hnot⟩ := List.findIdx?_eq_some_iff_getElem.mp h
  simp only [List.length_take] at hlen
  simp only [List.getElem_take, beq_iff_eq] at hparen hnot
  refine ⟨?_, by omega, ?_⟩
  · have hdrop : src.after (pos + len + 1) = (src.after pos).drop (len + 1) := by
      simp only [after, List.drop_drop]
      rfl
    rw [hdrop, ← hparen, ← List.drop_eq_getElem_cons, List.take_append_drop]
  · rw [List.mem_take_iff_getElem]
    rintro ⟨i, hi, heq⟩
    exact hnot i (by omega) heq

/-- A quote with no mark behind it opens no raw literal. The bytes on either side of a mark are ASCII, so that
the mark is a text. -/
theorem rawStringEnd?_eq_none {text : String} (hquote : (ofString text).byte? pos = some '"'.toUInt8)
    (h : ¬ OpensRaw ((ofString text).after (pos + 1))) : (ofString text).rawStringEnd? pos = none := by
  unfold rawStringEnd?
  split
  · rfl
  · next len hlen =>
    dsimp only
    split
    · rfl
    · next hplain =>
      obtain ⟨hafter, hshort, hparen⟩ := rawMarkLength?_eq_some hlen
      have hlength : ((ofString text).after (pos + 1) |>.take len).length = len := by
        have := rawMarkLength?_lt hlen
        simp only [after, List.length_take, List.length_drop, Array.length_toList]
        unfold size at this
        omega
      have hbytes : Text.bytes ((ofString text).slice (pos + 1) (pos + 1 + len)) =
          ((ofString text).after (pos + 1)).take len := by
        have hbyte := byte?_of_after (after_add hafter)
        rw [hlength] at hbyte
        rw [bytes_slice (Nat.le_add_right _ _) (isValid_succ_of_ascii hquote (by decide))
          (isValid_of_ascii hbyte (by decide)), Nat.add_sub_cancel_left]
      refine absurd ⟨_, _, ⟨?_, fun c hc => ?_⟩, hbytes ▸ hafter⟩ h
      · rwa [← Text.length_bytes, hbytes, hlength]
      · have hc' := List.any_eq_false.mp (Bool.not_eq_true _ ▸ hplain) c hc
        simp only [Bool.or_eq_true, beq_iff_eq, not_or] at hc'
        refine ⟨by simpa using hc'.1.1, hc'.1.2, hc'.2, ?_⟩
        rintro rfl
        exact hparen (hbytes ▸ Text.mem_bytes_of_mem_toList (by decide) hc)

theorem ordinaryEnd_of_quoted {quote : UInt8} {tail : List UInt8} (hq : isQuote quote = true)
    (htriple : lex.tripleQuotes = true → ¬ [quote, quote] <+: tail ++ rest) (htail : QuotedTail quote tail)
    (h : src.after pos = quote :: tail ++ rest) :
    src.ordinaryEnd lex quote pos = pos + (quote :: tail).length := by
  have hno : ¬ (lex.tripleQuotes && src.startsWith pos [quote, quote, quote]) = true := by
    rw [Bool.and_eq_true, startsWith_iff (by simp), h]
    rintro ⟨hlex, hpre⟩
    exact htriple hlex (List.cons_prefix_cons.mp hpre).2
  rw [ordinaryEnd, if_neg hno, quotedEnd_of_tail hq htail (after_succ h), List.length_cons]
  omega

theorem ordinaryEnd_of_triple {quote : UInt8} {tail : List UInt8} (hq : isQuote quote = true)
    (hlex : lex.tripleQuotes = true) (htail : TripleTail quote tail)
    (h : src.after pos = quote :: quote :: quote :: tail ++ rest) :
    src.ordinaryEnd lex quote pos = pos + (quote :: quote :: quote :: tail).length := by
  have hstarts : src.startsWith pos [quote, quote, quote] = true :=
    (startsWith_iff (by simp)).mpr ⟨tail ++ rest, h.symm⟩
  have htail' := tripleQuotedEnd_of_tail hq htail (after_succ (after_succ (after_succ h)))
  rw [ordinaryEnd, hlex, hstarts, Bool.and_self, if_pos rfl, htail']
  simp only [List.length_cons]
  omega

theorem literalEnd?_of_opensOrdinary {text : String} {quote : UInt8} {behind : List UInt8}
    (h : OpensOrdinary lex prev quote behind) (hafter : (ofString text).after pos = quote :: behind)
    (hprev : (ofString text).byteBefore? pos = some prev) :
    (ofString text).literalEnd? lex pos = some ((ofString text).ordinaryEnd lex quote pos) := by
  have hbyte := byte?_of_after hafter
  have hquote : ¬ (quote != '"'.toUInt8 && quote != '\''.toUInt8) = true := by
    rcases isQuote_cases h.quotes with rfl | rfl <;> decide
  have hseparator : ¬ (ofString text).isDigitSeparator lex quote pos = true := by
    simp only [isDigitSeparator, hprev, Option.any_some, Bool.and_eq_true, beq_iff_eq]
    rintro ⟨⟨hq, hlex⟩, hdigit⟩
    rw [h.separates hq hlex] at hdigit
    cases hdigit
  rw [literalEnd?, hbyte]
  dsimp only
  rw [if_neg hquote, if_neg hseparator]
  split
  · next hraw =>
    simp only [opensRaw, hprev, Bool.and_eq_true, beq_iff_eq, Option.some.injEq] at hraw
    obtain ⟨⟨rfl, hlex⟩, hletter⟩ := hraw
    rw [rawStringEnd?_eq_none hbyte (by rw [after_succ hafter]; exact h.announced rfl hlex hletter),
      Option.getD_none]
  · rfl

/-- **A literal is stepped over to its end.** -/
theorem literalEnd?_of_literal {text : String} {literal : List UInt8} (h : Literal lex prev literal rest)
    (hafter : (ofString text).after pos = literal ++ rest)
    (hprev : (ofString text).byteBefore? pos = some prev) :
    (ofString text).literalEnd? lex pos = some (pos + literal.length) := by
  cases h with
  | quoted hopens htriple htail =>
    rw [literalEnd?_of_opensOrdinary hopens hafter hprev, ordinaryEnd_of_quoted hopens.quotes htriple htail hafter]
  | triple hopens hlex htail =>
    rw [literalEnd?_of_opensOrdinary hopens hafter hprev, ordinaryEnd_of_triple hopens.quotes hlex htail hafter]
  | raw hlex hletter hmark hfirst =>
    have hraw : (ofString text).opensRaw lex '"'.toUInt8 pos = true := by
      simp [opensRaw, hlex, hprev, hletter]
    have hquote : '"'.toUInt8 ≠ '\''.toUInt8 := by decide
    rw [literalEnd?, byte?_of_after hafter]
    dsimp only
    rw [if_neg (by decide), if_neg (by simp [isDigitSeparator, hquote]), if_pos hraw,
      rawStringEnd?_of_after hmark hfirst hafter, Option.getD_some]

/-! ## Pieces -/

theorem commentEnd?_eq_none (h : opensComment lex (src.after pos) = false) : src.commentEnd? lex pos = none := by
  have hstarts {pattern : List UInt8} (hne : pattern ≠ []) (hp : pattern.isPrefixOf (src.after pos) = false) :
      ¬ src.startsWith pos pattern = true := by
    rw [startsWith_iff hne, ← List.isPrefixOf_iff_prefix, hp]
    simp
  unfold opensComment at h
  unfold commentEnd?
  cases hlex : lex.comments with
  | hash =>
    rw [hlex] at h
    exact if_neg (hstarts (by simp) h)
  | slash =>
    rw [hlex] at h
    have hnone := Bool.or_eq_false_iff.mp h
    dsimp only
    rw [if_neg (hstarts (by simp) hnone.1), if_neg (hstarts (by simp) hnone.2)]

theorem commentEnd?_of_byte {b : UInt8} (hb : src.byte? pos = some b) (hhash : b ≠ '#'.toUInt8)
    (hslash : b ≠ '/'.toUInt8) : src.commentEnd? lex pos = none := by
  refine commentEnd?_eq_none ?_
  rw [after_eq_cons hb]
  exact opensComment_cons hhash hslash

/-- A byte that no literal opens with, and a quote between digits. -/
theorem literalEnd?_eq_none {b : UInt8} (hb : src.byte? pos = some b) (hprev : src.byteBefore? pos = some prev)
    (h : isQuote b = true → b = '\''.toUInt8 ∧ lex.digitSeparators = true ∧ isHexDigit prev = true) :
    src.literalEnd? lex pos = none := by
  rw [literalEnd?, hb]
  dsimp only
  by_cases hq : isQuote b = true
  · obtain ⟨rfl, hlex, hdigit⟩ := h hq
    rw [if_neg (by decide), if_pos (by simp [isDigitSeparator, hlex, hprev, hdigit])]
  · rw [if_pos]
    simpa [isQuote] using hq

theorem pieceAt?_of_literal {text : String} {literal : List UInt8} (h : Literal lex prev literal rest)
    (hafter : (ofString text).after pos = literal ++ rest)
    (hprev : (ofString text).byteBefore? pos = some prev) :
    (ofString text).pieceAt? lex pos = some (.literal (pos + literal.length)) := by
  obtain ⟨quote, tail, rfl, hquote⟩ := h.exists_quote
  have hcomment : opensComment lex ((ofString text).after pos) = false := by
    rw [hafter]
    exact opensComment_of_isQuote hquote
  rw [pieceAt?, byte?_of_after hafter, commentEnd?_eq_none hcomment, literalEnd?_of_literal h hafter hprev]

theorem pieceAt?_of_byte {b : UInt8} (hb : src.byte? pos = some b) (hslash : b ≠ '\\'.toUInt8)
    (h : src.enclosedEnd? lex pos = none) : src.pieceAt? lex pos = some (.byte b) := by
  have hcontinuation : src.continuationEnd? lex pos = none := by
    rw [continuationEnd?, if_neg]
    simp [hb, hslash]
  unfold enclosedEnd? at h
  split at h
  · cases h
  · next hcomment => rw [pieceAt?, hb, hcomment, h, hcontinuation]

theorem pieceAt?_of_isPlain {b : UInt8} (hb : src.byte? pos = some b) (hplain : isPlain b = true)
    (hslash : b ≠ '\\'.toUInt8) : src.pieceAt? lex pos = some (.byte b) :=
  pieceAt?_of_byte hb hslash (enclosedEnd?_eq_none hb hplain)

theorem isPlain_of_bracket {b : UInt8} (h : closerOf? b ≠ none ∨ isCloser b = true) :
    isPlain b = true ∧ b ≠ '\\'.toUInt8 := by
  rcases h with h | h
  · obtain ⟨c, hc⟩ := Option.ne_none_iff_exists'.mp h
    rcases closerOf?_cases hc with rfl | rfl | rfl <;> decide
  · rcases isCloser_cases h with rfl | rfl | rfl <;> decide

/-! ## The scan of a value -/

section Scan

variable {stops : Stops} {startsStatement : Nat → Bool} {start limit : Nat} {closers closers' : List UInt8}
  {codeEnd : Nat}

theorem scanFrom_eq_match (lex : Lexicon) (src : Source) (stops : Stops) (startsStatement : Nat → Bool)
    (start limit : Nat) (closers : List UInt8) (pos codeEnd : Nat) :
    src.scanFrom lex stops startsStatement start limit closers pos codeEnd =
      match src.pieceAt? lex pos with
      | none => ⟨codeEnd, .endOfText⟩
      | some piece =>
        if limit < pos - start then ⟨codeEnd, .limit⟩
        else
          match piece with
          | .comment e => src.scanFrom lex stops startsStatement start limit closers e codeEnd
          | .literal e => src.scanFrom lex stops startsStatement start limit closers e e
          | .continuation e => src.scanFrom lex stops startsStatement start limit closers e codeEnd
          | .byte b =>
            match src.verdict lex stops startsStatement closers b pos with
            | .error stop => ⟨codeEnd, stop⟩
            | .ok closers =>
              src.scanFrom lex stops startsStatement start limit closers (pos + 1)
                (if isAsciiBlank b then codeEnd else pos + 1) := by
  rw [scanFrom]
  split
  · next hp => rw [hp]
  · next piece hp =>
    -- the proof that goes along with the piece is dropped
    cases piece with
    | comment e | literal e | continuation e => simp only [hp]
    | byte b => cases hv : src.verdict lex stops startsStatement closers b pos <;> simp only [hp, hv]

theorem scanFrom_of_literal {e : Nat} (hp : src.pieceAt? lex pos = some (.literal e)) (hl : pos ≤ start + limit) :
    src.scanFrom lex stops startsStatement start limit closers pos codeEnd =
      src.scanFrom lex stops startsStatement start limit closers e e := by
  rw [scanFrom_eq_match, hp]
  exact if_neg (by omega)

theorem scanFrom_of_byte {b : UInt8} (hp : src.pieceAt? lex pos = some (.byte b)) (hl : pos ≤ start + limit)
    (hv : src.verdict lex stops startsStatement closers b pos = .ok closers') :
    src.scanFrom lex stops startsStatement start limit closers pos codeEnd =
      src.scanFrom lex stops startsStatement start limit closers' (pos + 1)
        (if isAsciiBlank b then codeEnd else pos + 1) := by
  rw [scanFrom_eq_match, hp]
  simp only [hv]
  exact if_neg (by omega)

theorem scanFrom_of_stop {b : UInt8} {stop : Stop} (hp : src.pieceAt? lex pos = some (.byte b))
    (hl : pos ≤ start + limit) (hv : src.verdict lex stops startsStatement closers b pos = .error stop) :
    src.scanFrom lex stops startsStatement start limit closers pos codeEnd = ⟨codeEnd, stop⟩ := by
  rw [scanFrom_eq_match, hp]
  simp only [hv]
  exact if_neg (by omega)

/-! A byte of code leaves the scan going, with the brackets that `Code` says are open behind it. -/

theorem verdict_of_byte {b : UInt8} (hopener : closerOf? b = none) (hcloser : isCloser b = false)
    (hfeed : b ≠ '\n'.toUInt8) (hstop : closers = [] → src.isTerminator lex stops b pos = false) :
    src.verdict lex stops startsStatement closers b pos = .ok closers := by
  rw [verdict.eq_def, hopener]
  dsimp only
  rw [if_neg (by simp [hcloser])]
  cases closers with
  | nil => simp [hstop rfl]
  | cons c closers => simp [hfeed]

theorem verdict_of_opener {b c : UInt8} (h : closerOf? b = some c) :
    src.verdict lex stops startsStatement closers b pos = .ok (c :: closers) := by
  rw [verdict.eq_def, h]

theorem verdict_of_closer {c : UInt8} (h : isCloser c = true) :
    src.verdict lex stops startsStatement (c :: closers) c pos = .ok closers := by
  have hopener : closerOf? c = none := by rcases isCloser_cases h with rfl | rfl | rfl <;> decide
  rw [verdict.eq_def, hopener]
  dsimp only
  rw [if_pos h, if_pos (beq_self_eq_true c)]

theorem verdict_of_terminator {b : UInt8} (hopener : closerOf? b = none) (hcloser : isCloser b = false)
    (hstop : src.isTerminator lex stops b pos = true) :
    src.verdict lex stops startsStatement [] b pos = .error (.terminator pos) := by
  rw [verdict.eq_def, hopener]
  simp [hcloser, hstop]

/-- What stands at a byte of code. -/
theorem enclosedEnd?_of_byte {b : UInt8} (hafter : src.after pos = b :: rest ++ beyond)
    (hprev : src.byteBefore? pos = some prev) (hf : Fence beyond)
    (hquote : isQuote b = true → b = '\''.toUInt8 ∧ lex.digitSeparators = true ∧ isHexDigit prev = true)
    (hcomment : opensComment lex (b :: rest) = false) : src.enclosedEnd? lex pos = none := by
  have hnone := commentEnd?_eq_none (hafter ▸ opensComment_extend hcomment hf)
  rw [enclosedEnd?, hnone]
  exact literalEnd?_eq_none (byte?_of_after hafter) hprev hquote

end Scan

section Code

variable {text : String} {stops : Stops} {startsStatement : Nat → Bool} {start limit : Nat}
  {barred : Bool → UInt8 → Bool} {closers closers' code : List UInt8}

/-- A scan at a position runs through some code: it comes to the end of the code with no bracket open, and the
value read so far ends there too, if the last byte is no blank. -/
def RunsThrough (lex : Lexicon) (src : Source) (stops : Stops) (startsStatement : Nat → Bool)
    (start limit : Nat) (closers : List UInt8) (pos : Nat) (code : List UInt8) : Prop :=
  ∀ codeEnd, ∃ codeEnd', src.scanFrom lex stops startsStatement start limit closers pos codeEnd =
      src.scanFrom lex stops startsStatement start limit [] (pos + code.length) codeEnd' ∧
    (code = [] → codeEnd' = codeEnd) ∧
    ∀ b, code.getLast? = some b → isAsciiBlank b = false → codeEnd' = pos + code.length

theorem RunsThrough.byte {b : UInt8} (hp : src.pieceAt? lex pos = some (.byte b)) (hl : pos ≤ start + limit)
    (hv : src.verdict lex stops startsStatement closers b pos = .ok closers')
    (h : RunsThrough lex src stops startsStatement start limit closers' (pos + 1) code) :
    RunsThrough lex src stops startsStatement start limit closers pos (b :: code) := by
  intro codeEnd
  obtain ⟨codeEnd', hscan, hnil, hlast⟩ := h (if isAsciiBlank b then codeEnd else pos + 1)
  have hlength : pos + 1 + code.length = pos + (b :: code).length := by
    rw [List.length_cons]
    omega
  refine ⟨codeEnd', ?_, by simp, fun c hc hblank => ?_⟩
  · rw [scanFrom_of_byte hp hl hv, hscan, hlength]
  · cases code with
    | nil =>
      obtain rfl : b = c := by simpa using hc
      rw [hnil rfl, hblank]
      rfl
    | cons d code => rw [hlast c (by simpa using hc) hblank, hlength]

theorem RunsThrough.literal {literal : List UInt8} (hne : literal ≠ [])
    (hp : src.pieceAt? lex pos = some (.literal (pos + literal.length))) (hl : pos ≤ start + limit)
    (h : RunsThrough lex src stops startsStatement start limit closers (pos + literal.length) code) :
    RunsThrough lex src stops startsStatement start limit closers pos (literal ++ code) := by
  intro codeEnd
  obtain ⟨codeEnd', hscan, hnil, hlast⟩ := h (pos + literal.length)
  refine ⟨codeEnd', ?_, by simp [hne], fun c hc hblank => ?_⟩
  · rw [scanFrom_of_literal hp hl, hscan, List.length_append, Nat.add_assoc]
  · rw [List.length_append, ← Nat.add_assoc]
    cases code with
    | nil => exact hnil rfl
    | cons d code =>
      rw [List.getLast?_append, Option.or_of_isSome (by simp)] at hc
      exact hlast c hc hblank

theorem byteBefore?_behind {part : List UInt8} (h : src.after pos = part ++ rest) (hne : part ≠ []) :
    src.byteBefore? (pos + part.length) = some (part.getLastD prev) := by
  obtain ⟨c, hc⟩ := Option.ne_none_iff_exists'.mp (mt List.getLast?_eq_none_iff.mp hne)
  rw [byteBefore?_add h hc, List.getLastD_eq_getLast?, hc, Option.getD_some]

/-- **A scan runs through code.** -/
theorem runsThrough_of_code (h : Code lex barred closers prev code) (hf : Fence beyond)
    (hstops : ∀ b pos, barred true b = false → b ≠ '\n'.toUInt8 →
      (ofString text).isTerminator lex stops b pos = false)
    (hafter : (ofString text).after pos = code ++ beyond)
    (hprev : (ofString text).byteBefore? pos = some prev) (hfeed : '\n'.toUInt8 ∉ code)
    (hl : pos + code.length ≤ start + limit) :
    RunsThrough lex (ofString text) stops startsStatement start limit closers pos code := by
  induction h generalizing pos with
  | done => exact fun codeEnd => ⟨codeEnd, rfl, fun _ => rfl, by simp⟩
  | @byte closers prev b code hopener hcloser hbarred hslash hquote hcomment _ ih =>
    simp only [List.length_cons, List.mem_cons, not_or] at hl hfeed
    have hp := pieceAt?_of_byte (byte?_of_after hafter) hslash (enclosedEnd?_of_byte hafter hprev hf hquote hcomment)
    refine .byte hp (by omega) (verdict_of_byte hopener hcloser (Ne.symm hfeed.1) ?_)
      (ih (after_succ hafter) (byteBefore?_add (a := [b]) hafter rfl) hfeed.2 (by omega))
    rintro rfl
    exact hstops b pos hbarred (Ne.symm hfeed.1)
  | @opener closers prev b c code hopener _ ih =>
    simp only [List.length_cons, List.mem_cons, not_or] at hl hfeed
    obtain ⟨hplain, hslash⟩ := isPlain_of_bracket (Or.inl (by simp [hopener] : closerOf? b ≠ none))
    exact .byte (pieceAt?_of_isPlain (byte?_of_after hafter) hplain hslash) (by omega)
      (verdict_of_opener hopener)
      (ih (after_succ hafter) (byteBefore?_add (a := [b]) hafter rfl) hfeed.2 (by omega))
  | @closer closers prev c code hcloser _ ih =>
    simp only [List.length_cons, List.mem_cons, not_or] at hl hfeed
    obtain ⟨hplain, hslash⟩ := isPlain_of_bracket (Or.inr hcloser)
    exact .byte (pieceAt?_of_isPlain (byte?_of_after hafter) hplain hslash) (by omega)
      (verdict_of_closer hcloser)
      (ih (after_succ hafter) (byteBefore?_add (a := [c]) hafter rfl) hfeed.2 (by omega))
  | @literal closers prev literal code hliteral _ ih =>
    rw [List.append_assoc] at hafter
    simp only [List.length_append, List.mem_append, not_or] at hl hfeed
    exact .literal hliteral.ne_nil (pieceAt?_of_literal (hliteral.extend hf) hafter hprev) (by omega)
      (ih (after_add hafter) (byteBefore?_behind hafter hliteral.ne_nil) hfeed.2 (by omega))

theorem codeTextFrom_of_literal {stop chunk e : Nat} (hlt : pos < stop) (h : src.literalEnd? lex pos = some e) :
    src.codeTextFrom lex stop chunk pos = src.codeTextFrom lex stop chunk e := by
  rw [codeTextFrom, dif_pos hlt]
  split
  · next e' he =>
    rw [h] at he
    cases he
    rfl
  · next hnone => simp [h] at hnone

theorem codeTextFrom_of_byte {stop chunk : Nat} {b : UInt8} (hlt : pos < stop) (hb : src.byte? pos = some b)
    (hslash : b ≠ '\\'.toUInt8) (h : src.enclosedEnd? lex pos = none) :
    src.codeTextFrom lex stop chunk pos = src.codeTextFrom lex stop chunk (pos + 1) := by
  unfold enclosedEnd? at h
  split at h
  · cases h
  · next hcomment =>
    have hblanked : src.blankedEnd? lex pos = none := by
      rw [blankedEnd?, hcomment]
      simp [joinsLines, hb, hslash]
    rw [codeTextFrom, dif_pos hlt]
    split
    · next e' he => simp [h] at he
    · split
      · next e' he => simp [hblanked] at he
      · rfl

/-- **The text of code is the code.** -/
theorem codeTextFrom_of_code {chunk stop : Nat} (h : Code lex barred closers prev code) (hf : Fence beyond)
    (hafter : (ofString text).after pos = code ++ beyond)
    (hprev : (ofString text).byteBefore? pos = some prev) (hchunk : chunk ≤ stop)
    (hstop : stop = pos + code.length) :
    (ofString text).codeTextFrom lex stop chunk pos = (ofString text).slice chunk stop := by
  induction h generalizing pos with
  | done =>
    rw [codeTextFrom, dif_neg (by simp [hstop]), Nat.max_eq_left hchunk]
  | @byte closers prev b code hopener hcloser hbarred hslash hquote hcomment _ ih =>
    rw [List.length_cons] at hstop
    rw [codeTextFrom_of_byte (by omega) (byte?_of_after hafter) hslash
        (enclosedEnd?_of_byte hafter hprev hf hquote hcomment),
      ih (after_succ hafter) (byteBefore?_add (a := [b]) hafter rfl) (by omega)]
  | @opener closers prev b c code hopener _ ih =>
    rw [List.length_cons] at hstop
    obtain ⟨hplain, hslash⟩ := isPlain_of_bracket (Or.inl (by simp [hopener] : closerOf? b ≠ none))
    have hbyte := byte?_of_after hafter
    rw [codeTextFrom_of_byte (by omega) hbyte hslash (enclosedEnd?_eq_none hbyte hplain),
      ih (after_succ hafter) (byteBefore?_add (a := [b]) hafter rfl) (by omega)]
  | @closer closers prev c code hcloser _ ih =>
    rw [List.length_cons] at hstop
    obtain ⟨hplain, hslash⟩ := isPlain_of_bracket (Or.inr hcloser)
    have hbyte := byte?_of_after hafter
    rw [codeTextFrom_of_byte (by omega) hbyte hslash (enclosedEnd?_eq_none hbyte hplain),
      ih (after_succ hafter) (byteBefore?_add (a := [c]) hafter rfl) (by omega)]
  | @literal closers prev literal code hliteral _ ih =>
    rw [List.append_assoc] at hafter
    rw [List.length_append] at hstop
    have hpos := List.length_pos_iff.mpr hliteral.ne_nil
    rw [codeTextFrom_of_literal (by omega) (literalEnd?_of_literal (hliteral.extend hf) hafter hprev),
      ih (after_add hafter) (byteBefore?_behind hafter hliteral.ne_nil) (by omega)]

end Code

/-! ## Values -/

section Value

variable {text v : String} {stops : Stops} {startsStatement : Nat → Bool} {start limit : Nat}
  {barred : Bool → UInt8 → Bool}

/-- **The scan of a value ends with the value.** A terminator behind it stops the scan. -/
theorem scanValueUntil_of_value {m : UInt8} (hv : IsValue lex barred v)
    (hstops : ∀ b pos, barred true b = false → b ≠ '\n'.toUInt8 →
      (ofString text).isTerminator lex stops b pos = false)
    (hafter : (ofString text).after start = Text.bytes v ++ m :: rest) (hf : Fence (m :: rest))
    (hprev : (ofString text).byteBefore? start = some ' '.toUInt8)
    (hm : (ofString text).isTerminator lex stops m (start + v.utf8ByteSize) = true)
    (hl : v.utf8ByteSize ≤ limit) :
    (ofString text).scanValueUntil lex stops limit startsStatement start =
      ⟨start + v.utf8ByteSize, .terminator (start + v.utf8ByteSize)⟩ := by
  obtain ⟨_, _, heq, hmem⟩ := hf.exists_head
  cases heq
  have hbyte : (ofString text).byte? (start + v.utf8ByteSize) = some m := by
    rw [← Text.length_bytes]
    exact byte?_of_after (after_add hafter)
  have hfacts : ∀ b ∈ fenceBytes, b ≠ '\\'.toUInt8 ∧ closerOf? b = none ∧ isCloser b = false :=
    List.all_iff_forall_prop.mp (by decide)
  obtain ⟨hslash, hopener, hcloser⟩ := hfacts m hmem
  have hrun : RunsThrough lex (ofString text) stops startsStatement start limit [] start (Text.bytes v) :=
    runsThrough_of_code hv.code hf hstops hafter hprev hv.notMem_feed (by rw [Text.length_bytes]; omega)
  obtain ⟨codeEnd, hscan, -, hlast⟩ := hrun start
  obtain ⟨b, hb⟩ := Option.ne_none_iff_exists'.mp (mt List.getLast?_eq_none_iff.mp hv.bytes_ne_nil)
  rw [scanValueUntil, hscan, hlast b hb (hv.last_not_blank hb), Text.length_bytes]
  have hp : (ofString text).pieceAt? lex (start + v.utf8ByteSize) = some (.byte m) :=
    pieceAt?_of_isPlain hbyte (isPlain_of_mem_fenceBytes m hmem) hslash
  exact scanFrom_of_stop hp (by omega) (verdict_of_terminator hopener hcloser hm)

/-- And its text is the value. -/
theorem codeText_of_value (hv : IsValue lex barred v)
    (hafter : (ofString text).after start = Text.bytes v ++ beyond) (hf : Fence beyond)
    (hprev : (ofString text).byteBefore? start = some ' '.toUInt8) :
    (ofString text).codeText lex start (start + v.utf8ByteSize) = v := by
  have hle := add_length_le_size hafter hv.bytes_ne_nil
  rw [codeText, codeTextFrom_of_code hv.code hf hafter hprev (Nat.le_add_right _ _) (by rw [Text.length_bytes]),
    slice_of_after hafter (by omega)]

end Value

/-! ## Bytes that are only passed -/

/-- A byte that is a piece of its own wherever it stands and leaves the brackets and the line as they are. -/
def isInert (b : UInt8) : Bool :=
  isPlain b && (closerOf? b).isNone && !isCloser b && b != '\\'.toUInt8 && b != '\n'.toUInt8

theorem isInert_facts {b : UInt8} (h : isInert b = true) : isPlain b = true ∧ closerOf? b = none ∧
    isCloser b = false ∧ b ≠ '\\'.toUInt8 ∧ b ≠ '\n'.toUInt8 := by
  simpa [isInert, and_assoc] using h

theorem isInert_of_isIdentByte {b : UInt8} (h : isIdentByte b = true) : isInert b = true := by
  have hopener : closerOf? b = none := by
    by_contra hopener
    obtain ⟨c, hc⟩ := Option.ne_none_iff_exists'.mp hopener
    rcases closerOf?_cases hc with rfl | rfl | rfl <;> exact absurd h (by decide)
  have hcloser : isCloser b = false := by
    by_contra hcloser
    rcases isCloser_cases (Bool.not_eq_false _ ▸ hcloser) with rfl | rfl | rfl <;> exact absurd h (by decide)
  have hslash : b ≠ '\\'.toUInt8 := by
    rintro rfl
    exact absurd h (by decide)
  have hfeed : b ≠ '\n'.toUInt8 := by
    rintro rfl
    exact absurd h (by decide)
  simp [isInert, isPlain_of_isIdentByte h, hopener, hcloser, hslash, hfeed]

/-- Inert bytes are code, if they are not barred, in front of any code. -/
theorem code_of_inert {barred : Bool → UInt8 → Bool} {code : List UInt8} (hcode : ∀ b ∈ code, isInert b = true)
    (hbarred : ∀ b ∈ code, barred true b = false) (hrest : Code lex barred [] (code.getLastD prev) rest) :
    Code lex barred [] prev (code ++ rest) := by
  induction code generalizing prev with
  | nil => exact hrest
  | cons b code ih =>
    obtain ⟨hplain, hopener, hcloser, hslash, -⟩ := isInert_facts (hcode b List.mem_cons_self)
    rw [List.getLastD_cons] at hrest
    refine .byte hopener hcloser (hbarred b List.mem_cons_self) hslash (fun hquote => ?_)
      (opensComment_of_isPlain hplain)
      (ih (fun c hc => hcode c (List.mem_cons_of_mem _ hc)) (fun c hc => hbarred c (List.mem_cons_of_mem _ hc)) hrest)
    rw [isPlain_of_isQuote hquote] at hplain
    cases hplain

section Inert

variable {stops : Stops} {startsStatement : Nat → Bool} {start limit : Nat} {code : List UInt8}

/-- A scan runs through inert bytes, outside brackets. -/
theorem runsThrough_of_inert (h : src.after pos = code ++ rest) (hcode : ∀ b ∈ code, isInert b = true)
    (hstop : ∀ b ∈ code, ∀ pos, src.isTerminator lex stops b pos = false)
    (hl : pos + code.length ≤ start + limit) :
    RunsThrough lex src stops startsStatement start limit [] pos code := by
  induction code generalizing pos with
  | nil => exact fun codeEnd => ⟨codeEnd, rfl, fun _ => rfl, by simp⟩
  | cons b code ih =>
    rw [List.length_cons] at hl
    obtain ⟨hplain, hopener, hcloser, hslash, hfeed⟩ := isInert_facts (hcode b List.mem_cons_self)
    exact .byte (pieceAt?_of_isPlain (byte?_of_after h) hplain hslash) (by omega)
      (verdict_of_byte hopener hcloser hfeed fun _ => hstop b List.mem_cons_self pos)
      (ih (after_succ h) (fun c hc => hcode c (List.mem_cons_of_mem _ hc))
        (fun c hc => hstop c (List.mem_cons_of_mem _ hc)) (by omega))

/-- The scan of inert bytes ends at the terminator behind them. -/
theorem scanValueUntil_of_inert {m : UInt8} (h : src.after start = code ++ m :: rest)
    (hcode : ∀ b ∈ code, isInert b = true)
    (hstop : ∀ b ∈ code, ∀ pos, src.isTerminator lex stops b pos = false) (hplain : isPlain m = true)
    (hslash : m ≠ '\\'.toUInt8) (hopener : closerOf? m = none) (hcloser : isCloser m = false)
    (hm : src.isTerminator lex stops m (start + code.length) = true) (hl : code.length ≤ limit) :
    ∃ codeEnd, src.scanValueUntil lex stops limit startsStatement start =
        ⟨codeEnd, .terminator (start + code.length)⟩ ∧
      ∀ b, code.getLast? = some b → isAsciiBlank b = false → codeEnd = start + code.length := by
  have hrun : RunsThrough lex src stops startsStatement start limit [] start code :=
    runsThrough_of_inert h hcode hstop (by omega)
  obtain ⟨codeEnd, hscan, -, hlast⟩ := hrun start
  refine ⟨codeEnd, ?_, hlast⟩
  rw [scanValueUntil, hscan]
  exact scanFrom_of_stop (pieceAt?_of_isPlain (byte?_of_after (after_add h)) hplain hslash) (by omega)
    (verdict_of_terminator hopener hcloser hm)

end Inert

/-! ## Trivia -/

theorem skipTrivia_eq_self (h : src.triviaEnd? lex pos = none) : src.skipTrivia lex pos = pos := by
  rw [skipTrivia]
  split
  · next e he => simp [h] at he
  · rfl

theorem skipTrivia_blank {b : UInt8} (hb : src.byte? pos = some b) (hblank : isAsciiBlank b = true) :
    src.skipTrivia lex pos = src.skipTrivia lex (pos + 1) := by
  have hend : src.triviaEnd? lex pos = some (pos + 1) := by rw [triviaEnd?, hb]; exact if_pos hblank
  rw [skipTrivia]
  split
  · next e he =>
    rw [hend] at he
    cases he
    rfl
  · next hnone => simp [hend] at hnone

/-- A byte that neither is trivia nor opens some. -/
def isSolid (b : UInt8) : Bool :=
  !isAsciiBlank b && b != '#'.toUInt8 && b != '/'.toUInt8

theorem isSolid_of_isIdentByte {b : UInt8} (h : isIdentByte b = true) : isSolid b = true := by
  have hplain := isPlain_of_isIdentByte h
  have hblank : isAsciiBlank b = false := by
    by_contra hblank
    rw [(isPlain_of_isAsciiBlank (Bool.not_eq_false _ ▸ hblank)).2] at h
    cases h
  simp only [isPlain, Bool.and_eq_true] at hplain
  simp only [isSolid, hblank, hplain.1.1.1, hplain.1.1.2]
  rfl

theorem skipTrivia_of_isSolid {b : UInt8} (hb : src.byte? pos = some b) (h : isSolid b = true) :
    src.skipTrivia lex pos = pos := by
  simp only [isSolid, Bool.and_eq_true, Bool.not_eq_true', bne_iff_ne] at h
  have hcomment : src.commentEnd? lex pos = none := commentEnd?_of_byte hb h.1.2 h.2
  have hdirective : src.startsDirective lex pos = false := by simp [startsDirective, hb, h.1.2]
  refine skipTrivia_eq_self ?_
  rw [triviaEnd?, hb]
  simp [h.1.1, hcomment, hdirective]

/-- One space, and then a byte that is no trivia. -/
theorem skipTrivia_space {b : UInt8} (h : src.after pos = ' '.toUInt8 :: b :: rest) (hb : isSolid b = true) :
    src.skipTrivia lex pos = pos + 1 := by
  rw [skipTrivia_blank (byte?_of_after h) rfl, skipTrivia_of_isSolid (byte?_of_after (after_succ h)) hb]

theorem opensComment_of_code {closers code : List UInt8} {barred : Bool → UInt8 → Bool}
    (h : Code lex barred closers prev code) (hf : Fence beyond) : opensComment lex (code ++ beyond) = false := by
  cases h with
  | done =>
    obtain ⟨b, rest, rfl, hb⟩ := hf.exists_head
    exact opensComment_of_isPlain (isPlain_of_mem_fenceBytes b hb)
  | byte _ _ _ _ _ hcomment => exact opensComment_extend hcomment hf
  | opener hopener => exact opensComment_of_isPlain (isPlain_of_bracket (Or.inl (by simp [hopener]))).1
  | closer hcloser => exact opensComment_of_isPlain (isPlain_of_bracket (Or.inr hcloser)).1
  | literal hliteral =>
    obtain ⟨quote, tail, rfl, hquote⟩ := hliteral.exists_quote
    exact opensComment_of_isQuote hquote

end Source
end VarCensus
