import VarCensus.Proofs.ReadingValues

/-!
# A source inside a longer one

Some lines of a text are read in the text as they are read by themselves, with all positions moved by the same
distance. `Part part whole d last` says that the lines of `part` stand in `whole` from position `d` on; either the
part ends with a line feed, or it is the `last` one and nothing comes behind it. Each scanning function has one
lemma here, for both cases.

The functions look at the bytes around a position, so the lemmas have to show that none of them looks across an end
of the part. Backwards nothing is missed, since a line feed in front counts as much as nothing in front. Forwards
every search stops at the line feed at the end, with one exception: a literal can run over it. So the end of a
literal is the same only if it lies in the part (`Ends`), and the scan of a value goes the same way unless it comes
to the end of the part (`scanFrom_eq`).
-/

namespace VarCensus

/-- A stop, seen from `d` bytes further back. -/
def Stop.move (d : Nat) : Stop → Stop
  | .terminator pos => .terminator (d + pos)
  | .unbalanced pos => .unbalanced (d + pos)
  | .endOfText => .endOfText
  | .limit => .limit

def ValueScan.move (d : Nat) (scan : ValueScan) : ValueScan :=
  ⟨d + scan.codeEnd, scan.stop.move d⟩

theorem eq_none_of_rel {α β : Type} {r : α → β → Prop} {o : Option β} (h : Option.Rel r none o) : o = none := by
  cases h
  rfl

theorem exists_of_rel {α β : Type} {r : α → β → Prop} {a : α} {o : Option β} (h : Option.Rel r (some a) o) :
    ∃ b, o = some b ∧ r a b := by
  cases h with
  | some hr => exact ⟨_, rfl, hr⟩

namespace Source

/-- The lines of `part` stand in `whole` from `d` on, with a line feed at their end or with nothing behind them. -/
structure Part (part whole : Source) (d : Nat) (last : Prop) : Prop where
  fits : d + part.size ≤ whole.size
  bytes : ∀ i, i < part.size ∨ last → whole.byte? (d + i) = part.byte? i
  feed : ∀ i, i + 1 = part.size → last ∨ part.byte? i = some '\n'.toUInt8
  front : d = 0 ∨ whole.byteBefore? d = some '\n'.toUInt8

/-- A position of a part, or behind the last one. -/
def Covers (part : Source) (last : Prop) (pos : Nat) : Prop :=
  pos < part.size ∨ last

/-- A position that the bytes of a part lead to. -/
def Reaches (part : Source) (last : Prop) (pos : Nat) : Prop :=
  pos ≤ part.size ∨ last

/-- Where a piece ends in a part and in the whole: at the same place, or beyond the part. -/
def Ends (part : Source) (d : Nat) (last : Prop) (e e' : Nat) : Prop :=
  part.Covers last e ∧ e' = d + e ∨ ¬ last ∧ e = part.size ∧ d + part.size ≤ e'

variable {part whole : Source} {d : Nat} {last : Prop} {pos e e' : Nat}

theorem covers_of_byte {b : UInt8} (h : part.byte? pos = some b) : part.Covers last pos :=
  Or.inl (byte?_eq_some_lt h)

theorem Covers.succ (h : part.Covers last pos) : part.Reaches last (pos + 1) :=
  h.imp_left Nat.succ_le_of_lt

theorem Covers.reaches (h : part.Covers last pos) : part.Reaches last pos :=
  h.imp_left Nat.le_of_lt

theorem Reaches.covers_or (h : part.Reaches last pos) : part.Covers last pos ∨ ¬ last ∧ pos = part.size := by
  by_cases hlast : last
  · exact Or.inl (Or.inr hlast)
  · rcases h with hle | h
    · exact (Nat.lt_or_eq_of_le hle).imp Or.inl fun heq => ⟨hlast, heq⟩
    · exact absurd h hlast

theorem Reaches.ends (h : part.Reaches last pos) : part.Ends d last pos (d + pos) := by
  rcases h.covers_or with hcovers | ⟨hlast, rfl⟩
  · exact Or.inl ⟨hcovers, rfl⟩
  · exact Or.inr ⟨hlast, rfl, Nat.le_refl _⟩

theorem Covers.of_succ (h : part.Covers last (pos + 1)) : part.Covers last pos :=
  h.imp_left Nat.lt_of_succ_lt

/-! ## Equations of the scans -/

section Equations

variable {src : Source} {lex : Lexicon} {stops : Stops} {starts : Nat → Bool} {start limit codeEnd : Nat}
  {closers : List UInt8}

theorem verdict_of_feed (hne : closers ≠ []) (hline : starts (pos + 1) = false) :
    src.verdict lex stops starts closers '\n'.toUInt8 pos = .ok closers := by
  have hopener : closerOf? '\n'.toUInt8 = none := rfl
  have hcloser : isCloser '\n'.toUInt8 = false := rfl
  rw [verdict.eq_def, hopener]
  simp [hcloser, hline, hne]

theorem scanFrom_of_end (h : src.size ≤ pos) :
    src.scanFrom lex stops starts start limit closers pos codeEnd = ⟨codeEnd, .endOfText⟩ := by
  rw [scanFrom_eq_match, pieceAt?, byte?_eq_none h]

theorem codeEnd_le (hle : codeEnd ≤ src.size) :
    (src.scanFrom lex stops starts start limit closers pos codeEnd).codeEnd ≤ src.size := by
  fun_induction scanFrom lex src stops starts start limit closers pos codeEnd with
  | case1 => exact hle
  | case2 => exact hle
  | case3 _ _ _ _ _ _ _ ih => exact ih hle
  | case4 closers pos codeEnd _ e hp _ ih => exact ih (pieceAt?_bounds hp).2
  | case5 _ _ _ _ _ _ _ ih => exact ih hle
  | case6 => exact hle
  | case7 closers pos codeEnd _ b hp closers' hv _ ih =>
    refine ih ?_
    split
    · exact hle
    · exact (pieceAt?_bounds hp).2

theorem codeTextFrom_of_le {stop chunk : Nat} (hle : stop ≤ pos) :
    src.codeTextFrom lex stop chunk pos = src.slice chunk (max stop chunk) := by
  rw [codeTextFrom, dif_neg (Nat.not_lt.mpr hle)]

theorem codeTextFrom_of_lt {stop chunk : Nat} (hlt : pos < stop)
    (hliteral : src.literalEnd? lex pos = none) :
    src.codeTextFrom lex stop chunk pos =
      match src.blankedEnd? lex pos with
      | some e => src.slice chunk pos ++ " " ++ src.codeTextFrom lex stop (min e stop) (min e stop)
      | none => src.codeTextFrom lex stop chunk (pos + 1) := by
  rw [codeTextFrom, dif_pos hlt]
  split
  · next e he => simp [hliteral] at he
  · split
    · next e he => rw [he]
    · next he => rw [he]

theorem lineStartBelow_le (src : Source) (pos : Nat) : src.lineStartBelow pos ≤ pos := by
  induction pos with
  | zero => exact Nat.le_refl 0
  | succ pos ih =>
    rw [lineStartBelow]
    split
    · exact Nat.le_refl _
    · exact Nat.le_succ_of_le ih

end Equations

namespace Part

/-! ## Bytes -/

theorem byte?_eq (h : Part part whole d last) (hpos : part.Covers last pos) :
    whole.byte? (d + pos) = part.byte? pos :=
  h.bytes pos hpos

theorem after_eq (h : Part part whole d last) (hlt : pos < part.bytes.size) :
    whole.after (d + pos) = part.bytes[pos] :: whole.after (d + pos + 1) :=
  after_eq_cons ((h.byte?_eq (Or.inl hlt)).trans (Array.getElem?_eq_getElem hlt))

/-- Only the line feed at the end has nothing of the part behind it. -/
theorem next (h : Part part whole d last) (hpos : part.Covers last pos)
    (hbyte : part.byte? pos ≠ some '\n'.toUInt8) : part.Covers last (pos + 1) := by
  rcases hpos.succ.covers_or with hnext | ⟨hlast, heq⟩
  · exact hnext
  · rcases h.feed pos heq with h | h
    · exact absurd h hlast
    · exact absurd h hbyte

theorem next_of_byte (h : Part part whole d last) {b : UInt8} (hbyte : part.byte? pos = some b)
    (hb : b ≠ '\n'.toUInt8) : part.Covers last (pos + 1) := by
  refine h.next (covers_of_byte hbyte) ?_
  rw [hbyte]
  simpa using hb

theorem size_eq (h : Part part whole d last) (hlast : last) : whole.size = d + part.size := by
  have hnone := h.bytes part.size (Or.inr hlast)
  rw [byte?_eq_none (Nat.le_refl part.size)] at hnone
  exact Nat.le_antisymm (Array.getElem?_eq_none_iff.mp hnone) h.fits

/-- The byte in front of a position, where a line feed counts as nothing. -/
theorem any_byteBefore? (h : Part part whole d last) (hpos : part.Covers last pos) (test : UInt8 → Bool)
    (htest : test '\n'.toUInt8 = false) :
    (whole.byteBefore? (d + pos)).any test = (part.byteBefore? pos).any test := by
  cases pos with
  | zero =>
    rcases h.front with rfl | hfeed
    · rfl
    · rw [Nat.add_zero, hfeed]
      simpa [byteBefore?] using htest
  | succ pos => rw [← Nat.add_assoc, byteBefore?, byteBefore?, h.byte?_eq hpos.of_succ]

theorem beq_byteBefore? (h : Part part whole d last) (hpos : part.Covers last pos) {b : UInt8}
    (hb : b ≠ '\n'.toUInt8) : (whole.byteBefore? (d + pos) == some b) = (part.byteBefore? pos == some b) := by
  have hany := h.any_byteBefore? hpos (· == b) (by simpa using hb.symm)
  cases hw : whole.byteBefore? (d + pos) <;> cases hp : part.byteBefore? pos <;> simp_all

/-- Bytes that stand at a position; a line feed can only be the last of them. -/
theorem startsWith_eq (h : Part part whole d last) {pattern : List UInt8} (hne : pattern ≠ [])
    (hfeed : ∀ b ∈ pattern.dropLast, b ≠ '\n'.toUInt8) (hpos : part.Covers last pos) :
    whole.startsWith (d + pos) pattern = part.startsWith pos pattern := by
  induction pattern generalizing pos with
  | nil => exact absurd rfl hne
  | cons b rest ih =>
    rw [startsWith, startsWith, h.byte?_eq hpos]
    by_cases hbyte : part.byte? pos = some b
    · cases rest with
      | nil =>
        have hpart := byte?_eq_some_lt hbyte
        have hwhole := byte?_eq_some_lt ((h.byte?_eq hpos).trans hbyte)
        simp only [startsWith, Nat.succ_le_of_lt hpart, Nat.succ_le_of_lt hwhole]
      | cons c rest =>
        rw [List.dropLast_cons_cons] at hfeed
        have hnext := h.next_of_byte hbyte (hfeed b List.mem_cons_self)
        rw [Nat.add_assoc, ih (by simp) (fun c hc => hfeed c (List.mem_cons_of_mem _ hc)) hnext]
    · have hbeq : (part.byte? pos == some b) = false := beq_eq_false_iff_ne.mpr hbyte
      rw [hbeq, Bool.false_and, Bool.false_and]

theorem isLoneEquals_eq (h : Part part whole d last) (hpos : part.Covers last pos) :
    whole.isLoneEquals (d + pos) = part.isLoneEquals pos := by
  rw [isLoneEquals, isLoneEquals, h.byte?_eq hpos, h.any_byteBefore? hpos isOperatorByte (by decide)]
  by_cases hbyte : part.byte? pos = some '='.toUInt8
  · rw [Nat.add_assoc, h.byte?_eq (h.next_of_byte hbyte (by decide))]
  · have hbeq : (part.byte? pos == some '='.toUInt8) = false := beq_eq_false_iff_ne.mpr hbyte
    rw [hbeq, Bool.false_and, Bool.false_and, Bool.false_and, Bool.false_and]

/-! ## Forward searches -/

/-- A search that stops at line feeds. -/
theorem skipWhile_eq (h : Part part whole d last) (test : UInt8 → Bool)
    (htest : test '\n'.toUInt8 = false) (hpos : part.Covers last pos) :
    whole.skipWhile test (d + pos) = d + part.skipWhile test pos ∧
      part.Covers last (part.skipWhile test pos) := by
  fun_induction skipWhile part test pos with
  | case1 pos hlt ht ih =>
    rw [skipWhile_cons (h.after_eq hlt), if_pos ht]
    refine ih (h.next_of_byte (Array.getElem?_eq_getElem hlt) fun heq => ?_)
    rw [heq, htest] at ht
    cases ht
  | case2 pos hlt ht =>
    rw [skipWhile_cons (h.after_eq hlt), if_neg ht]
    exact ⟨rfl, hpos⟩
  | case3 pos hlt =>
    have hnone := (h.byte?_eq hpos).trans (byte?_eq_none (Nat.le_of_not_lt hlt))
    rw [skipWhile, dif_neg (Nat.not_lt.mpr (Array.getElem?_eq_none_iff.mp hnone))]
    exact ⟨rfl, hpos⟩

theorem skipInlineSpace_eq (h : Part part whole d last) (hpos : part.Covers last pos) :
    whole.skipInlineSpace (d + pos) = d + part.skipInlineSpace pos ∧
      part.Covers last (part.skipInlineSpace pos) :=
  h.skipWhile_eq isInlineSpace (by decide) hpos

theorem lineEnd_eq (h : Part part whole d last) (hpos : pos < part.size) :
    whole.lineEnd (d + pos) = d + part.lineEnd pos ∧ part.Covers last (part.lineEnd pos) := by
  have hle := Nat.le_of_lt hpos
  have hpart := skipWhile_le part (· != '\n'.toUInt8) pos hle
  have hwhole := skipWhile_le whole (· != '\n'.toUInt8) (d + pos)
    (Nat.le_trans (Nat.add_le_add_left hle d) h.fits)
  rw [lineEnd, lineEnd, Nat.min_eq_left hpart, Nat.min_eq_left hwhole]
  exact h.skipWhile_eq _ (by decide) (Or.inl hpos)

theorem identEnd?_eq (h : Part part whole d last) (hpos : part.Covers last pos) :
    whole.identEnd? (d + pos) = (part.identEnd? pos).map (d + ·) ∧
      ∀ e, part.identEnd? pos = some e → part.Covers last e := by
  unfold identEnd?
  rw [h.byte?_eq hpos]
  cases hbyte : part.byte? pos with
  | none => simp
  | some b =>
    by_cases hstart : isIdentStart b
    · have hnext := h.next_of_byte hbyte (by rintro rfl; exact absurd hstart (by decide))
      obtain ⟨heq, hcovers⟩ := h.skipWhile_eq isIdentByte (by decide) hnext
      rw [← Nat.add_assoc] at heq
      simp only [hstart, ↓reduceIte, Option.map_some, heq, Option.some.injEq, true_and]
      rintro e rfl
      exact hcovers
    · simp [hstart]

/-! ## Texts -/

theorem extract_eq (h : Part part whole d last) {first stop : Nat} (hstop : stop ≤ part.size) :
    whole.bytes.extract (d + first) (d + stop) = part.bytes.extract first stop := by
  have hfits : d + stop ≤ whole.bytes.size := Nat.le_trans (Nat.add_le_add_left hstop d) h.fits
  have hstop' : stop ≤ part.bytes.size := hstop
  refine Array.ext_getElem? fun i => ?_
  rw [Array.getElem?_extract, Array.getElem?_extract, Nat.min_eq_left hfits, Nat.min_eq_left hstop',
    Nat.add_sub_add_left]
  split
  · next hlt =>
    rw [Nat.add_assoc]
    exact h.byte?_eq (Or.inl (by unfold size; omega))
  · rfl

theorem slice_eq (h : Part part whole d last) {first stop : Nat} (hstop : stop ≤ part.size) :
    whole.slice (d + first) (d + stop) = part.slice first stop := by
  have hfits : d + stop ≤ whole.size := Nat.le_trans (Nat.add_le_add_left hstop d) h.fits
  simp only [slice, h.extract_eq hstop, hstop, hfits, Nat.add_le_add_iff_left]

theorem identAt?_eq (h : Part part whole d last) (hpos : part.Covers last pos) :
    whole.identAt? (d + pos) = (part.identAt? pos).map fun (name, e) => (name, d + e) := by
  rw [identAt?, identAt?, (h.identEnd?_eq hpos).1]
  cases hend : part.identEnd? pos with
  | none => rfl
  | some e => simp [h.slice_eq (identEnd?_bounds hend).2]

theorem covers_identAt? (h : Part part whole d last) {name : String} (hid : part.identAt? pos = some (name, e)) :
    part.Covers last e := by
  have hpos := Nat.lt_of_lt_of_le (identAt?_bounds hid).1 (identAt?_bounds hid).2
  exact (h.identEnd?_eq (Or.inl hpos)).2 e (identEnd?_of_identAt? hid)

/-! ## Pieces -/

theorem commentEnd?_eq (h : Part part whole d last) (hpos : part.Covers last pos) :
    whole.commentEnd? .python (d + pos) = (part.commentEnd? .python pos).map (d + ·) ∧
      ∀ e, part.commentEnd? .python pos = some e → part.Covers last e := by
  simp only [commentEnd?, Lexicon.python]
  rw [h.startsWith_eq (by simp) (by simp) hpos]
  by_cases hs : part.startsWith pos ['#'.toUInt8]
  · obtain ⟨heq, hcovers⟩ := h.lineEnd_eq (byte?_eq_some_lt (startsWith_cons hs))
    simp only [hs, ↓reduceIte, Option.map_some, heq, Option.some.injEq, true_and]
    rintro e rfl
    exact hcovers
  · simp [hs]

/-- What ends with the part is not closed in it. -/
theorem ends_size (h : Part part whole d last) (hle : part.size ≤ pos) (hpos : min (d + pos) whole.size ≤ e')
    (he' : e' ≤ whole.size) : part.Ends d last part.size e' := by
  have hfits := h.fits
  by_cases hlast : last
  · have hsize := h.size_eq hlast
    exact Or.inl ⟨Or.inr hlast, by omega⟩
  · exact Or.inr ⟨hlast, rfl, by omega⟩

theorem ends_quotedEnd (h : Part part whole d last) (quote : UInt8) (pos : Nat) :
    part.Ends d last (part.quotedEnd quote pos) (whole.quotedEnd quote (d + pos)) := by
  fun_induction quotedEnd part quote pos with
  | case1 pos hlt hslash ih =>
    rw [quotedEnd_cons (h.after_eq hlt), if_pos hslash]
    exact ih
  | case2 pos hlt hslash hfeed =>
    rw [quotedEnd_cons (h.after_eq hlt), if_neg hslash, if_pos hfeed]
    exact Or.inl ⟨Or.inl hlt, rfl⟩
  | case3 pos hlt hslash hfeed hquote =>
    rw [quotedEnd_cons (h.after_eq hlt), if_neg hslash, if_neg hfeed, if_pos hquote]
    exact Or.inl ⟨h.next_of_byte (Array.getElem?_eq_getElem hlt) (by simpa using hfeed), rfl⟩
  | case4 pos hlt hslash hfeed hquote ih =>
    rw [quotedEnd_cons (h.after_eq hlt), if_neg hslash, if_neg hfeed, if_neg hquote]
    exact ih
  | case5 pos hlt =>
    have hbounds := quotedEnd_bounds whole quote (d + pos)
    exact h.ends_size (Nat.le_of_not_lt hlt) hbounds.1 hbounds.2

theorem ends_tripleQuotedEnd (h : Part part whole d last) {quote : UInt8} (hq : quote ≠ '\n'.toUInt8) (pos : Nat) :
    part.Ends d last (part.tripleQuotedEnd quote pos) (whole.tripleQuotedEnd quote (d + pos)) := by
  have hstarts {pos : Nat} (hlt : pos < part.bytes.size) : whole.startsWith (d + pos) [quote, quote, quote] =
      part.startsWith pos [quote, quote, quote] :=
    h.startsWith_eq (by simp) (by simp [hq]) (Or.inl hlt)
  fun_induction tripleQuotedEnd part quote pos with
  | case1 pos hlt hslash ih =>
    rw [tripleQuotedEnd_cons (h.after_eq hlt), if_pos hslash]
    exact ih
  | case2 pos hlt hslash hs =>
    rw [tripleQuotedEnd_cons (h.after_eq hlt), if_neg hslash, hstarts hlt, if_pos hs]
    -- the last of the three quotes is no line feed
    simp only [startsWith, Bool.and_eq_true, beq_iff_eq] at hs
    exact Or.inl ⟨h.next_of_byte hs.2.2.1 hq, rfl⟩
  | case3 pos hlt hslash hs ih =>
    rw [tripleQuotedEnd_cons (h.after_eq hlt), if_neg hslash, hstarts hlt, if_neg hs]
    exact ih
  | case4 pos hlt =>
    have hbounds := tripleQuotedEnd_bounds whole quote (d + pos)
    exact h.ends_size (Nat.le_of_not_lt hlt) hbounds.1 hbounds.2

theorem ends_ordinaryEnd (h : Part part whole d last) (lex : Lexicon) {quote : UInt8} (hq : quote ≠ '\n'.toUInt8)
    (hpos : part.Covers last pos) :
    part.Ends d last (part.ordinaryEnd lex quote pos) (whole.ordinaryEnd lex quote (d + pos)) := by
  rw [ordinaryEnd, ordinaryEnd, h.startsWith_eq (by simp) (by simp [hq]) hpos]
  split
  · exact h.ends_tripleQuotedEnd hq (pos + 3)
  · exact h.ends_quotedEnd quote (pos + 1)

/-- **A literal ends at the same place**, or beyond the part. -/
theorem ends_literalEnd? (h : Part part whole d last) (hpos : part.Covers last pos) :
    Option.Rel (part.Ends d last) (part.literalEnd? .python pos) (whole.literalEnd? .python (d + pos)) := by
  have hseparator (src : Source) (quote : UInt8) (pos : Nat) : src.isDigitSeparator .python quote pos = false := by
    simp [isDigitSeparator, Lexicon.python]
  have hraw (src : Source) (quote : UInt8) (pos : Nat) : src.opensRaw .python quote pos = false := by
    simp [opensRaw, Lexicon.python]
  rw [literalEnd?, literalEnd?, h.byte?_eq hpos]
  cases hbyte : part.byte? pos with
  | none => exact .none
  | some quote =>
    dsimp only
    rw [hseparator, hseparator, hraw, hraw]
    split
    · exact .none
    · next hquote =>
      refine .some (h.ends_ordinaryEnd .python ?_ hpos)
      rintro rfl
      exact hquote (by decide)

theorem ends_continuationEnd? (h : Part part whole d last) (hpos : part.Covers last pos) :
    Option.Rel (part.Ends d last) (part.continuationEnd? .python pos) (whole.continuationEnd? .python (d + pos)) := by
  have hends {n : Nat} (hle : pos + n ≤ part.size) : part.Ends d last (pos + n) (d + pos + n) := by
    rw [Nat.add_assoc]
    exact Reaches.ends (Or.inl hle)
  rw [continuationEnd?, continuationEnd?, h.byte?_eq hpos]
  by_cases hslash : part.byte? pos = some '\\'.toUInt8
  · have hnext := h.next_of_byte hslash (by decide)
    have hreturn : ∀ b ∈ ['\r'.toUInt8, '\n'.toUInt8].dropLast, b ≠ '\n'.toUInt8 := by
      intro b hb
      rw [List.mem_singleton.mp hb]
      decide
    rw [Nat.add_assoc, h.startsWith_eq (by simp) hreturn hnext, h.byte?_eq hnext]
    split
    · split
      · next hs => exact .some (hends (startsWith_le hs))
      · split
        · next hfeed => exact .some (hends (byte?_eq_some_lt (beq_iff_eq.mp hfeed)))
        · exact .none
    · exact .none
  · rw [beq_eq_false_iff_ne.mpr hslash, Bool.and_false]
    exact .none

/-- One piece, as a part has it and as the whole has it. -/
inductive Pieces (part : Source) (d : Nat) (last : Prop) : Piece → Piece → Prop
  | comment {e e' : Nat} (h : part.Ends d last e e') : Pieces part d last (.comment e) (.comment e')
  | literal {e e' : Nat} (h : part.Ends d last e e') : Pieces part d last (.literal e) (.literal e')
  | continuation {e e' : Nat} (h : part.Ends d last e e') : Pieces part d last (.continuation e) (.continuation e')
  | byte (b : UInt8) : Pieces part d last (.byte b) (.byte b)

theorem pieces_pieceAt? (h : Part part whole d last) (hpos : part.Covers last pos) :
    Option.Rel (Pieces part d last) (part.pieceAt? .python pos) (whole.pieceAt? .python (d + pos)) := by
  have hcomment := h.commentEnd?_eq hpos
  rw [pieceAt?, pieceAt?, h.byte?_eq hpos, hcomment.1]
  cases hbyte : part.byte? pos with
  | none => exact .none
  | some b =>
    cases hc : part.commentEnd? .python pos with
    | some e => exact .some (.comment (Or.inl ⟨hcomment.2 e hc, rfl⟩))
    | none =>
      have hliteral := h.ends_literalEnd? hpos
      have hjoin := h.ends_continuationEnd? hpos
      generalize part.literalEnd? .python pos = literal, whole.literalEnd? .python (d + pos) = literal'
        at hliteral ⊢
      generalize part.continuationEnd? .python pos = join, whole.continuationEnd? .python (d + pos) = join'
        at hjoin ⊢
      cases hliteral with
      | some hends => exact .some (.literal hends)
      | none =>
        cases hjoin with
        | some hends => exact .some (.continuation hends)
        | none => exact .some (.byte b)

/-! ## The scan of a value -/

theorem inDoubleColon_eq (h : Part part whole d last) (hbyte : part.byte? pos = some ':'.toUInt8) :
    whole.inDoubleColon (d + pos) = part.inDoubleColon pos := by
  rw [inDoubleColon, inDoubleColon, Nat.add_assoc, h.byte?_eq (h.next_of_byte hbyte (by decide)),
    h.beq_byteBefore? (covers_of_byte hbyte) (by decide)]

section Scan

variable {stops : Stops} {starts starts' : Nat → Bool} {closers : List UInt8}

theorem isTerminator_eq (h : Part part whole d last) (hcomma : stops.declaratorComma = false) {b : UInt8}
    (hbyte : part.byte? pos = some b) :
    whole.isTerminator .python stops b (d + pos) = part.isTerminator .python stops b pos := by
  rw [isTerminator, isTerminator, hcomma]
  by_cases hcolon : b = ':'.toUInt8
  · subst hcolon
    rw [h.inDoubleColon_eq hbyte, h.isLoneEquals_eq (covers_of_byte hbyte)]
    rfl
  · simp [hcolon, h.isLoneEquals_eq (covers_of_byte hbyte)]

/-- What a byte means, provided that the line behind a line feed is judged alike. -/
theorem verdict_eq (h : Part part whole d last) (hcomma : stops.declaratorComma = false) {b : UInt8}
    (hbyte : part.byte? pos = some b)
    (hstarts : b = '\n'.toUInt8 → closers ≠ [] → starts' (d + pos + 1) = starts (pos + 1)) :
    whole.verdict .python stops starts' closers b (d + pos) =
      (part.verdict .python stops starts closers b pos).mapError (Stop.move d) := by
  rw [verdict.eq_def, verdict.eq_def, h.isTerminator_eq hcomma hbyte]
  cases closerOf? b with
  | some c => rfl
  | none =>
    dsimp only
    by_cases hcloser : isCloser b
    · rw [if_pos hcloser, if_pos hcloser]
      cases closers with
      | nil => rfl
      | cons c rest => dsimp only; split <;> rfl
    · rw [if_neg hcloser, if_neg hcloser]
      by_cases hfeed : b = '\n'.toUInt8
      · cases closers with
        | nil =>
          dsimp only [List.isEmpty_nil]
          split
          · next hfalse => cases hfalse
          · split <;> rfl
        | cons c rest =>
          rw [hstarts hfeed (by simp)]
          split
          · split <;> rfl
          · split <;> rfl
      · simp only [beq_eq_false_iff_ne.mpr hfeed, Bool.false_and]
        split
        · rfl
        · split <;> rfl

/-- A scan that does not come to the end of the part goes on in it. -/
theorem covers_of_scan {start limit codeEnd : Nat} (hends : part.Ends d last e e')
    (hend : (part.scanFrom .python stops starts start limit closers e codeEnd).stop = .endOfText → last) :
    part.Covers last e ∧ e' = d + e := by
  rcases hends with h | ⟨hlast, rfl, -⟩
  · exact h
  · refine absurd (hend ?_) hlast
    rw [scanFrom_of_end (Nat.le_refl part.size)]

/-- **The scan of a value goes the same way in a part as in the whole**, unless it comes to the end of a part that
is not the last one. -/
theorem scanFrom_eq (h : Part part whole d last) (hcomma : stops.declaratorComma = false)
    (hstarts : ∀ line, part.Covers last line → starts' (d + line) = starts line)
    (hout : starts part.size = false) {start limit codeEnd : Nat} (hpos : part.Covers last pos)
    (hend : (part.scanFrom .python stops starts start limit closers pos codeEnd).stop = .endOfText → last) :
    whole.scanFrom .python stops starts' (d + start) limit closers (d + pos) (d + codeEnd) =
      (part.scanFrom .python stops starts start limit closers pos codeEnd).move d := by
  fun_induction scanFrom .python part stops starts start limit closers pos codeEnd with
  | case1 closers pos codeEnd hnone =>
    have hnone' := eq_none_of_rel (hnone ▸ h.pieces_pieceAt? hpos)
    rw [scanFrom_eq_match, hnone']
    rfl
  | case2 closers pos codeEnd piece hp hlimit =>
    obtain ⟨piece', hp', -⟩ := exists_of_rel (hp ▸ h.pieces_pieceAt? hpos)
    rw [scanFrom_eq_match, hp', Nat.add_sub_add_left]
    exact if_pos hlimit
  | case3 closers pos codeEnd hlimit e hp _ ih =>
    obtain ⟨_, hp', hpieces⟩ := exists_of_rel (hp ▸ h.pieces_pieceAt? hpos)
    cases hpieces with
    | comment hends =>
      obtain ⟨hcovers, rfl⟩ := covers_of_scan hends hend
      rw [scanFrom_eq_match, hp', Nat.add_sub_add_left]
      exact (if_neg hlimit).trans (ih hcovers hend)
  | case4 closers pos codeEnd hlimit e hp _ ih =>
    obtain ⟨_, hp', hpieces⟩ := exists_of_rel (hp ▸ h.pieces_pieceAt? hpos)
    cases hpieces with
    | literal hends =>
      obtain ⟨hcovers, rfl⟩ := covers_of_scan hends hend
      rw [scanFrom_eq_match, hp', Nat.add_sub_add_left]
      exact (if_neg hlimit).trans (ih hcovers hend)
  | case5 closers pos codeEnd hlimit e hp _ ih =>
    obtain ⟨_, hp', hpieces⟩ := exists_of_rel (hp ▸ h.pieces_pieceAt? hpos)
    cases hpieces with
    | continuation hends =>
      obtain ⟨hcovers, rfl⟩ := covers_of_scan hends hend
      rw [scanFrom_eq_match, hp', Nat.add_sub_add_left]
      exact (if_neg hlimit).trans (ih hcovers hend)
  | case6 closers pos codeEnd hlimit b hp stop hv =>
    obtain ⟨hbyte, -⟩ := pieceAt?_eq_byte hp
    obtain ⟨_, hp', hpieces⟩ := exists_of_rel (hp ▸ h.pieces_pieceAt? hpos)
    cases hpieces with
    | byte b =>
      -- with a bracket open, the line feed at the end of the part is no stop
      have hline : b = '\n'.toUInt8 → closers ≠ [] → starts' (d + pos + 1) = starts (pos + 1) := by
        rintro rfl hne
        rcases hpos.succ.covers_or with hcovers | ⟨-, heq⟩
        · exact hstarts _ hcovers
        · rw [verdict_of_feed hne (heq ▸ hout)] at hv
          cases hv
      rw [scanFrom_eq_match, hp', Nat.add_sub_add_left]
      dsimp only
      rw [if_neg hlimit, h.verdict_eq hcomma hbyte hline, hv]
      rfl
  | case7 closers pos codeEnd hlimit b hp closers' hv _ ih =>
    obtain ⟨hbyte, -⟩ := pieceAt?_eq_byte hp
    obtain ⟨_, hp', hpieces⟩ := exists_of_rel (hp ▸ h.pieces_pieceAt? hpos)
    cases hpieces with
    | byte b =>
      obtain ⟨hcovers, -⟩ := covers_of_scan (d := d) hpos.succ.ends hend
      rw [scanFrom_eq_match, hp', Nat.add_sub_add_left]
      dsimp only
      rw [if_neg hlimit, h.verdict_eq hcomma hbyte fun _ _ => hstarts _ hcovers, hv]
      dsimp only [Except.mapError]
      by_cases hblank : isAsciiBlank b = true
      · simp only [hblank, ↓reduceIte, ↓reduceDIte] at ih hend ⊢
        exact ih hcovers hend
      · simp only [hblank, Bool.false_eq_true, ↓reduceIte, ↓reduceDIte] at ih hend ⊢
        exact ih hcovers hend

end Scan

/-! ## The text of a value -/

theorem blankedEnd?_eq (h : Part part whole d last) (hpos : part.Covers last pos) :
    whole.blankedEnd? .python (d + pos) = (part.blankedEnd? .python pos).map (d + ·) := by
  have hjoins : whole.joinsLines .python (d + pos) = part.joinsLines .python pos := by
    rw [joinsLines, joinsLines, h.byte?_eq hpos]
    by_cases hslash : part.byte? pos = some '\\'.toUInt8
    · rw [Nat.add_assoc, h.byte?_eq (h.next_of_byte hslash (by decide))]
    · rw [beq_eq_false_iff_ne.mpr hslash, Bool.and_false, Bool.false_and, Bool.false_and]
  rw [blankedEnd?, blankedEnd?, (h.commentEnd?_eq hpos).1, hjoins]
  cases part.commentEnd? .python pos with
  | some e => rfl
  | none =>
    dsimp only [Option.map_none]
    split <;> rfl

/-- **The text of a value** is the same in a part and in the whole. -/
theorem codeTextFrom_eq (h : Part part whole d last) {stop chunk : Nat} (hstop : stop ≤ part.size)
    (hchunk : chunk ≤ part.size) :
    whole.codeTextFrom .python (d + stop) (d + chunk) (d + pos) = part.codeTextFrom .python stop chunk pos := by
  have hend {chunk : Nat} (hchunk : chunk ≤ part.size) :
      whole.slice (d + chunk) (max (d + stop) (d + chunk)) = part.slice chunk (max stop chunk) := by
    rw [Nat.add_max_add_left]
    exact h.slice_eq (Nat.max_le.mpr ⟨hstop, hchunk⟩)
  fun_induction codeTextFrom .python part stop chunk pos with
  | case1 chunk pos hlt e he ih =>
    have hpos : part.Covers last pos := Or.inl (Nat.lt_of_lt_of_le hlt hstop)
    obtain ⟨e', he', hends⟩ := exists_of_rel (he ▸ h.ends_literalEnd? hpos)
    rw [codeTextFrom_of_literal (Nat.add_lt_add_left hlt d) he']
    rcases hends with ⟨-, rfl⟩ | ⟨-, rfl, hbeyond⟩
    · exact ih hchunk
    · -- the literal goes on behind the part, and so behind the value
      rw [codeTextFrom_of_le hstop, codeTextFrom_of_le (Nat.le_trans (Nat.add_le_add_left hstop d) hbeyond)]
      exact hend hchunk
  | case2 chunk pos hlt hliteral e he ih =>
    have hpos : part.Covers last pos := Or.inl (Nat.lt_of_lt_of_le hlt hstop)
    rw [codeTextFrom_of_lt (Nat.add_lt_add_left hlt d) (eq_none_of_rel (hliteral ▸ h.ends_literalEnd? hpos)),
      h.blankedEnd?_eq hpos, he]
    dsimp only [Option.map_some]
    rw [Nat.add_min_add_left, h.slice_eq (Nat.le_trans (Nat.le_of_lt hlt) hstop),
      ih (Nat.le_trans (Nat.min_le_right e stop) hstop)]
  | case3 chunk pos hlt hliteral hblanked ih =>
    have hpos : part.Covers last pos := Or.inl (Nat.lt_of_lt_of_le hlt hstop)
    rw [codeTextFrom_of_lt (Nat.add_lt_add_left hlt d) (eq_none_of_rel (hliteral ▸ h.ends_literalEnd? hpos)),
      h.blankedEnd?_eq hpos, hblanked]
    exact ih hchunk
  | case4 chunk pos hle =>
    rw [codeTextFrom_of_le (Nat.add_le_add_left (Nat.le_of_not_lt hle) d)]
    exact hend hchunk

theorem codeText_eq (h : Part part whole d last) {start stop : Nat} (hstart : start ≤ part.size)
    (hstop : stop ≤ part.size) :
    whole.codeText .python (d + start) (d + stop) = part.codeText .python start stop :=
  h.codeTextFrom_eq hstop hstart

/-! ## Lines -/

theorem lineStartBelow_eq (h : Part part whole d last) (hpos : pos ≤ part.size) :
    whole.lineStartBelow (d + pos) = d + part.lineStartBelow pos := by
  induction pos with
  | zero =>
    rcases h.front with rfl | hfeed
    · rfl
    · cases d with
      | zero => rfl
      | succ d =>
        have hbyte : whole.byte? d = some '\n'.toUInt8 := hfeed
        simp [lineStartBelow, hbyte]
  | succ pos ih =>
    rw [← Nat.add_assoc, lineStartBelow, lineStartBelow, h.byte?_eq (Or.inl hpos)]
    split
    · rw [Nat.add_assoc]
    · exact ih (Nat.le_of_succ_le hpos)

theorem indentation_eq (h : Part part whole d last) (hpos : pos < part.size) :
    whole.indentation (d + pos) = part.indentation pos := by
  have hle := Nat.le_of_lt hpos
  have hstart : part.Covers last (part.lineStartBelow pos) :=
    Or.inl (Nat.lt_of_le_of_lt (lineStartBelow_le part pos) hpos)
  rw [indentation, indentation, lineStart, lineStart, Nat.min_eq_left hle,
    Nat.min_eq_left (Nat.le_trans (Nat.add_le_add_left hle d) h.fits), h.lineStartBelow_eq hle,
    (h.skipInlineSpace_eq hstart).1, Nat.add_sub_add_left]

end Part
end Source
end VarCensus
