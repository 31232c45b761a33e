import VarCensus.Proofs.AssignedValues
import VarCensus.Proofs.LineRecovery
import VarCensus.Proofs.PlacedText
import VarCensus.Proofs.PlainReading

/-!
# Recorded values are faithful

The text of a value is made in two passes over the source that know nothing of each other: a scan finds where the
value ends, and a copy of the stretch up to there leaves out comments and joined line ends, chunk by chunk. Each pass
cuts the source into pieces in its own way, and the result is collapsed. What it should be is said here without
either of them. `layerAt` reads on from the start of the value and says of a position whether it belongs to a
comment, to a literal or to the code, and `leavesOut` says by that what a value leaves out.

`unblanked_codeTextFrom` follows the copy and `hides_behind` the scan. Both passes move by steps of one plain reading
(`Reads`), and that is why they agree on what a position belongs to. Together they give `extract_value_faithful`:
no character is lost, added or moved.
-/

namespace VarCensus
namespace Source

open Text

variable {text : String} {lex : Lexicon} {src : Source} {pos start stop : Nat}

/-! ## Comments, literals and code -/

/-- What a position belongs to. -/
inductive Layer where
  | comment
  | literal
  | code
deriving DecidableEq, Repr

/-- What the position `target` belongs to when a source is read from `pos` on: the first comment or literal that
reaches beyond it, or else code. -/
def layerAt (lex : Lexicon) (src : Source) (target pos : Nat) : Layer :=
  match _hc : src.commentEnd? lex pos with
  | some e => if target < e then .comment else src.layerAt lex target e
  | none =>
    match _hl : src.literalEnd? lex pos with
    | some e => if target < e then .literal else src.layerAt lex target e
    | none => if target ≤ pos then .code else src.layerAt lex target (pos + 1)
termination_by target - pos
decreasing_by
  · have := commentEnd?_bounds _hc
    omega
  · have := literalEnd?_bounds _hl
    omega
  · omega

/-- Whether a value that starts at `start` leaves out what stands at `target`: a comment, or a backslash in the code
that joins two lines. -/
def leavesOut (lex : Lexicon) (src : Source) (start target : Nat) : Bool :=
  match src.layerAt lex target start with
  | .comment => true
  | .literal => false
  | .code => src.joinsLines lex target

/-- Whether a value that starts at `start` shows a character other than a blank. -/
def shows (lex : Lexicon) (src : Source) (start : Nat) (c : PlacedChar) : Bool :=
  !isBlank c.char && !src.leavesOut lex start c.pos

theorem commentEnd?_of_literalEnd? {e : Nat} (h : src.literalEnd? lex pos = some e) :
    src.commentEnd? lex pos = none := by
  unfold literalEnd? at h
  split at h
  · cases h
  · next quote hb =>
    split at h
    · cases h
    · next hquote =>
      refine commentEnd?_of_byte hb ?_ ?_
      · rintro rfl
        exact hquote (by decide)
      · rintro rfl
        exact hquote (by decide)

theorem layerAt_of_comment {target e : Nat} (h : src.commentEnd? lex pos = some e) :
    src.layerAt lex target pos = if target < e then .comment else src.layerAt lex target e := by
  rw [layerAt]
  split
  · next e' he' =>
    rw [h] at he'
    cases he'
    rfl
  · next hnone =>
    rw [h] at hnone
    cases hnone

theorem layerAt_of_literal {target e : Nat} (h : src.literalEnd? lex pos = some e) :
    src.layerAt lex target pos = if target < e then .literal else src.layerAt lex target e := by
  rw [layerAt]
  split
  · next e' he' =>
    rw [commentEnd?_of_literalEnd? h] at he'
    cases he'
  · split
    · next e' he' =>
      rw [h] at he'
      cases he'
      rfl
    · next hnone =>
      rw [h] at hnone
      cases hnone

theorem layerAt_of_code {target : Nat} (h : src.enclosedEnd? lex pos = none) :
    src.layerAt lex target pos = if target ≤ pos then .code else src.layerAt lex target (pos + 1) := by
  unfold enclosedEnd? at h
  rw [layerAt]
  split
  · next e he =>
    rw [he] at h
    cases h
  · next hc =>
    rw [hc] at h
    have hl : src.literalEnd? lex pos = none := h
    split
    · next e he =>
      rw [hl] at he
      cases he
    · rfl

/-! ## One step of a reading -/

theorem reads_comment {e : Nat} (h : src.commentEnd? lex pos = some e) : Reads lex src pos e := by
  have hbounds := commentEnd?_bounds h
  exact ⟨Nat.lt_of_lt_of_le hbounds.1 hbounds.2, by simp [lexNext, enclosedEnd?, h]⟩

theorem reads_literal {e : Nat} (h : src.literalEnd? lex pos = some e) : Reads lex src pos e := by
  have hbounds := literalEnd?_bounds h
  exact ⟨Nat.lt_of_lt_of_le hbounds.1 hbounds.2, by simp [lexNext, enclosedEnd?, commentEnd?_of_literalEnd? h, h]⟩

theorem reads_code {b : UInt8} (hb : src.byte? pos = some b) (h : src.enclosedEnd? lex pos = none) :
    Reads lex src pos (pos + 1) :=
  ⟨byte?_eq_some_lt hb, by simp [lexNext, h]⟩

/-- What lies ahead of a step belongs to the same from either end of it. -/
theorem layerAt_of_reads {target q : Nat} (h : Reads lex src pos q) (hle : q ≤ target) :
    src.layerAt lex target pos = src.layerAt lex target q := by
  obtain ⟨-, rfl⟩ := h
  unfold lexNext at hle ⊢
  cases he : src.enclosedEnd? lex pos with
  | none =>
    rw [he, Option.getD_none] at hle
    rw [layerAt_of_code he, if_neg (Nat.not_le.mpr hle)]
    rfl
  | some e =>
    rw [he, Option.getD_some] at hle
    rw [Option.getD_some]
    unfold enclosedEnd? at he
    split at he
    · next hc =>
      cases he
      rw [layerAt_of_comment hc, if_neg (Nat.not_lt.mpr hle)]
    · rw [layerAt_of_literal he, if_neg (Nat.not_lt.mpr hle)]

theorem leavesOut_of_reading {target q : Nat} (h : Relation.ReflTransGen (Reads lex src) pos q) (hle : q ≤ target) :
    src.leavesOut lex pos target = src.leavesOut lex q target := by
  induction h with
  | refl => rfl
  | tail _ hstep ih =>
    have hlt := (lexNext_bounds lex hstep.1).1
    rw [← hstep.2] at hlt
    rw [ih (Nat.le_trans (Nat.le_of_lt hlt) hle), leavesOut, leavesOut, layerAt_of_reads hstep hle]

/-- A reading that goes on goes on by its only step. -/
theorem reading_onward {q : Nat} (h : Relation.ReflTransGen (Reads lex src) pos stop) (hlt : pos < stop)
    (hstep : Reads lex src pos q) : Relation.ReflTransGen (Reads lex src) q stop := by
  rcases Relation.ReflTransGen.cases_head h with rfl | ⟨r, hr, hrest⟩
  · exact absurd hlt (Nat.lt_irrefl _)
  · rwa [reads_rightUnique hstep hr]

section Reading

variable {target e : Nat} (hfrom : Relation.ReflTransGen (Reads lex src) start pos) (hpos : pos ≤ target)

include hfrom hpos

theorem leavesOut_comment (h : src.commentEnd? lex pos = some e) (hlt : target < e) :
    src.leavesOut lex start target = true := by
  rw [leavesOut_of_reading hfrom hpos, leavesOut, layerAt_of_comment h, if_pos hlt]

theorem leavesOut_literal (h : src.literalEnd? lex pos = some e) (hlt : target < e) :
    src.leavesOut lex start target = false := by
  rw [leavesOut_of_reading hfrom hpos, leavesOut, layerAt_of_literal h, if_pos hlt]

theorem leavesOut_code (h : src.enclosedEnd? lex pos = none) (hlt : target < pos + 1) :
    src.leavesOut lex start target = src.joinsLines lex target := by
  rw [leavesOut_of_reading hfrom hpos, leavesOut, layerAt_of_code h, if_pos (Nat.le_of_lt_succ hlt)]

end Reading

/-! ## What a value shows -/

/-- The characters that a value shows, out of some. -/
def shown (lex : Lexicon) (src : Source) (start : Nat) (cs : List PlacedChar) : List Char :=
  (cs.filter (src.shows lex start)).map PlacedChar.char

theorem shown_append (cs ds : List PlacedChar) :
    src.shown lex start (cs ++ ds) = src.shown lex start cs ++ src.shown lex start ds := by
  rw [shown, List.filter_append, List.map_append]
  rfl

theorem shown_eq_nil {cs : List PlacedChar} (h : ∀ c ∈ cs, src.shows lex start c = false) :
    src.shown lex start cs = [] := by
  rw [shown, List.filter_eq_nil_iff.mpr fun c hc => by simp [h c hc]]
  rfl

/-- A slice in which nothing is left out shows its characters. -/
theorem unblanked_slice {p q : Nat} (hpq : p ≤ q) (hp : String.Pos.Raw.IsValid text ⟨p⟩)
    (hq : String.Pos.Raw.IsValid text ⟨q⟩)
    (h : ∀ target, p ≤ target → target < q → (ofString text).leavesOut lex start target = false) :
    unblanked ((ofString text).slice p q) = (ofString text).shown lex start (between text p q) := by
  rw [unblanked, toList_slice hpq hp hq, shown, List.filter_map]
  refine congrArg (List.map PlacedChar.char) (List.filter_congr fun c hc => ?_)
  obtain ⟨-, hle, hlt⟩ := mem_between.mp hc
  simp [shows, h c.pos hle hlt]

/-- A position at an edge lies between characters. -/
theorem Edge.isValid (h : (ofString text).Edge pos) (hle : pos ≤ (ofString text).size) :
    String.Pos.Raw.IsValid text ⟨pos⟩ := by
  cases hb : (ofString text).byte? pos with
  | none =>
    have hsize : (ofString text).size ≤ pos := by
      rw [← Nat.not_lt, ← byte?_isSome_iff, hb]
      exact Bool.false_ne_true
    have hpos : pos = text.utf8ByteSize := Nat.le_antisymm hle hsize
    exact hpos ▸ String.Pos.Raw.isValid_rawEndPos
  | some b =>
    cases hident : isIdentByte b with
    | true => exact isValid_of_edge h hb hident
    | false => exact isValid_of_ascii hb (ascii_of_isIdentByte_eq_false hident)

/-! ## Stretches of which nothing is shown -/

/-- A value that starts at `start` shows no character between two positions. -/
def Hides (lex : Lexicon) (text : String) (start first last : Nat) : Prop :=
  ∀ c ∈ between text first last, (ofString text).shows lex start c = false

theorem Hides.self (pos : Nat) : Hides lex text start pos pos := by
  intro c hc
  rw [between_self] at hc
  cases hc

theorem Hides.trans {first mid last : Nat} (h : Hides lex text start first mid) (h' : Hides lex text start mid last) :
    Hides lex text start first last := by
  intro c hc
  obtain ⟨hmem, hge, hlt⟩ := mem_between.mp hc
  by_cases hmid : c.pos < mid
  · exact h c (mem_between.mpr ⟨hmem, hge, hmid⟩)
  · exact h' c (mem_between.mpr ⟨hmem, Nat.not_lt.mp hmid, hlt⟩)

theorem hides_comment {e : Nat} (hfrom : Relation.ReflTransGen (Reads lex (ofString text)) start pos)
    (h : (ofString text).commentEnd? lex pos = some e) : Hides lex text start pos e := by
  intro c hc
  obtain ⟨-, hge, hlt⟩ := mem_between.mp hc
  simp [shows, leavesOut_comment hfrom hge h hlt]

theorem hides_joined (hfrom : Relation.ReflTransGen (Reads lex (ofString text)) start pos)
    (hnone : (ofString text).enclosedEnd? lex pos = none) (h : (ofString text).joinsLines lex pos = true) :
    Hides lex text start pos (pos + 1) := by
  intro c hc
  obtain ⟨-, hge, hlt⟩ := mem_between.mp hc
  rw [shows, leavesOut_code hfrom hge hnone hlt, Nat.le_antisymm (Nat.le_of_lt_succ hlt) hge, h, Bool.not_true,
    Bool.and_false]

theorem hides_blank {b : UInt8} (hb : (ofString text).byte? pos = some b) (h : isAsciiBlank b = true) :
    Hides lex text start pos (pos + 1) := by
  intro c hc
  obtain ⟨hmem, hge, hlt⟩ := mem_between.mp hc
  rw [← Nat.le_antisymm (Nat.le_of_lt_succ hlt) hge] at hb
  simp [shows, isBlank_of_byte? hmem hb h]

theorem reads_blank {b : UInt8} (hb : src.byte? pos = some b) (h : isAsciiBlank b = true) :
    Reads lex src pos (pos + 1) :=
  reads_code hb (enclosedEnd?_eq_none hb (isPlain_of_isAsciiBlank h).1)

/-- Of a joined line end the backslash is left out, and the rest is blank. -/
theorem hides_continuation {e : Nat} (hfrom : Relation.ReflTransGen (Reads lex (ofString text)) start pos)
    (hnone : (ofString text).enclosedEnd? lex pos = none) (h : (ofString text).continuationEnd? lex pos = some e) :
    Relation.ReflTransGen (Reads lex (ofString text)) start e ∧ Hides lex text start pos e := by
  unfold continuationEnd? at h
  split at h
  · next hslash =>
    simp only [Bool.and_eq_true, beq_iff_eq] at hslash
    have hfirst := hfrom.tail (reads_code hslash.2 hnone)
    have hjoined (hend : (ofString text).byte? (pos + 1) = some '\n'.toUInt8 ∨
        (ofString text).byte? (pos + 1) = some '\r'.toUInt8) : Hides lex text start pos (pos + 1) := by
      refine hides_joined hfrom hnone ?_
      simp only [joinsLines, hslash.1, hslash.2, Bool.true_and, beq_self_eq_true, Bool.or_eq_true, beq_iff_eq]
      exact hend
    split at h
    · next hreturn =>
      cases h
      simp only [startsWith, Bool.and_eq_true, beq_iff_eq] at hreturn
      obtain ⟨hreturn, hfeed, -⟩ := hreturn
      exact ⟨(hfirst.tail (reads_blank hreturn rfl)).tail (reads_blank hfeed rfl),
        ((hjoined (Or.inr hreturn)).trans (hides_blank hreturn rfl)).trans (hides_blank hfeed rfl)⟩
    · split at h
      · next hfeed =>
        cases h
        have hfeed := beq_iff_eq.mp hfeed
        exact ⟨hfirst.tail (reads_blank hfeed rfl), (hjoined (Or.inl hfeed)).trans (hides_blank hfeed rfl)⟩
      · cases h
  · cases h

/-! ## The text of a value -/

/-- What the text of a value blanks out is a comment, or a byte of code that joins two lines. -/
theorem blankedEnd?_cases {e : Nat} (hliteral : src.literalEnd? lex pos = none)
    (h : src.blankedEnd? lex pos = some e) :
    src.commentEnd? lex pos = some e ∨
      src.enclosedEnd? lex pos = none ∧ src.joinsLines lex pos = true ∧ e = pos + 1 := by
  unfold blankedEnd? at h
  split at h
  · next he =>
    cases h
    exact Or.inl he
  · next hc =>
    split at h
    · next hjoins =>
      cases h
      exact Or.inr ⟨by simp [enclosedEnd?, hc, hliteral], hjoins, rfl⟩
    · cases h

/-- **The text of a value shows what is not left out.** The induction follows the copying of chunks: what has not
been copied yet is shown as it stands. -/
theorem unblanked_codeTextFrom {chunk : Nat} (hfrom : Relation.ReflTransGen (Reads lex (ofString text)) start pos)
    (hto : Relation.ReflTransGen (Reads lex (ofString text)) pos stop) (hchunk : String.Pos.Raw.IsValid text ⟨chunk⟩)
    (hstop : String.Pos.Raw.IsValid text ⟨stop⟩) (hle : chunk ≤ pos)
    (hcode : ∀ target, chunk ≤ target → target < pos → (ofString text).leavesOut lex start target = false) :
    unblanked ((ofString text).codeTextFrom lex stop chunk pos) =
      (ofString text).shown lex start (between text chunk stop) := by
  fun_induction codeTextFrom lex (ofString text) stop chunk pos with
  | case1 chunk pos hlt e he ih =>
    have hstep := reads_literal he
    refine ih (hfrom.tail hstep) (reading_onward hto hlt hstep) hchunk
      (Nat.le_trans hle (Nat.le_of_lt (literalEnd?_bounds he).1)) ?_
    intro target hge htarget
    by_cases hold : target < pos
    · exact hcode target hge hold
    · exact leavesOut_literal hfrom (Nat.not_lt.mp hold) he htarget
  | case2 chunk pos hlt hliteral e he ih =>
    have hvalid := isValid_of_blankedEnd? he
    -- the step over what is blanked out, and that nothing of it is shown
    have hover : Reads lex (ofString text) pos e ∧ (ofString text).Edge e ∧ Hides lex text start pos e := by
      rcases blankedEnd?_cases hliteral he with hc | ⟨hnone, hjoins, rfl⟩
      · exact ⟨reads_comment hc, edge_commentEnd? hc, hides_comment hfrom hc⟩
      · have hslash : (ofString text).byte? pos = some '\\'.toUInt8 := by
          simp only [joinsLines, Bool.and_eq_true, beq_iff_eq] at hjoins
          exact hjoins.1.2
        exact ⟨reads_code hslash hnone, edge_succ hslash (by decide), hides_joined hfrom hnone hjoins⟩
    obtain ⟨hstep, hedge, hhides⟩ := hover
    have hrest := reading_onward hto hlt hstep
    have hestop := le_of_reads hrest
    have hpe : pos ≤ e := Nat.le_of_lt (lt_blankedEnd? he)
    rw [Nat.min_eq_left hestop] at ih ⊢
    have hevalid := hedge.isValid (Nat.le_trans hestop hstop.le_rawEndPos)
    have hshown := ih (hfrom.tail hstep) hrest hevalid (Nat.le_refl e)
      (fun target hge htarget => absurd htarget (Nat.not_lt.mpr hge))
    have hspace : unblanked " " = [] := rfl
    rw [unblanked_append, unblanked_append, unblanked_slice hle hchunk hvalid hcode, hspace, hshown,
      ← between_append (Nat.le_trans hle hpe) hestop, ← between_append hle hpe, shown_append, shown_append,
      shown_eq_nil hhides]
  | case3 chunk pos hlt hliteral hblanked ih =>
    have hsize : pos < (ofString text).size := Nat.lt_of_lt_of_le hlt hstop.le_rawEndPos
    obtain ⟨b, hb⟩ := Option.isSome_iff_exists.mp (byte?_isSome_iff.mpr hsize)
    unfold blankedEnd? at hblanked
    split at hblanked
    · cases hblanked
    · next hc =>
      have hnone : (ofString text).enclosedEnd? lex pos = none := by simp [enclosedEnd?, hc, hliteral]
      have hjoins : (ofString text).joinsLines lex pos = false := by
        cases hj : (ofString text).joinsLines lex pos with
        | false => rfl
        | true =>
          rw [hj] at hblanked
          cases hblanked
      have hstep := reads_code hb hnone
      refine ih (hfrom.tail hstep) (reading_onward hto hlt hstep) hchunk (Nat.le_succ_of_le hle) ?_
      intro target hge htarget
      by_cases hold : target < pos
      · exact hcode target hge hold
      · rw [leavesOut_code hfrom (Nat.not_lt.mp hold) hnone htarget,
          Nat.le_antisymm (Nat.le_of_lt_succ htarget) (Nat.not_lt.mp hold)]
        exact hjoins
  | case4 chunk pos hge =>
    obtain rfl : pos = stop := Nat.le_antisymm (le_of_reads hto) (Nat.not_lt.mp hge)
    rw [Nat.max_eq_left hle]
    exact unblanked_slice hle hchunk hstop hcode

/-! ## Behind the value -/

theorem pieceAt?_eq_comment {e : Nat} (h : src.pieceAt? lex pos = some (.comment e)) :
    src.commentEnd? lex pos = some e := by
  unfold pieceAt? at h
  split at h
  · cases h
  · split at h
    · next he =>
      cases h
      exact he
    · split at h
      · cases h
      · split at h
        · cases h
        · cases h

theorem pieceAt?_eq_literal {e : Nat} (h : src.pieceAt? lex pos = some (.literal e)) :
    src.literalEnd? lex pos = some e := by
  unfold pieceAt? at h
  split at h
  · cases h
  · split at h
    · cases h
    · split at h
      · next he =>
        cases h
        exact he
      · split at h
        · cases h
        · cases h

theorem pieceAt?_eq_continuation {e : Nat} (h : src.pieceAt? lex pos = some (.continuation e)) :
    src.enclosedEnd? lex pos = none ∧ src.continuationEnd? lex pos = some e := by
  unfold pieceAt? at h
  split at h
  · cases h
  · split at h
    · cases h
    · next hc =>
      split at h
      · cases h
      · next hl =>
        split at h
        · next he =>
          cases h
          exact ⟨by simp [enclosedEnd?, hc, hl], he⟩
        · cases h

/-- **Behind the end of a value nothing is shown** until the scan stops: each piece of the value itself moves the end
to where it ends, and every other piece is a comment, a joined line end or a blank. -/
theorem hides_behind {stops : Stops} {starts : Nat → Bool} {limit codeEnd : Nat} {closers : List UInt8}
    (hstop : ((ofString text).scanFrom lex stops starts start limit closers pos codeEnd).stop ≠ .limit)
    (hfrom : Relation.ReflTransGen (Reads lex (ofString text)) start pos)
    (hend : Relation.ReflTransGen (Reads lex (ofString text)) start codeEnd)
    (hle : codeEnd ≤ pos) (hsize : pos ≤ (ofString text).size) (hhides : Hides lex text start codeEnd pos) :
    let found := (ofString text).scanFrom lex stops starts start limit closers pos codeEnd
    Relation.ReflTransGen (Reads lex (ofString text)) start found.codeEnd ∧
      found.codeEnd ≤ found.stop.pos?.getD (ofString text).size ∧
      Hides lex text start found.codeEnd (found.stop.pos?.getD (ofString text).size) := by
  intro found
  unfold found
  fun_induction scanFrom lex (ofString text) stops starts start limit closers pos codeEnd with
  | case1 closers pos codeEnd hnone =>
    obtain rfl : pos = (ofString text).size := Nat.le_antisymm hsize (size_le_of_pieceAt? hnone)
    exact ⟨hend, hle, hhides⟩
  | case2 => exact absurd rfl hstop
  | case3 closers pos codeEnd _ e hp _ ih =>
    have hc := pieceAt?_eq_comment hp
    have hbounds := commentEnd?_bounds hc
    exact ih hstop (hfrom.tail (reads_comment hc)) hend (Nat.le_trans hle (Nat.le_of_lt hbounds.1)) hbounds.2
      (hhides.trans (hides_comment hfrom hc))
  | case4 closers pos codeEnd _ e hp _ ih =>
    have hl := pieceAt?_eq_literal hp
    have hreading := hfrom.tail (reads_literal hl)
    exact ih hstop hreading hreading (Nat.le_refl e) (literalEnd?_bounds hl).2 (Hides.self e)
  | case5 closers pos codeEnd _ e hp _ ih =>
    obtain ⟨hnone, hjoined⟩ := pieceAt?_eq_continuation hp
    have hbounds := continuationEnd?_bounds hjoined
    obtain ⟨hreading, hover⟩ := hides_continuation hfrom hnone hjoined
    exact ih hstop hreading hend (Nat.le_trans hle (Nat.le_of_lt hbounds.1)) hbounds.2 (hhides.trans hover)
  | case6 closers pos codeEnd _ b hp stop hv =>
    rcases verdict_stop hv with rfl | rfl
    · exact ⟨hend, hle, hhides⟩
    · exact ⟨hend, hle, hhides⟩
  | case7 closers pos codeEnd _ b hp closers' hv _ ih =>
    obtain ⟨hb, hnone⟩ := pieceAt?_eq_byte hp
    have hreading := hfrom.tail (reads_code hb hnone)
    cases hblank : isAsciiBlank b with
    | true =>
      simp only [hblank, dite_eq_ite, ↓reduceIte] at ih hstop ⊢
      exact ih hstop hreading hend (Nat.le_succ_of_le hle) (byte?_eq_some_lt hb) (hhides.trans (hides_blank hb hblank))
    | false =>
      simp only [hblank, dite_eq_ite, Bool.false_eq_true, ↓reduceIte] at ih hstop ⊢
      exact ih hstop hreading hreading (Nat.le_refl _) (byte?_eq_some_lt hb) (Hides.self _)

end Source

/-! ## Recorded values -/

/-- Where the scan of a value stopped: at the terminator, at the bracket or line end that does not fit, or at the end
of the source. -/
def AssignedValue.last (src : Source) (a : AssignedValue) : Nat :=
  a.scan.stop.pos?.getD src.size

open Source Text

/-- A value shows the characters from its start to the stop of its scan, and none of them stand behind its end. -/
theorem ValueAt.shown {lex : Lexicon} {text : String} {limit : Nat} {r : Record} {a : AssignedValue}
    (h : ValueAt lex (ofString text) limit r a) :
    unblanked r.value = (ofString text).shown lex a.start (between text a.start (a.last (ofString text))) ∧
      Hides lex text a.start a.scan.codeEnd (a.last (ofString text)) := by
  obtain ⟨stops, starts, hscan⟩ := h.scanned
  have hfound : a.scan = (ofString text).scanFrom lex stops starts a.start limit [] a.start a.start := hscan
  have hstop := h.complete
  rw [hfound] at hstop
  obtain ⟨hreading, hle, hhides⟩ :=
    hides_behind hstop Relation.ReflTransGen.refl Relation.ReflTransGen.refl (Nat.le_refl _) h.inside (Hides.self _)
  have hend := isValid_codeEnd hstop h.inside (Or.inr rfl)
  rw [← hfound] at hreading hle hhides hend
  have hle : a.scan.codeEnd ≤ a.last (ofString text) := hle
  have hhides : Hides lex text a.start a.scan.codeEnd (a.last (ofString text)) := hhides
  refine ⟨?_, hhides⟩
  have htext := unblanked_codeTextFrom Relation.ReflTransGen.refl hreading (h.edge.isValid h.inside) hend
    (Nat.le_refl _) fun target hge hlt => absurd hlt (Nat.not_lt.mpr hge)
  rw [h.text, unblanked_collapse, ← between_append (le_of_reads hreading) hle, shown_append, shown_eq_nil hhides,
    List.append_nil]
  exact htext

/-- **Recorded values are faithful to the source.** Take any text, any bound and a recorded variable with a value
behind an equals sign. The value, its blanks apart, consists of the characters from the start of the value to where
its scan stopped, in their order: all but blanks, comments, and the backslashes in the code that stand right before
a line end. And all that stands between the end of the value and the stop of the scan is of that sort. -/
theorem extract_value_faithful {language : Language} {lex : Lexicon} (hlex : language.lexicon? = some lex)
    (limit : Nat) (document : Document) :
    ∃ records, language.extract limit document = .ok records ∧ ∀ r ∈ records, ∀ a,
      language.assignedValue? (.ofString document.text) limit r.declaredAt.offset = some a →
      let src := Source.ofString document.text
      a.scan.stop ≠ .limit ∧
      r.value.toList.filter (fun c => !isBlank c) =
        ((between document.text a.start (a.last src)).filter fun c =>
          !isBlank c.char && !src.leavesOut lex a.start c.pos).map PlacedChar.char ∧
      ∀ c ∈ between document.text a.scan.codeEnd (a.last src),
        (isBlank c.char || src.leavesOut lex a.start c.pos) = true := by
  obtain ⟨records, h⟩ := language.exists_extract hlex limit document
  refine ⟨records, h, ?_⟩
  intro r hr a ha src
  obtain ⟨hvalue, -⟩ := language.valueAt_of_mem_extract hlex h hr (Or.inl (Nat.le_refl limit)) ha
  obtain ⟨hshown, hhides⟩ := hvalue.shown
  refine ⟨hvalue.complete, hshown, ?_⟩
  intro c hc
  have hhidden := hhides c hc
  rw [shows, ← Bool.not_or, Bool.not_eq_false'] at hhidden
  exact hhidden

/-- A value with a comment, a literal that looks like one, a joined line end and a comment behind it. -/
def commentedValue : String :=
  "x = (\"# é\" + # a\n 1) \\\n + 2 # b\n"

theorem extract_value_faithful_commentedValue :
    let src := Source.ofString commentedValue
    Language.python.extract 60 ⟨commentedValue, none⟩ =
      .ok [⟨"x", "(\"# é\" + 1) + 2", .unknown, [], ⟨1, 1, 0⟩⟩] ∧
    Language.python.assignedValue? src 60 0 = some ⟨4, ⟨28, .terminator 32⟩⟩ ∧
    "(\"#é\"+1)+2".toList =
      ((between commentedValue 4 32).filter fun c =>
        !isBlank c.char && !src.leavesOut .python 4 c.pos).map PlacedChar.char ∧
    ∀ c ∈ between commentedValue 28 32, (isBlank c.char || src.leavesOut .python 4 c.pos) = true := by
  intro src
  have hlex : Language.python.lexicon? = some .python := rfl
  have hextract : Language.python.extract 60 ⟨commentedValue, none⟩ =
      .ok [⟨"x", "(\"# é\" + 1) + 2", .unknown, [], ⟨1, 1, 0⟩⟩] := congrArg Except.ok (by decide +kernel)
  have hassigned : Language.python.assignedValue? src 60 0 = some ⟨4, ⟨28, .terminator 32⟩⟩ := by decide +kernel
  obtain ⟨records, hrecords, hfaithful⟩ := extract_value_faithful hlex 60 ⟨commentedValue, none⟩
  rw [hextract] at hrecords
  cases hrecords
  obtain ⟨-, hvalue, hbehind⟩ := hfaithful _ List.mem_cons_self _ hassigned
  exact ⟨hextract, hassigned, hvalue, hbehind⟩

end VarCensus
