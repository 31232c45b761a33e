import VarCensus.Proofs.Initializers
import VarCensus.Proofs.Lookahead
import VarCensus.Proofs.ValueBoundaries

/-!
# Where assigned values stand

The value that a variable is given behind an equals sign is a stretch of the source: it starts behind the sign and
the trivia there, and a scan finds where it ends. `assignedValue?` reads that stretch once more, from the place of the
name alone. `ValueAt` ties it to the record that was found: the record has the text of the stretch, and the scan
was not cut off. So a larger bound leads to the same stretch, and how far a recorded value reaches can be said
without the bound under which it was found.

That gives `extract_span`: a recorded value is no longer than the bound, unless it is a value in Python that goes on
to the end of the text. There nothing is left that would be beyond the bound, so the last literal or byte only has
to start within it (`span_beyond_lookahead`).
-/

namespace VarCensus

/-- A value behind an equals sign: where it starts, and what a scan from there finds. -/
structure AssignedValue where
  start : Nat
  scan : ValueScan
deriving DecidableEq, Repr

namespace Source

variable {src : Source} {lex : Lexicon} {stops : Stops} {starts : Nat → Bool} {start limit pos codeEnd p : Nat}
  {closers : List UInt8}

/-! ## How far a scan reaches -/

/-- A scan that stops at a position stops within its bound, and the value ends before it. -/
theorem scanFrom_within (hle : codeEnd ≤ pos)
    (h : (src.scanFrom lex stops starts start limit closers pos codeEnd).stop.pos? = some p) :
    p - start ≤ limit ∧ (src.scanFrom lex stops starts start limit closers pos codeEnd).codeEnd ≤ p := by
  fun_induction scanFrom lex src stops starts start limit closers pos codeEnd with
  | case1 => cases h
  | case2 => cases h
  | case3 closers pos codeEnd _ e hp _ ih | case5 closers pos codeEnd _ e hp _ ih =>
    exact ih (Nat.le_trans hle (Nat.le_of_lt (pieceAt?_bounds hp).1)) h
  | case4 closers pos codeEnd _ e hp _ ih => exact ih (Nat.le_refl e) h
  | case6 closers pos codeEnd hlimit b hp stop hv =>
    have hpos : p = pos := by
      rcases verdict_stop hv with rfl | rfl
      · exact (Option.some.inj h).symm
      · exact (Option.some.inj h).symm
    exact ⟨hpos ▸ Nat.le_of_not_lt hlimit, hpos ▸ hle⟩
  | case7 closers pos codeEnd _ b hp closers' hv _ ih =>
    refine ih ?_ h
    split
    · exact Nat.le_succ_of_le hle
    · exact Nat.le_refl _

theorem Passes.within {pieces : List PlacedPiece} (h : src.Passes lex stops starts start limit closers pieces)
    {q : PlacedPiece} (hq : q ∈ pieces) : q.pos - start ≤ limit := by
  induction pieces generalizing closers with
  | nil => cases hq
  | cons first more ih =>
    rcases List.mem_cons.mp hq with rfl | hq
    · have hstop := h.1
      unfold stopAt? at hstop
      split at hstop
      · cases hstop
      · next hlimit => exact Nat.le_of_not_lt hlimit
    · exact ih h.2 hq

/-- The end of a value is where it starts, or the end of one of its pieces. -/
theorem codeEndOf_cases (start : Nat) (pieces : List PlacedPiece) :
    codeEndOf start pieces = start ∨ ∃ q ∈ pieces, q.codeEnd? = some (codeEndOf start pieces) := by
  unfold codeEndOf
  cases hlast : (pieces.filterMap PlacedPiece.codeEnd?).getLast? with
  | none =>
    rw [List.getLast?_eq_none_iff] at hlast
    exact Or.inl (by rw [hlast]; rfl)
  | some e =>
    obtain ⟨q, hq, he⟩ := List.mem_filterMap.mp (List.mem_of_getLast? hlast)
    exact Or.inr ⟨q, hq, by rw [List.getLastD_eq_getLast?, hlast]; exact he⟩

/-- **A scan that was not cut off** found a value within its bound, or one at the end of the source whose last
piece starts within it. -/
theorem scanValueUntil_span (h : (src.scanValueUntil lex stops limit starts start).stop ≠ .limit) :
    (src.scanValueUntil lex stops limit starts start).codeEnd - start ≤ limit ∨
    (src.scanValueUntil lex stops limit starts start).stop = .endOfText ∧
      ∃ q ∈ src.piecesFrom lex start,
        q.codeEnd? = some (src.scanValueUntil lex stops limit starts start).codeEnd ∧ q.pos - start ≤ limit := by
  unfold scanValueUntil at h ⊢
  have hposition {p : Nat}
      (hp : (src.scanFrom lex stops starts start limit [] start start).stop.pos? = some p) :
      (src.scanFrom lex stops starts start limit [] start start).codeEnd - start ≤ limit := by
    obtain ⟨hlimit, hend⟩ := scanFrom_within (Nat.le_refl start) hp
    omega
  cases hstop : (src.scanFrom lex stops starts start limit [] start start).stop with
  | limit => exact absurd hstop h
  | terminator p => exact Or.inl (hposition (congrArg Stop.pos? hstop))
  | unbalanced p => exact Or.inl (hposition (congrArg Stop.pos? hstop))
  | endOfText =>
    rcases src.scanFrom_cases [] start start with ⟨before, q, after, stop, -, -, hat, hscan⟩ | ⟨hpasses, hscan⟩
    · -- a scan that stops at a piece does not stop at the end
      rw [hscan] at hstop
      cases hstop
      unfold stopAt? stopAtByte? at hat
      repeat' split at hat
      all_goals cases hat
    · rw [hscan]
      rcases codeEndOf_cases start (src.piecesFrom lex start) with hend | ⟨q, hq, hend⟩
      · exact Or.inl (by rw [hend, Nat.sub_self]; exact Nat.zero_le limit)
      · exact Or.inr ⟨rfl, q, hq, hend, hpasses.within hq⟩

end Source

/-- The value of a record stands where an assignment says: the record has its text, the scan that found its end was
not cut off, and it starts inside the source, where no word runs into it. -/
structure ValueAt (lex : Lexicon) (src : Source) (limit : Nat) (r : Record) (a : AssignedValue) : Prop where
  scanned : ∃ stops starts, a.scan = src.scanValueUntil lex stops limit starts a.start
  complete : a.scan.stop ≠ .limit
  inside : a.start ≤ src.size
  edge : src.Edge a.start
  text : r.value = Text.collapse (src.codeText lex a.start a.scan.codeEnd)

namespace Dialect

open Source

variable {d : Dialect} {src : Source} {limit limit' : Nat}

/-! ## Typed declarations -/

/-- The value behind the equals sign of a variable whose name stands at `pos`, if an equals sign follows the name
and its brackets. -/
def assignedValue? (d : Dialect) (src : Source) (limit pos : Nat) : Option AssignedValue :=
  match src.identAt? pos with
  | none => none
  | some (_, e) =>
    match d.dimensions src limit (src.skipTrivia d.lexicon e) with
    | .error _ => none
    | .ok (_, after) =>
      if src.isLoneEquals after then
        let start := src.skipTrivia d.lexicon (after + 1)
        some ⟨start, src.scanValue d.lexicon valueStops limit start⟩
      else none

/-- **A declarator's value stands where its name says**, under every bound that gets as far as the one under which
the declarator was found. -/
theorem DeclaratorOf.valueAt {head : TypeHead} {r : Record} {marks : List Char} {brackets : String} {pos : Nat}
    {value : Option String} (h : d.DeclaratorOf src limit head r marks brackets pos value)
    (hfar : src.AsFar limit limit') {a : AssignedValue}
    (ha : d.assignedValue? src limit' r.declaredAt.offset = some a) :
    ValueAt d.lexicon src limit r a ∧ ∃ t, a.scan.stop = .terminator t := by
  obtain ⟨e, hid, hdim⟩ := h.named
  obtain ⟨indent, t, hgiven⟩ := h.given
  rw [assignedValue?, hid] at ha
  simp only [dimensions_of_asFar hfar hdim] at ha
  cases hgiven with
  | assigned heq hstop =>
    rw [if_pos heq] at ha
    cases ha
    have hscan : d.valueScan src limit indent pos = _ := scanValueUntil_of_terminator hstop
    rw [hscan] at hstop
    have hlimit : (src.scanValue d.lexicon valueStops limit (src.skipTrivia d.lexicon (pos + 1))).stop ≠ .limit := by
      simp [hstop]
    have hsame : src.scanValue d.lexicon valueStops limit' (src.skipTrivia d.lexicon (pos + 1)) = _ :=
      scanValueUntil_of_asFar hfar hlimit
    have hequals := byte?_of_isLoneEquals heq
    have hlands : src.Lands d.lexicon (pos + 1) (src.skipTrivia d.lexicon (pos + 1)) := .trivia (pos + 1)
    refine ⟨⟨⟨_, _, hsame⟩, ?_, ?_, ?_, ?_⟩, t, ?_⟩
    · rw [hsame]
      exact hlimit
    · exact hlands.goes.le_size (byte?_eq_some_lt hequals)
    · exact hlands.edge (edge_succ hequals (by decide))
    · rw [h.valued, hscan, hsame]
      rfl
    · rw [hsame]
      exact hstop
  | braced heq _ _ =>
    rw [if_neg (Bool.eq_false_iff.mp heq)] at ha
    cases ha
  | bare heq _ =>
    rw [if_neg (Bool.eq_false_iff.mp heq)] at ha
    cases ha

end Dialect

namespace Python

open Source

variable {src : Source} {index : LineIndex} {limit limit' start pos : Nat} {found : Finding} {r : Record}

/-! ## Python statements -/

/-- The value that starts at or after `pos`, in the statement that starts at `statement`. -/
def assignedValueAt (src : Source) (limit statement pos : Nat) : AssignedValue :=
  ⟨src.skipInlineSpace pos, valueScan src limit statement pos⟩

/-- The value behind the equals sign of a variable whose name stands at `pos`: the sign behind the annotation, or
the last one of a chain. -/
def assignedValue? (src : Source) (limit pos : Nat) : Option AssignedValue :=
  match src.identAt? pos with
  | none => none
  | some (_, e) =>
    let after := src.skipInlineSpace e
    if isAnnotationColon src after then
      match (scan src limit pos annotationStops (after + 1)).stop with
      | .terminator q => if src.byte? q == some '='.toUInt8 then some (assignedValueAt src limit pos (q + 1)) else none
      | _ => none
    else if src.isLoneEquals after then
      some (assignedValueAt src limit pos (chainedTargets src (src.skipInlineSpace (after + 1))).2)
    else none

/-- A value depends on its statement by the indentation only. -/
theorem assignedValueAt_congr {statement statement' : Nat} (h : src.lineStart statement = src.lineStart statement')
    (limit pos : Nat) : assignedValueAt src limit statement pos = assignedValueAt src limit statement' pos := by
  have hindent : src.indentation statement = src.indentation statement' := by
    rw [indentation, indentation, h]
  rw [assignedValueAt, assignedValueAt, valueScan, valueScan, scan, scan, hindent]

theorem assignedValue?_of_chained {name : String} {e : Nat} (hid : src.identAt? pos = some (name, e))
    (heq : src.isLoneEquals (src.skipInlineSpace e) = true) :
    assignedValue? src limit pos =
      some (assignedValueAt src limit pos
        (chainedTargets src (src.skipInlineSpace (src.skipInlineSpace e + 1))).2) := by
  rw [assignedValue?, hid]
  simp [isAnnotationColon_of_isLoneEquals heq, heq]

/-- A value that was found was not cut off, and every target has it. -/
theorem matchValue?_found {first : Target} {more : List Target}
    (h : matchValue? src index limit first more pos = some found) (hr : r ∈ found.records) (hle : pos ≤ src.size)
    (hedge : src.Edge pos) : ValueAt .python src limit r (assignedValueAt src limit first.pos pos) where
  scanned := ⟨_, _, rfl⟩
  complete := by
    intro hlimit
    unfold matchValue? at h
    dsimp only at h
    rw [show (scan src limit first.pos statementStops (src.skipInlineSpace pos)).stop = .limit from hlimit] at h
    cases h
    cases hr
  inside := skipWhile_le src _ pos hle
  edge := by
    have hlands : src.Lands .python pos (src.skipInlineSpace pos) := .inlineSpace pos
    exact hlands.edge hedge
  text := by
    obtain ⟨t, -, rfl⟩ := mem_matchValue? h hr
    rfl

/-- A value that was not cut off is the same under every bound that gets as far. -/
theorem assignedValueAt_of_asFar {statement : Nat} (hfar : src.AsFar limit limit')
    (h : (valueScan src limit statement pos).stop ≠ .limit) :
    assignedValueAt src limit' statement pos = assignedValueAt src limit statement pos := by
  have hscan : valueScan src limit' statement pos = valueScan src limit statement pos :=
    scanValueUntil_of_asFar hfar h
  rw [assignedValueAt, assignedValueAt, hscan]

/-- **A statement's value stands where its targets say**, under every bound that gets as far as the one under which
the statement was found. -/
theorem valueAt_of_mem_matchStatement? (h : matchStatement? src index limit start = some found)
    (hr : r ∈ found.records) (hfar : src.AsFar limit limit') {a : AssignedValue}
    (ha : assignedValue? src limit' r.declaredAt.offset = some a) : ValueAt .python src limit r a := by
  cases matches_of_matchStatement? h hr with
  | @chained name e hid hopen heq hvalue =>
    have hequals := byte?_of_isLoneEquals heq
    have hlands : src.Lands .python (src.skipInlineSpace e + 1)
        (chainedTargets src (src.skipInlineSpace (src.skipInlineSpace e + 1))).2 :=
      (Lands.inlineSpace _).trans (targets_chainedTargets _).lands
    have hfound := matchValue?_found hvalue hr (hlands.goes.le_size (byte?_eq_some_lt hequals))
      (hlands.edge (edge_succ hequals (by decide)))
    obtain ⟨target, htarget, hplace⟩ := mem_matchValue? hvalue hr
    have hoffset : r.declaredAt.offset = target.pos := by rw [hplace]; rfl
    have hgiven : assignedValue? src limit' target.pos = some (assignedValueAt src limit' start
        (chainedTargets src (src.skipInlineSpace (src.skipInlineSpace e + 1))).2) := by
      rcases List.mem_cons.mp htarget with rfl | htarget
      · exact assignedValue?_of_chained hid heq
      · obtain ⟨name', e', hid', heq', hrest, hline⟩ := chainedTargets_of_mem htarget
        rw [assignedValue?_of_chained hid' heq', hrest]
        refine congrArg some (assignedValueAt_congr (hline.trans ?_) _ _)
        rw [lineStart_skipInlineSpace, lineStart_isLoneEquals heq, lineStart_skipInlineSpace, lineStart_identAt? hid]
    rw [hoffset, hgiven, assignedValueAt_of_asFar hfar hfound.complete] at ha
    cases ha
    exact hfound
  | @annotated name e q hid hopen hstop heq hvalue =>
    have hfound := matchValue?_found hvalue hr (byte?_eq_some_lt heq) (edge_succ heq (by decide))
    obtain ⟨target, htarget, hplace⟩ := mem_matchValue? hvalue hr
    obtain rfl := List.mem_singleton.mp htarget
    have hoffset : r.declaredAt.offset = start := by rw [hplace]; rfl
    have hscan : scan src limit' start annotationStops (src.skipInlineSpace e + 1) = _ :=
      scanValueUntil_of_asFar hfar (hstop.trans_ne (by simp))
    have hgiven : assignedValue? src limit' start = some (assignedValueAt src limit' start (q + 1)) := by
      rw [assignedValue?, hid]
      simp only [hopen, ↓reduceIte]
      rw [hscan, show (scanValueUntil .python src annotationStops limit
        (startsDeclaration src (src.indentation start)) (src.skipInlineSpace e + 1)).stop = .terminator q from hstop]
      simp [heq]
    rw [hoffset, hgiven, assignedValueAt_of_asFar hfar hfound.complete] at ha
    cases ha
    exact hfound
  | @bare name e hid hopen hlimit hstop hfound =>
    rw [hfound] at hr
    obtain rfl := List.mem_singleton.mp hr
    have hscan : scan src limit' start annotationStops (src.skipInlineSpace e + 1) =
        scan src limit start annotationStops (src.skipInlineSpace e + 1) := scanValueUntil_of_asFar hfar hlimit
    have hgiven : assignedValue? src limit' start = none := by
      rw [assignedValue?, hid]
      simp only [hopen, ↓reduceIte, hscan]
      split
      · next q hq => simp [hstop q hq]
      · rfl
    exact absurd (hgiven.symm.trans ha) (by simp)

theorem exists_matchStatement?_of_mem {pos : Nat} : ∀ r ∈ recordsFrom src index limit pos,
    ∃ start found, matchStatement? src index limit start = some found ∧ r ∈ found.records := by
  fun_induction recordsFrom src index limit pos with
  | case1 => simp
  | case2 _ _ _ _ _ ih => exact ih
  | case3 _ _ _ _ _ _ _ ih => exact ih
  | case4 pos start b hb _ hc found hm ih =>
    intro r hr
    rcases List.mem_append.mp hr with hr | hr
    · exact ⟨start, found, hm, hr⟩
    · exact ih r hr
  | case5 _ _ _ _ _ _ _ ih => exact ih

end Python

/-! ## All languages -/

/-- The value behind the equals sign of a variable whose name stands at `pos`, in a language that is read without a
grammar. -/
def Language.assignedValue? (language : Language) (src : Source) (limit pos : Nat) : Option AssignedValue :=
  match language with
  | .python => Python.assignedValue? src limit pos
  | .java => Dialect.java.assignedValue? src limit pos
  | .cpp => Dialect.cpp.assignedValue? src limit pos
  | .javascript | .typescript | .tsx => none

/-- **Every recorded value stands where its name says**; outside Python it ends at a terminator. -/
theorem Language.valueAt_of_mem_extract {language : Language} {lex : Lexicon} (hlex : language.lexicon? = some lex)
    {limit limit' : Nat} {document : Document} {records : List Record}
    (h : language.extract limit document = .ok records) {r : Record} (hr : r ∈ records)
    (hfar : (Source.ofString document.text).AsFar limit limit') {a : AssignedValue}
    (ha : language.assignedValue? (.ofString document.text) limit' r.declaredAt.offset = some a) :
    ValueAt lex (.ofString document.text) limit r a ∧ (language = .python ∨ ∃ t, a.scan.stop = .terminator t) := by
  cases language with
  | python =>
    cases h
    cases hlex
    obtain ⟨start, found, hm, hr⟩ := Python.exists_matchStatement?_of_mem r (List.mem_mergeSort.mp hr)
    exact ⟨Python.valueAt_of_mem_matchStatement? hm hr hfar ha, Or.inl rfl⟩
  | java =>
    cases h
    cases hlex
    obtain ⟨start, head, marks, brackets, pos, value, -, -, hof⟩ :=
      Dialect.origin_of_mem_records Dialect.isPlain_separator_java hr
    exact (hof.valueAt hfar ha).imp_right Or.inr
  | cpp =>
    cases h
    cases hlex
    obtain ⟨start, head, marks, brackets, pos, value, -, -, hof⟩ :=
      Dialect.origin_of_mem_records Dialect.isPlain_separator_cpp hr
    exact (hof.valueAt hfar ha).imp_right Or.inr
  | javascript | typescript | tsx => cases hlex

/-- Every text of a language that is read without a grammar has its records. -/
theorem Language.exists_extract {language : Language} {lex : Lexicon} (hlex : language.lexicon? = some lex)
    (limit : Nat) (document : Document) : ∃ records, language.extract limit document = .ok records := by
  cases language with
  | python | java | cpp => exact ⟨_, rfl⟩
  | javascript | typescript | tsx => cases hlex

/-- **Recorded values keep to the bound.** Take any text and any bound, and the value behind the equals sign of a
recorded variable as a search without that bound, or with any larger one, would find it. It spans at most as many
bytes as the bound, or it is a value in Python that goes on to the end of the text, and then the last literal or
byte of it starts within the bound. -/
theorem extract_span {language : Language} {lex : Lexicon} (hlex : language.lexicon? = some lex) (limit : Nat)
    (document : Document) :
    ∃ records, language.extract limit document = .ok records ∧ ∀ r ∈ records, ∀ limit' a, limit ≤ limit' →
      language.assignedValue? (.ofString document.text) limit' r.declaredAt.offset = some a →
      a.scan.stop ≠ .limit ∧
      (a.scan.codeEnd - a.start ≤ limit ∨
        language = .python ∧ a.scan.stop = .endOfText ∧
          ∃ q ∈ (Source.ofString document.text).piecesFrom lex a.start,
            q.codeEnd? = some a.scan.codeEnd ∧ q.pos - a.start ≤ limit) := by
  obtain ⟨records, h⟩ := language.exists_extract hlex limit document
  refine ⟨records, h, ?_⟩
  intro r hr limit' a hle ha
  obtain ⟨hvalue, hstop⟩ := language.valueAt_of_mem_extract hlex h hr (Or.inl hle) ha
  refine ⟨hvalue.complete, ?_⟩
  obtain ⟨stops, starts, hscan⟩ := hvalue.scanned
  have hspan := Source.scanValueUntil_span (hscan ▸ hvalue.complete)
  rw [← hscan] at hspan
  rcases hspan with hspan | ⟨hend, hpiece⟩
  · exact Or.inl hspan
  · rcases hstop with hpython | ⟨t, ht⟩
    · exact Or.inr ⟨hpython, hend, hpiece⟩
    · rw [hend] at ht
      cases ht

/-- A string of ten bytes that ends with the text. -/
def openEndedValue : String :=
  "x = \"abcdefgh\""

/-- **A value that is longer than the bound**: ten bytes under a bound of four, recorded since the text ends with
it. A line feed more and it is dropped. -/
theorem span_beyond_lookahead :
    Language.python.extract 4 ⟨openEndedValue, none⟩ =
      .ok [⟨"x", "\"abcdefgh\"", .string, [], ⟨1, 1, 0⟩⟩] ∧
    Language.python.assignedValue? (.ofString openEndedValue) 4 0 = some ⟨4, ⟨14, .endOfText⟩⟩ ∧
    4 < 14 - 4 ∧
    Language.python.extract 4 ⟨openEndedValue ++ "\n", none⟩ = .ok [] := by
  refine ⟨congrArg Except.ok ?_, ?_, ?_, congrArg Except.ok ?_⟩
  all_goals decide +kernel

theorem extract_span_openEndedValue :
    Language.python.extract 4 ⟨openEndedValue, none⟩ =
      .ok [⟨"x", "\"abcdefgh\"", .string, [], ⟨1, 1, 0⟩⟩] ∧
    Language.python.assignedValue? (.ofString openEndedValue) 40 0 = some ⟨4, ⟨14, .endOfText⟩⟩ ∧
    ∃ q ∈ (Source.ofString openEndedValue).piecesFrom .python 4, q.codeEnd? = some 14 ∧ q.pos - 4 ≤ 4 := by
  have hlex : Language.python.lexicon? = some .python := rfl
  have hextract : Language.python.extract 4 ⟨openEndedValue, none⟩ =
      .ok [⟨"x", "\"abcdefgh\"", .string, [], ⟨1, 1, 0⟩⟩] := congrArg Except.ok (by decide +kernel)
  have hassigned : Language.python.assignedValue? (.ofString openEndedValue) 40 0 = some ⟨4, ⟨14, .endOfText⟩⟩ := by
    decide +kernel
  obtain ⟨records, hrecords, hspan⟩ := extract_span hlex 4 ⟨openEndedValue, none⟩
  rw [hextract] at hrecords
  cases hrecords
  obtain ⟨-, hshort | ⟨-, -, hpiece⟩⟩ := hspan _ List.mem_cons_self 40 _ (by decide) hassigned
  · exact absurd hshort (by decide)
  · exact ⟨hextract, hassigned, hpiece⟩

end VarCensus
