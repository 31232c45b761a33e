import VarCensus.Proofs.PrintedAssignments
import VarCensus.Proofs.SourceParts

/-!
# Texts that are joined are read one after the other

Two Python texts are put one behind the other. If the first ends with a line feed and none of the scans made in it
comes to its end, the search reads the two as it reads each alone: the records of the first, and then those of the
second, moved by the lines and bytes of the first (`extract_append`).

Both texts are parts of the joined one, so one lemma for each function of the search serves for both. Along the
search `Moves` relates what is found at a statement of a part with what is found there in the whole; the search in
the whole goes on behind the part where the search in the part ends (`recordsFrom_eq`).
-/

namespace VarCensus

/-- A place, seen from some lines and bytes further up. -/
def Location.move (lines bytes : Nat) (loc : Location) : Location :=
  ⟨lines + loc.line, loc.column, bytes + loc.offset⟩

def Record.move (lines bytes : Nat) (r : Record) : Record :=
  { r with reads := r.reads.map (·.move lines bytes), declaredAt := r.declaredAt.move lines bytes }

def Finding.move (lines bytes : Nat) (found : Finding) : Finding :=
  ⟨found.records.map (·.move lines bytes), bytes + found.next⟩

def Python.Target.move (d : Nat) (target : Target) : Target :=
  ⟨target.name, d + target.pos⟩

theorem Record.move_zero (r : Record) : r.move 0 0 = r := by
  simp [move, Location.move]

/-- One table of line starts gives the places of a part that another one gives, moved. -/
def LineIndex.Follows (index' index : LineIndex) (part : Source) (lines d : Nat) : Prop :=
  ∀ pos, pos ≤ part.size → index'.location (d + pos) = (index.location pos).move lines d

/-- What is found at a statement of a part and, at the same statement, in the whole. -/
structure Finding.Moves (part : Source) (lines d : Nat) (last : Prop) (found found' : Finding) : Prop where
  eq : found' = found.move lines d
  reaches : part.Reaches last found.next

namespace Python

open Source

variable {part whole : Source} {d lines : Nat} {last : Prop} {index index' : LineIndex} {limit pos start : Nat}

/-! ## Statements of a part -/

theorem isAnnotationColon_eq (h : Part part whole d last) (hpos : part.Covers last pos) :
    isAnnotationColon whole (d + pos) = isAnnotationColon part pos := by
  rw [isAnnotationColon, isAnnotationColon, h.byte?_eq hpos]
  by_cases hbyte : part.byte? pos = some ':'.toUInt8
  · rw [Nat.add_assoc, h.byte?_eq (h.next_of_byte hbyte (by decide))]
  · rw [beq_eq_false_iff_ne.mpr hbyte, Bool.false_and, Bool.false_and]

theorem startsDeclaration_eq (h : Part part whole d last) (indent : Nat) {line : Nat}
    (hline : part.Covers last line) :
    startsDeclaration whole indent (d + line) = startsDeclaration part indent line := by
  obtain ⟨hspace, hcovers⟩ := h.skipInlineSpace_eq hline
  unfold startsDeclaration
  simp only [hspace, Nat.add_sub_add_left, h.identAt?_eq hcovers]
  cases hid : part.identAt? (part.skipInlineSpace line) with
  | none => rfl
  | some word =>
    obtain ⟨name, e⟩ := word
    obtain ⟨hafter, hcovers⟩ := h.skipInlineSpace_eq (h.covers_identAt? hid)
    simp only [Option.map_some, hafter, h.isLoneEquals_eq hcovers, isAnnotationColon_eq h hcovers]

theorem startsDeclaration_size (src : Source) (indent : Nat) : startsDeclaration src indent src.size = false := by
  have hnone : src.byte? src.size = none := byte?_eq_none (Nat.le_refl _)
  have hspace : src.skipInlineSpace src.size = src.size :=
    skipInlineSpace_eq_self (by rw [head?_after, hnone]; rfl)
  simp [startsDeclaration, hspace, identAt?, identEnd?, hnone]

/-- **A scan of a statement** goes the same way, unless it comes to the end of a part that is not the last one. -/
theorem scan_eq (h : Part part whole d last) {statement : Nat} (hstatement : statement < part.size) {stops : Stops}
    (hcomma : stops.declaratorComma = false) (hstart : part.Covers last start)
    (hend : (scan part limit statement stops start).stop = .endOfText → last) :
    scan whole limit (d + statement) stops (d + start) = (scan part limit statement stops start).move d := by
  unfold scan at hend ⊢
  rw [h.indentation_eq hstatement]
  exact h.scanFrom_eq hcomma (fun line hline => startsDeclaration_eq h _ hline)
    (startsDeclaration_size part _) hstart hend

theorem moves_dropped (h : Part part whole d last) {statement : Nat} (hstatement : statement < part.size) :
    Finding.Moves part lines d last (dropped part statement) (dropped whole (d + statement)) := by
  obtain ⟨heq, hcovers⟩ := h.lineEnd_eq hstatement
  refine ⟨?_, hcovers.succ⟩
  rw [dropped, heq]
  rfl

theorem map_targets (hindex : index'.Follows index part lines d) {targets : List Target}
    (htargets : ∀ t ∈ targets, t.pos < part.size) (value : String) (kind : Kind) :
    ((targets.map (Target.move d)).map fun t =>
        (⟨t.name, value, kind, [], index'.location t.pos⟩ : Record)) =
      (targets.map fun t => (⟨t.name, value, kind, [], index.location t.pos⟩ : Record)).map (·.move lines d) := by
  rw [List.map_map, List.map_map]
  refine List.map_congr_left fun t ht => ?_
  have hplace := hindex t.pos (Nat.le_of_lt (htargets t ht))
  simp [Target.move, Record.move, hplace]

/-- What the scan of a value, which ends with the given stop, says about a statement. -/
def valueFinding (src : Source) (statement : Nat) (value : String) (records : List Record) : Stop → Option Finding
  | .limit => some (dropped src statement)
  | .terminator e => if value.isEmpty then none else some ⟨records, e + 1⟩
  | .unbalanced e => if value.isEmpty then none else some ⟨records, e⟩
  | .endOfText => if value.isEmpty then none else some ⟨records, src.size⟩

theorem matchValue?_eq_valueFinding (src : Source) (index : LineIndex) (limit : Nat) (first : Target)
    (more : List Target) (pos : Nat) :
    matchValue? src index limit first more pos =
      let found := valueScan src limit first.pos pos
      let value := Text.collapse (src.codeText .python (src.skipInlineSpace pos) found.codeEnd)
      valueFinding src first.pos value
        ((first :: more).map fun t => ⟨t.name, value, Cue.kindOf .python value, [], index.location t.pos⟩)
        found.stop := by
  unfold matchValue?
  dsimp only [valueScan]
  generalize (scan src limit first.pos statementStops (src.skipInlineSpace pos)).stop = stop
  cases stop <;> rfl

theorem moves_valueFinding (h : Part part whole d last) {statement : Nat} (hstatement : statement < part.size)
    (value : String) (records : List Record) {stop : Stop} (hstop : ∀ e, stop.pos? = some e → e < part.size)
    (hend : stop = .endOfText → last) :
    Option.Rel (Finding.Moves part lines d last) (valueFinding part statement value records stop)
      (valueFinding whole (d + statement) value (records.map (·.move lines d)) (stop.move d)) := by
  cases stop with
  | limit => exact .some (moves_dropped h hstatement)
  | terminator e =>
    have hlt := hstop e rfl
    simp only [valueFinding, Stop.move]
    split
    · exact .none
    · exact .some ⟨rfl, Or.inl hlt⟩
  | unbalanced e =>
    have hlt := hstop e rfl
    simp only [valueFinding, Stop.move]
    split
    · exact .none
    · exact .some ⟨rfl, Or.inl (Nat.le_of_lt hlt)⟩
  | endOfText =>
    simp only [valueFinding, Stop.move, h.size_eq (hend rfl)]
    split
    · exact .none
    · exact .some ⟨rfl, Or.inl (Nat.le_refl _)⟩

theorem moves_matchValue? (h : Part part whole d last) (hindex : index'.Follows index part lines d)
    {first : Target} {more : List Target} (htargets : ∀ t ∈ first :: more, t.pos < part.size)
    (hpos : part.Covers last pos) (hle : pos ≤ part.size)
    (hend : (valueScan part limit first.pos pos).stop = .endOfText → last) :
    Option.Rel (Finding.Moves part lines d last) (matchValue? part index limit first more pos)
      (matchValue? whole index' limit (first.move d) (more.map (Target.move d)) (d + pos)) := by
  have hfirst : first.pos < part.size := htargets first List.mem_cons_self
  obtain ⟨hspace, hcovers⟩ := h.skipInlineSpace_eq hpos
  have hstart : part.skipInlineSpace pos ≤ part.size := skipWhile_le part _ pos hle
  have hscan : valueScan whole limit (first.move d).pos (d + pos) = (valueScan part limit first.pos pos).move d := by
    rw [valueScan, hspace]
    exact scan_eq h hfirst rfl hcovers hend
  have hcode : (valueScan part limit first.pos pos).codeEnd ≤ part.size := codeEnd_le hstart
  rw [matchValue?_eq_valueFinding, matchValue?_eq_valueFinding, hscan, hspace]
  dsimp only [ValueScan.move]
  rw [h.codeText_eq hstart hcode, ← List.map_cons, map_targets hindex htargets]
  exact moves_valueFinding h hfirst _ _ (fun e he => (scan_stop_bounds he).2) hend

theorem moves_matchAnnotated? (h : Part part whole d last) (hindex : index'.Follows index part lines d)
    {target : Target} (htarget : target.pos < part.size) (hpos : part.Covers last pos) (hle : pos ≤ part.size)
    (hend : ∀ scan ∈ annotationScans part limit target.pos pos, scan.stop = .endOfText → last) :
    Option.Rel (Finding.Moves part lines d last) (matchAnnotated? part index limit target pos)
      (matchAnnotated? whole index' limit (target.move d) (d + pos)) := by
  have hfound := hend _ (scan_mem_annotationScans part limit target.pos pos)
  have hscan : scan whole limit (target.move d).pos annotationStops (d + pos) =
      (scan part limit target.pos annotationStops pos).move d :=
    scan_eq h htarget rfl hpos hfound
  have hcode : (scan part limit target.pos annotationStops pos).codeEnd ≤ part.size := codeEnd_le hle
  have hbare : Record.bare (target.move d).name (index'.location (target.move d).pos) =
      (Record.bare target.name (index.location target.pos)).move lines d := by
    simp [Record.bare, Record.move, Target.move, hindex target.pos (Nat.le_of_lt htarget)]
  unfold matchAnnotated?
  dsimp only
  rw [hscan, hbare]
  dsimp only [ValueScan.move]
  simp only [h.slice_eq hcode]
  cases hstop : (scan part limit target.pos annotationStops pos).stop with
  | limit => exact .some (moves_dropped h htarget)
  | unbalanced e => exact .none
  | terminator e =>
    have hlt : e < part.size := (scan_stop_bounds (congrArg Stop.pos? hstop)).2
    dsimp only [Stop.move]
    rw [h.byte?_eq (Or.inl hlt)]
    by_cases hne : (Text.trim (part.slice pos (scan part limit target.pos annotationStops pos).codeEnd)).isEmpty
    · rw [if_pos hne, if_pos hne]
      exact .none
    · rw [if_neg hne, if_neg hne]
      by_cases heq : part.byte? e == some '='.toUInt8
      · have hvalue := hend _ (valueScan_mem_annotationScans hstop hne heq)
        have hnext := h.next_of_byte (beq_iff_eq.mp heq) (by decide)
        rw [if_pos heq, if_pos heq]
        have htargets : ∀ t ∈ [target], t.pos < part.size := by simpa using htarget
        exact moves_matchValue? h hindex htargets hnext hlt hvalue
      · rw [if_neg heq, if_neg heq]
        exact .some ⟨rfl, Or.inl hlt⟩
  | endOfText =>
    dsimp only [Stop.move]
    rw [h.size_eq (hfound hstop)]
    split
    · exact .none
    · exact .some ⟨rfl, Or.inl (Nat.le_refl _)⟩

theorem chainedTargets_eq_match (src : Source) (pos : Nat) :
    chainedTargets src pos =
      match src.identAt? pos with
      | none => ([], pos)
      | some (name, e) =>
        if keywords.contains name || !src.isLoneEquals (src.skipInlineSpace e) then ([], pos)
        else
          let more := chainedTargets src (src.skipInlineSpace (src.skipInlineSpace e + 1))
          (⟨name, pos⟩ :: more.1, more.2) := by
  rw [chainedTargets]
  split
  · next hid => rw [hid]
  · next name e hid => rw [hid]

/-- **The targets of a chain** are the same, and so is the place behind them. -/
theorem chainedTargets_eq (h : Part part whole d last) (hpos : part.Covers last pos) :
    chainedTargets whole (d + pos) =
        ((chainedTargets part pos).1.map (Target.move d), d + (chainedTargets part pos).2) ∧
      part.Covers last (chainedTargets part pos).2 := by
  have hword := h.identAt?_eq hpos
  fun_induction chainedTargets part pos with
  | case1 pos hnone =>
    rw [chainedTargets_eq_match, hword, hnone]
    exact ⟨rfl, hpos⟩
  | case2 pos name e hid eq hcond =>
    obtain ⟨hafter, hcovers⟩ := h.skipInlineSpace_eq (h.covers_identAt? hid)
    rw [chainedTargets_eq_match, hword, hid]
    dsimp only [Option.map_some]
    rw [hafter, h.isLoneEquals_eq hcovers, if_pos hcond]
    exact ⟨rfl, hpos⟩
  | case3 pos name e hid eq hcond targets stop hrec ih =>
    obtain ⟨hafter, hcovers⟩ := h.skipInlineSpace_eq (h.covers_identAt? hid)
    have hequals : part.isLoneEquals eq = true := by
      simp only [Bool.or_eq_true, Bool.not_eq_true', not_or, Bool.not_eq_false] at hcond
      exact hcond.2
    have hnext := h.next_of_byte (byte?_of_isLoneEquals hequals) (by decide)
    obtain ⟨hspace, hmore⟩ := h.skipInlineSpace_eq hnext
    obtain ⟨hmoved, hstop⟩ := ih hmore (h.identAt?_eq hmore)
    rw [hrec] at hmoved hstop
    rw [chainedTargets_eq_match, hword, hid]
    dsimp only [Option.map_some]
    rw [hafter, h.isLoneEquals_eq hcovers, if_neg hcond, Nat.add_assoc, hspace, hmoved]
    exact ⟨rfl, hstop⟩

theorem moves_matchChained? (h : Part part whole d last) (hindex : index'.Follows index part lines d)
    {first : Target} (hfirst : first.pos < part.size) (hpos : part.Covers last pos) (hle : pos ≤ part.size)
    (hend : (valueScan part limit first.pos (chainedTargets part (part.skipInlineSpace pos)).2).stop =
      .endOfText → last) :
    Option.Rel (Finding.Moves part lines d last) (matchChained? part index limit first pos)
      (matchChained? whole index' limit (first.move d) (d + pos)) := by
  obtain ⟨hspace, hcovers⟩ := h.skipInlineSpace_eq hpos
  obtain ⟨hmoved, hstop⟩ := chainedTargets_eq h hcovers
  have hmore : Targets part _ _ _ := targets_chainedTargets (part.skipInlineSpace pos)
  have hle' : (chainedTargets part (part.skipInlineSpace pos)).2 ≤ part.size :=
    hmore.lands.goes.le_size (skipWhile_le part _ pos hle)
  rw [matchChained?, matchChained?, hspace, hmoved]
  refine moves_matchValue? h hindex (fun t ht => ?_) hstop hle' hend
  rcases List.mem_cons.mp ht with rfl | ht
  · exact hfirst
  · obtain ⟨e, hid⟩ := hmore.word t ht
    exact Nat.lt_of_lt_of_le (identAt?_bounds hid).1 (identAt?_bounds hid).2

theorem moves_matchStatement? (h : Part part whole d last) (hindex : index'.Follows index part lines d)
    (hstart : part.Covers last start)
    (hend : ∀ scan ∈ statementScans part limit start, scan.stop = .endOfText → last) :
    Option.Rel (Finding.Moves part lines d last) (matchStatement? part index limit start)
      (matchStatement? whole index' limit (d + start)) := by
  unfold matchStatement?
  unfold statementScans at hend
  rw [h.identAt?_eq hstart]
  cases hid : part.identAt? start with
  | none => exact .none
  | some word =>
    obtain ⟨name, e⟩ := word
    have hbounds := identAt?_bounds hid
    have hlt : start < part.size := Nat.lt_of_lt_of_le hbounds.1 hbounds.2
    obtain ⟨hafter, hcovers⟩ := h.skipInlineSpace_eq (h.covers_identAt? hid)
    have hle : part.skipInlineSpace e ≤ part.size := skipWhile_le part _ e hbounds.2
    rw [hid] at hend
    dsimp only [Option.map_some] at hend ⊢
    rw [hafter, isAnnotationColon_eq h hcovers, h.isLoneEquals_eq hcovers]
    by_cases hkey : keywords.contains name
    · rw [if_pos hkey, if_pos hkey]
      exact .none
    · rw [if_neg hkey] at hend
      rw [if_neg hkey, if_neg hkey]
      by_cases hann : isAnnotationColon part (part.skipInlineSpace e)
      · have hcolon := hann
        simp only [isAnnotationColon, Bool.and_eq_true, beq_iff_eq] at hcolon
        rw [if_pos hann] at hend
        rw [if_pos hann, if_pos hann]
        have htarget : (⟨name, start⟩ : Target).pos < part.size := hlt
        exact moves_matchAnnotated? h hindex htarget
          (h.next_of_byte hcolon.1 (by decide)) (byte?_eq_some_lt hcolon.1) hend
      · rw [if_neg hann] at hend
        rw [if_neg hann, if_neg hann]
        by_cases heq : part.isLoneEquals (part.skipInlineSpace e)
        · rw [if_pos heq] at hend
          rw [if_pos heq, if_pos heq]
          have hfirst : (⟨name, start⟩ : Target).pos < part.size := hlt
          exact moves_matchChained? h hindex hfirst
            (h.next_of_byte (byte?_of_isLoneEquals heq) (by decide))
            (byte?_eq_some_lt (byte?_of_isLoneEquals heq)) (hend _ List.mem_cons_self)
        · rw [if_neg heq, if_neg heq]
          exact .none

theorem skipStatement_eq (h : Part part whole d last) (hstart : start < part.size)
    (hend : (scan part limit start skipStops start).stop = .endOfText → last) :
    skipStatement whole limit (d + start) = d + skipStatement part limit start ∧
      part.Reaches last (skipStatement part limit start) := by
  have hcomma : skipStops.declaratorComma = false := rfl
  have hscan := scan_eq h hstart hcomma (Or.inl hstart) hend
  unfold skipStatement
  rw [hscan]
  dsimp only [ValueScan.move]
  cases hstop : (scan part limit start skipStops start).stop with
  | terminator e => exact ⟨rfl, Or.inl (scan_stop_bounds (congrArg Stop.pos? hstop)).2⟩
  | unbalanced e => exact ⟨rfl, Or.inl (scan_stop_bounds (congrArg Stop.pos? hstop)).2⟩
  | endOfText => exact ⟨h.size_eq (hend hstop), Or.inl (Nat.le_refl _)⟩
  | limit =>
    obtain ⟨heq, hcovers⟩ := h.lineEnd_eq hstart
    dsimp only [Stop.move]
    rw [heq]
    exact ⟨Nat.add_assoc _ _ _, hcovers.succ⟩

/-! ## The search -/

theorem recordsFrom_eq_match (src : Source) (index : LineIndex) (limit pos : Nat) :
    recordsFrom src index limit pos =
      match src.byte? (src.skipInlineSpace pos) with
      | none => []
      | some b =>
        if b == '\n'.toUInt8 || b == ';'.toUInt8 then recordsFrom src index limit (src.skipInlineSpace pos + 1)
        else match src.commentEnd? .python (src.skipInlineSpace pos) with
          | some e => recordsFrom src index limit e
          | none =>
            match matchStatement? src index limit (src.skipInlineSpace pos) with
            | some found => found.records ++ recordsFrom src index limit found.next
            | none => recordsFrom src index limit (skipStatement src limit (src.skipInlineSpace pos)) := by
  rw [recordsFrom]
  split
  · next hb => rw [hb]
  · next b hb =>
    rw [hb]
    dsimp only
    congr 1
    split
    · next hc => rw [hc]
    · next hc =>
      rw [hc]
      dsimp only
      split
      · next hm => rw [hm]
      · next hm => rw [hm]

theorem recordsFrom_size (src : Source) (index : LineIndex) (limit : Nat) :
    recordsFrom src index limit src.size = [] :=
  recordsFrom_of_end (List.drop_of_length_le (Nat.le_of_eq Array.length_toList))

/-- **In the whole, a part is searched as it is searched alone**, and then the search goes on behind the part. -/
theorem recordsFrom_eq (h : Part part whole d last) (hindex : index'.Follows index part lines d)
    (hpos : part.Reaches last pos)
    (hend : ∀ scan ∈ scansFrom part index limit pos, scan.stop = .endOfText → last) :
    recordsFrom whole index' limit (d + pos) =
      (recordsFrom part index limit pos).map (·.move lines d) ++
        recordsFrom whole index' limit (d + part.size) := by
  have hcovers {pos : Nat} {b : UInt8} (hb : part.byte? (part.skipInlineSpace pos) = some b) :
      part.Covers last pos :=
    Or.inl (Nat.lt_of_le_of_lt (part.le_skipInlineSpace pos) (byte?_eq_some_lt hb))
  fun_induction recordsFrom part index limit pos with
  | case1 pos start hb =>
    rcases hpos.covers_or with hpos | ⟨-, rfl⟩
    · obtain ⟨hspace, hstart⟩ := h.skipInlineSpace_eq hpos
      have hbyte := (h.byte?_eq hstart).trans hb
      -- a part that is not the last one has a line feed at its end
      have hlast : last := hstart.resolve_left fun hlt => by
        rw [byte?, Array.getElem?_eq_none_iff] at hb
        exact Nat.not_lt.mpr hb hlt
      rw [recordsFrom_eq_match, hspace, hbyte, ← h.size_eq hlast, recordsFrom_size]
      rfl
    · rfl
  | case2 pos start b hb hsep ih =>
    obtain ⟨hspace, hstart⟩ := h.skipInlineSpace_eq (hcovers hb)
    have hb : part.byte? (part.skipInlineSpace pos) = some b := hb
    rw [scansFrom_eq, hb] at hend
    rw [recordsFrom_eq_match, hspace, h.byte?_eq hstart, hb]
    dsimp only at hend ⊢
    rw [if_pos hsep] at hend ⊢
    exact ih hstart.succ hend
  | case3 pos start b hb hsep e hc ih =>
    obtain ⟨hspace, hstart⟩ := h.skipInlineSpace_eq (hcovers hb)
    obtain ⟨hcomment, hend'⟩ := h.commentEnd?_eq hstart
    have hb : part.byte? (part.skipInlineSpace pos) = some b := hb
    have hc : part.commentEnd? .python (part.skipInlineSpace pos) = some e := hc
    rw [scansFrom_eq, hb] at hend
    rw [recordsFrom_eq_match, hspace, h.byte?_eq hstart, hb]
    dsimp only at hend ⊢
    rw [if_neg hsep, hc] at hend
    rw [if_neg hsep, hcomment, hc]
    exact ih (hend' e hc).reaches hend
  | case4 pos start b hb hsep hc found hm ih =>
    obtain ⟨hspace, hstart⟩ := h.skipInlineSpace_eq (hcovers hb)
    have hcomment := (h.commentEnd?_eq hstart).1
    have hb : part.byte? (part.skipInlineSpace pos) = some b := hb
    have hc : part.commentEnd? .python (part.skipInlineSpace pos) = none := hc
    have hm : matchStatement? part index limit (part.skipInlineSpace pos) = some found := hm
    rw [scansFrom_eq, hb] at hend
    rw [recordsFrom_eq_match, hspace, h.byte?_eq hstart, hb]
    dsimp only at hend ⊢
    rw [if_neg hsep, hc, hm] at hend
    rw [if_neg hsep, hcomment, hc]
    obtain ⟨found', hm', hmoves⟩ := exists_of_rel (hm ▸ moves_matchStatement? h hindex hstart
      fun scan hscan => hend scan (List.mem_append_left _ hscan))
    dsimp only [Option.map_none]
    rw [hm', hmoves.eq]
    dsimp only [Finding.move]
    rw [ih hmoves.reaches fun scan hscan => hend scan (List.mem_append_right _ hscan), List.map_append,
      List.append_assoc]
  | case5 pos start b hb hsep hc hm ih =>
    obtain ⟨hspace, hstart⟩ := h.skipInlineSpace_eq (hcovers hb)
    have hcomment := (h.commentEnd?_eq hstart).1
    have hb : part.byte? (part.skipInlineSpace pos) = some b := hb
    have hc : part.commentEnd? .python (part.skipInlineSpace pos) = none := hc
    have hm : matchStatement? part index limit (part.skipInlineSpace pos) = none := hm
    rw [scansFrom_eq, hb] at hend
    rw [recordsFrom_eq_match, hspace, h.byte?_eq hstart, hb]
    dsimp only at hend ⊢
    rw [if_neg hsep, hc, hm] at hend
    rw [if_neg hsep, hcomment, hc]
    have hm' := eq_none_of_rel (hm ▸ moves_matchStatement? h hindex hstart
      fun scan hscan => hend scan (List.mem_append_left _ hscan))
    obtain ⟨hskip, hreaches⟩ := skipStatement_eq h (byte?_eq_some_lt hb)
      (hend _ (List.mem_append_right _ List.mem_cons_self))
    dsimp only [Option.map_none]
    rw [hm']
    dsimp only
    rw [hskip]
    exact ih hreaches fun scan hscan => hend scan (List.mem_append_right _ (List.mem_cons_of_mem _ hscan))

end Python

/-! ## Two texts -/

/-- The number of line feeds in front of a position. -/
def Source.feedsBefore (src : Source) (pos : Nat) : Nat :=
  ((src.bytes.extract 0 pos).filter (· == '\n'.toUInt8)).size

/-- The table of line starts of the whole counts the lines in front of a part. -/
theorem Source.Part.follows {part whole : Source} {d : Nat} {last : Prop} (h : Part part whole d last) :
    (LineIndex.ofSource whole).Follows (.ofSource part) part (whole.feedsBefore d) d := by
  intro pos hpos
  have hfits : d + pos ≤ whole.size := Nat.le_trans (Nat.add_le_add_left hpos d) h.fits
  have hbytes : whole.bytes.extract 0 (d + pos) = whole.bytes.extract 0 d ++ part.bytes.extract 0 pos := by
    have hback : whole.bytes.extract (d + 0) (d + pos) = part.bytes.extract 0 pos := h.extract_eq hpos
    rw [Nat.add_zero] at hback
    rw [← hback, Array.extract_append_extract]
    simp
  rw [LineIndex.location_ofSource hfits, LineIndex.location_ofSource hpos]
  simp only [Location.atOffset, Location.move, Source.lineStart, Nat.min_eq_left hpos, Nat.min_eq_left hfits,
    hbytes, Array.filter_append, Array.size_append, h.lineStartBelow_eq hpos, Nat.add_sub_add_left,
    Source.feedsBefore, Nat.add_assoc]

/-- A text that breaks off in no line: each of its lines ends with a line feed. -/
def Text.WholeLines (s : String) : Prop :=
  s = "" ∨ (bytes s).getLast? = some '\n'.toUInt8

section Join

variable {a b : String} {limit : Nat}

theorem Text.WholeLines.byteBefore? (ha : Text.WholeLines a) (b : String) :
    a.utf8ByteSize = 0 ∨ (Source.ofString (a ++ b)).byteBefore? a.utf8ByteSize = some '\n'.toUInt8 := by
  rcases ha with rfl | ha
  · exact Or.inl rfl
  · refine Or.inr ?_
    have hafter : (Source.ofString (a ++ b)).after 0 = Text.bytes a ++ Text.bytes b := by
      rw [Source.after_ofString, Text.bytes_append]
    have hbefore := Source.byteBefore?_add hafter ha
    rwa [Nat.zero_add, Text.length_bytes] at hbefore

/-- Whole lines are a part of a text that they open. -/
theorem Text.WholeLines.part_front (ha : Text.WholeLines a) (b : String) :
    Source.Part (.ofString a) (.ofString (a ++ b)) 0 False where
  fits := by
    rw [size_ofString, size_ofString, String.utf8ByteSize_append, Nat.zero_add]
    exact Nat.le_add_right _ _
  bytes := by
    intro i hi
    rw [size_ofString, or_false, ← Text.length_bytes] at hi
    rw [byte?_ofString, byte?_ofString, Text.bytes_append, Nat.zero_add, List.getElem?_append_left hi]
  feed := by
    intro i hi
    rw [size_ofString, ← Text.length_bytes] at hi
    rcases ha with rfl | ha
    · cases hi
    · rw [List.getLast?_eq_getElem?, ← hi, Nat.add_sub_cancel] at ha
      exact Or.inr ((byte?_ofString a i).trans ha)
  front := Or.inl rfl

/-- And so is what comes behind them. -/
theorem Text.WholeLines.part_back (ha : Text.WholeLines a) (b : String) :
    Source.Part (.ofString b) (.ofString (a ++ b)) a.utf8ByteSize True where
  fits := by
    rw [size_ofString, size_ofString, String.utf8ByteSize_append]
  bytes := by
    intro i _
    rw [byte?_ofString, byte?_ofString, Text.bytes_append, ← Text.length_bytes,
      List.getElem?_append_right (Nat.le_add_right _ _), Nat.add_sub_cancel_left]
  feed := fun _ _ => Or.inl trivial
  front := ha.byteBefore? b

/-- The number of lines that a text ends. -/
def Text.lineFeeds (s : String) : Nat :=
  (bytes s).count '\n'.toUInt8

theorem feedsBefore_append (a b : String) :
    (Source.ofString (a ++ b)).feedsBefore a.utf8ByteSize = Text.lineFeeds a := by
  have hbytes : (Source.ofString (a ++ b)).bytes.toList.take a.utf8ByteSize = Text.bytes a := by
    change (Text.bytes (a ++ b)).take a.utf8ByteSize = Text.bytes a
    rw [Text.bytes_append, ← Text.length_bytes, List.take_left]
  rw [Source.feedsBefore, ← Array.length_toList, Array.toList_filter, Array.toList_extract,
    List.extract_eq_take_drop, List.drop_zero, Nat.sub_zero, hbytes, ← List.countP_eq_length_filter]
  rfl

/-- A record of the text behind `a`, as it is in the joined text. -/
def Record.behind (a : String) (r : Record) : Record :=
  r.move (Text.lineFeeds a) a.utf8ByteSize

namespace Python

theorem extract_eq (limit : Nat) (text : String) (tree : Option Tree) :
    Language.python.extract limit ⟨text, tree⟩ =
      .ok (recordsFrom (.ofString text) (.ofSource (.ofString text)) limit 0) := by
  obtain ⟨_, hfinds⟩ := finds_recordsFrom (.ofString text) (.ofSource _) limit 0
  exact congrArg Except.ok (Record.sortByPlace_of_ordered hfinds.ordered)

/-- Behind whole lines the search finds what it finds in the text that stands there. -/
theorem recordsFrom_behind (ha : Text.WholeLines a) (b : String) (limit : Nat) :
    recordsFrom (.ofString (a ++ b)) (.ofSource (.ofString (a ++ b))) limit a.utf8ByteSize =
      (recordsFrom (.ofString b) (.ofSource (.ofString b)) limit 0).map (·.behind a) := by
  have hpart := ha.part_back b
  have hend : ∀ scan ∈ scansFrom (.ofString b) (.ofSource (.ofString b)) limit 0, scan.stop = .endOfText → True :=
    fun _ _ _ => trivial
  have hsearch := recordsFrom_eq hpart hpart.follows (Or.inr trivial) hend
  rw [← hpart.size_eq trivial, recordsFrom_size, List.append_nil, feedsBefore_append] at hsearch
  exact hsearch

/-- In front of any text, whole lines that no scan runs out of are searched as they are alone. -/
theorem recordsFrom_append (ha : Text.WholeLines a) (b : String)
    (hend : ∀ scan ∈ Language.python.scans limit (.ofString a), scan.stop ≠ .endOfText) :
    recordsFrom (.ofString (a ++ b)) (.ofSource (.ofString (a ++ b))) limit 0 =
      recordsFrom (.ofString a) (.ofSource (.ofString a)) limit 0 ++
        (recordsFrom (.ofString b) (.ofSource (.ofString b)) limit 0).map (·.behind a) := by
  have hpart := ha.part_front b
  have hfeeds : (Source.ofString (a ++ b)).feedsBefore 0 = 0 := by simp [Source.feedsBefore]
  have hsearch := recordsFrom_eq hpart hpart.follows (Or.inl (Nat.zero_le _)) fun scan hscan hstop =>
    hend scan hscan hstop
  rw [hfeeds, Nat.zero_add, Nat.zero_add, size_ofString, recordsFrom_behind ha] at hsearch
  rw [hsearch, funext Record.move_zero, List.map_id']

/-- **Texts that are joined are read one after the other.** Take a text of whole lines such that no scan that
extraction makes in it comes to its end. Joined with any other text it gives its own records and then those of the
other text, with places that count its lines and bytes. -/
theorem extract_append (ha : Text.WholeLines a)
    (hend : ∀ scan ∈ Language.python.scans limit (.ofString a), scan.stop ≠ .endOfText) (b : String)
    (tree : Option Tree) :
    ∃ front back, Language.python.extract limit ⟨a, tree⟩ = .ok front ∧
      Language.python.extract limit ⟨b, tree⟩ = .ok back ∧
      Language.python.extract limit ⟨a ++ b, tree⟩ = .ok (front ++ back.map (·.behind a)) := by
  refine ⟨_, _, extract_eq limit a tree, extract_eq limit b tree, ?_⟩
  rw [extract_eq, recordsFrom_append ha b hend]

/-- Lines with an open bracket, an indented continuation, a comment and a value that is dropped. -/
def bracketedLines : String :=
  "a = [1,\n  2]\nif x: b = 'c'  # d = 1\ne = 'too long for the bound'\n"

theorem extract_append_bracketedLines :
    Text.WholeLines bracketedLines ∧
    (∀ scan ∈ Language.python.scans 12 (.ofString bracketedLines), scan.stop ≠ .endOfText) ∧
    ∃ front back, Language.python.extract 12 ⟨bracketedLines, none⟩ = .ok front ∧
      Language.python.extract 12 ⟨"]\nf = 3", none⟩ = .ok back ∧
      Language.python.extract 12 ⟨bracketedLines ++ "]\nf = 3", none⟩ =
        .ok (front ++ back.map (·.behind bracketedLines)) :=
  have ha : Text.WholeLines bracketedLines := Or.inr (by decide)
  have hend : ∀ scan ∈ Language.python.scans 12 (.ofString bracketedLines), scan.stop ≠ .endOfText := by
    decide +kernel
  ⟨ha, hend, extract_append ha hend "]\nf = 3" none⟩

end Python
end Join
end VarCensus
