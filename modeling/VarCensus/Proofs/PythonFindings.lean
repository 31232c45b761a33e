import VarCensus.Python
import VarCensus.Proofs.Findings

/-!
# The Python search

What one statement and the whole search find, in the terms of `Finds`. The scans that the search makes are
listed beside it, by functions of the same shape (`statementScans`, `scansFrom`), so that a statement about
all of them can be written down.
-/

namespace VarCensus
namespace Python

variable {src : Source} {index : LineIndex} {limit : Nat}

/-! ## The scans that are made -/

/-- The scan of the value of a statement, which starts at or after `pos`. -/
def valueScan (src : Source) (limit statement pos : Nat) : ValueScan :=
  scan src limit statement statementStops (src.skipInlineSpace pos)

/-- The scans of an annotation that starts at `pos` and of the value after it. -/
def annotationScans (src : Source) (limit statement pos : Nat) : List ValueScan :=
  let found := scan src limit statement annotationStops pos
  match found.stop with
  | .terminator e =>
    if (Text.trim (src.slice pos found.codeEnd)).isEmpty then [found]
    else if src.byte? e == some '='.toUInt8 then [found, valueScan src limit statement (e + 1)]
    else [found]
  | _ => [found]

/-- The scans by which a declaration at `start` is looked for. -/
def statementScans (src : Source) (limit start : Nat) : List ValueScan :=
  match src.identAt? start with
  | none => []
  | some (name, e) =>
    let after := src.skipInlineSpace e
    if keywords.contains name then []
    else if isAnnotationColon src after then annotationScans src limit start (after + 1)
    else if src.isLoneEquals after then
      [valueScan src limit start (chainedTargets src (src.skipInlineSpace (after + 1))).2]
    else []

/-- The scans of the whole search from `pos` on. -/
def scansFrom (src : Source) (index : LineIndex) (limit pos : Nat) : List ValueScan :=
  let start := src.skipInlineSpace pos
  match _hb : src.byte? start with
  | none => []
  | some b =>
    if b == '\n'.toUInt8 || b == ';'.toUInt8 then scansFrom src index limit (start + 1)
    else match _hc : src.commentEnd? .python start with
      | some e => scansFrom src index limit e
      | none =>
        let scans := statementScans src limit start
        match _hm : matchStatement? src index limit start with
        | some found => scans ++ scansFrom src index limit found.next
        | none =>
          scans ++ scan src limit start skipStops start ::
            scansFrom src index limit (skipStatement src limit start)
termination_by src.size - pos
decreasing_by
  all_goals
    have hle := src.le_skipInlineSpace pos
    have hlt := Source.byte?_eq_some_lt _hb
  · omega
  · have := Source.commentEnd?_bounds _hc; omega
  · have := lt_next_of_matchStatement? _hm; omega
  · have := lt_skipStatement limit (show src.skipInlineSpace pos < src.size from hlt); omega

theorem scansFrom_eq (src : Source) (index : LineIndex) (limit pos : Nat) : scansFrom src index limit pos =
    match src.byte? (src.skipInlineSpace pos) with
    | none => []
    | some b =>
      if b == '\n'.toUInt8 || b == ';'.toUInt8 then scansFrom src index limit (src.skipInlineSpace pos + 1)
      else match src.commentEnd? .python (src.skipInlineSpace pos) with
        | some e => scansFrom src index limit e
        | none =>
          statementScans src limit (src.skipInlineSpace pos) ++
            match matchStatement? src index limit (src.skipInlineSpace pos) with
            | some found => scansFrom src index limit found.next
            | none => scan src limit (src.skipInlineSpace pos) skipStops (src.skipInlineSpace pos) ::
                scansFrom src index limit (skipStatement src limit (src.skipInlineSpace pos)) := by
  rw [scansFrom]
  split
  · next hb => rw [hb]
  · next b hb =>
    rw [hb]
    dsimp only
    congr 1
    split
    · next hc => rw [hc]
    · next hc =>
      rw [hc]
      dsimp only
      split
      · next hm => rw [hm]
      · next hm => rw [hm]

/-! ## Targets -/

/-- Targets that stand in order between `start` and `stop`. -/
structure Targets (src : Source) (start : Nat) (targets : List Target) (stop : Nat) : Prop where
  lands : src.Lands .python start stop
  reached : ∀ t ∈ targets, src.Lands .python start t.pos ∧ t.pos < stop
  word : ∀ t ∈ targets, ∃ e, src.identAt? t.pos = some (t.name, e)
  free : ∀ t ∈ targets, keywords.contains t.name = false
  ordered : targets.Pairwise (·.pos < ·.pos)

theorem Targets.nil (start : Nat) : Targets src start [] start :=
  ⟨.refl start, by simp, by simp, by simp, .nil⟩

/-- A single target, at the start. -/
theorem Targets.single {target : Target} {e stop : Nat}
    (hid : src.identAt? target.pos = some (target.name, e)) (hfree : keywords.contains target.name = false)
    (hto : src.Lands .python target.pos stop) (hlt : target.pos < stop) :
    Targets src target.pos [target] stop := by
  refine ⟨hto, fun t ht => ?_, fun t ht => ?_, fun t ht => ?_, List.pairwise_singleton _ _⟩
  · rw [List.mem_singleton.mp ht]
    exact ⟨.refl _, hlt⟩
  · rw [List.mem_singleton.mp ht]
    exact ⟨e, hid⟩
  · rw [List.mem_singleton.mp ht]
    exact hfree

/-- A target in front, with the equals sign after it at `eq`. -/
theorem Targets.cons {start e eq stop : Nat} {name : String} {more : List Target}
    (hid : src.identAt? start = some (name, e)) (hfree : keywords.contains name = false)
    (hto : src.Lands .python e eq) (heq : src.isLoneEquals eq = true)
    (h : Targets src (src.skipInlineSpace (eq + 1)) more stop) :
    Targets src start (⟨name, start⟩ :: more) stop := by
  have hmore : src.Lands .python start (src.skipInlineSpace (eq + 1)) :=
    (Source.Lands.wordAt hid).trans (hto.trans ((Source.Lands.equals heq).trans (.inlineSpace _)))
  have hlt : start < src.skipInlineSpace (eq + 1) := by
    have h1 := (Source.identAt?_bounds hid).1
    have h2 := hto.le
    have h3 := src.le_skipInlineSpace (eq + 1)
    omega
  refine ⟨hmore.trans h.lands, ?_, ?_, ?_, ?_⟩
  · intro t ht
    rcases List.mem_cons.mp ht with rfl | ht
    · exact ⟨.refl _, Nat.lt_of_lt_of_le hlt h.lands.le⟩
    · exact ⟨hmore.trans (h.reached t ht).1, (h.reached t ht).2⟩
  · intro t ht
    rcases List.mem_cons.mp ht with rfl | ht
    · exact ⟨e, hid⟩
    · exact h.word t ht
  · intro t ht
    rcases List.mem_cons.mp ht with rfl | ht
    · exact hfree
    · exact h.free t ht
  · refine List.pairwise_cons.mpr ⟨fun t ht => ?_, h.ordered⟩
    exact Nat.lt_of_lt_of_le hlt (h.reached t ht).1.le

theorem targets_chainedTargets (pos : Nat) :
    Targets src pos (chainedTargets src pos).1 (chainedTargets src pos).2 := by
  fun_induction chainedTargets src pos with
  | case1 => exact .nil _
  | case2 => exact .nil _
  | case3 pos name e h eq hcond targets stop hrec ih =>
    rw [hrec] at ih
    simp only [Bool.or_eq_true, Bool.not_eq_true', not_or, Bool.not_eq_true, Bool.not_eq_false] at hcond
    exact .cons h hcond.1 (.inlineSpace e) hcond.2 ih

/-! ## Statements -/

/-- The records of some targets with one value. -/
theorem finds_targets {start stop next : Nat} {targets : List Target} {value : String} {kind : Kind}
    {scans : List ValueScan} (ht : Targets src start targets stop) (hvalue : value ≠ "")
    (hcollapse : Text.collapse value = value) (hnext : src.Lands .python stop next) :
    Finds .python keywords.contains src index start scans
      (targets.map fun t => ⟨t.name, value, kind, [], index.location t.pos⟩) next where
  le := (ht.lands.trans hnext).le
  stands := by
    intro r hr
    obtain ⟨t, hmem, rfl⟩ := List.mem_map.mp hr
    exact ⟨ht.word t hmem, ht.free t hmem, rfl, rfl, hvalue, hcollapse⟩
  between := by
    intro r hr
    obtain ⟨t, hmem, rfl⟩ := List.mem_map.mp hr
    exact ⟨(ht.reached t hmem).1.le, Nat.lt_of_lt_of_le (ht.reached t hmem).2 hnext.le⟩
  ordered := List.pairwise_map.mpr ht.ordered
  edge := by
    intro hs
    refine ⟨(ht.lands.trans hnext).edge hs, fun r hr => ?_⟩
    obtain ⟨t, hmem, rfl⟩ := List.mem_map.mp hr
    exact (ht.reached t hmem).1.edge hs
  goes := by
    intro _
    refine ⟨(ht.lands.trans hnext).goes, fun r hr => ?_⟩
    obtain ⟨t, hmem, rfl⟩ := List.mem_map.mp hr
    exact (ht.reached t hmem).1.goes

theorem finds_matchValue? (first : Target) {more : List Target} {pos : Nat} {found : Finding}
    {scans : List ValueScan} (hs : first.pos < src.size)
    (ht : Targets src first.pos (first :: more) pos) (hmem : valueScan src limit first.pos pos ∈ scans)
    (h : matchValue? src index limit first more pos = some found) :
    Finds .python keywords.contains src index first.pos scans found.records found.next := by
  have hstart : src.Lands .python pos (src.skipInlineSpace pos) := .inlineSpace pos
  have hle : src.skipInlineSpace pos ≤ src.size := (ht.lands.trans hstart).goes.le_size (Nat.le_of_lt hs)
  unfold matchValue? at h
  dsimp only at h
  generalize hv : Text.collapse (src.codeText _ _ _) = value at h
  have hfinds {next : Nat} (hne : ¬ value.isEmpty = true)
      (hnext : src.Lands .python (src.skipInlineSpace pos) next) :
      Finds .python keywords.contains src index first.pos scans
        ((first :: more).map fun t => ⟨t.name, value, Cue.kindOf .python value, [], index.location t.pos⟩) next :=
    have hvalue := value_of_collapse hv.symm (Bool.eq_false_iff.mpr hne)
    finds_targets ht hvalue.1 hvalue.2 (hstart.trans hnext)
  split at h
  · next hstop =>
    cases h
    exact .ofLimit (Nat.le_refl _) (Nat.le_of_lt hs) hmem hstop
  -- the other three ends differ only in where the search goes on
  · next e hstop =>
    split at h
    · cases h
    · next hne =>
      cases h
      exact hfinds hne (Source.Lands.scan (congrArg Stop.pos? hstop)).2
  · next e hstop =>
    split at h
    · cases h
    · next hne =>
      cases h
      exact hfinds hne (Source.Lands.scan (congrArg Stop.pos? hstop)).1
  · next hstop =>
    split at h
    · cases h
    · next hne =>
      cases h
      exact hfinds hne (.scanToEnd hle hstop)

theorem scan_mem_annotationScans (src : Source) (limit statement pos : Nat) :
    scan src limit statement annotationStops pos ∈ annotationScans src limit statement pos := by
  unfold annotationScans
  dsimp only
  split
  · split
    · exact List.mem_cons_self
    · split <;> exact List.mem_cons_self
  · exact List.mem_cons_self

theorem valueScan_mem_annotationScans {statement pos e : Nat}
    (hstop : (scan src limit statement annotationStops pos).stop = .terminator e)
    (hne : ¬ (Text.trim (src.slice pos (scan src limit statement annotationStops pos).codeEnd)).isEmpty = true)
    (heq : (src.byte? e == some '='.toUInt8) = true) :
    valueScan src limit statement (e + 1) ∈ annotationScans src limit statement pos := by
  unfold annotationScans
  dsimp only
  rw [hstop]
  dsimp only
  rw [if_neg hne, if_pos heq]
  exact List.mem_cons_of_mem _ List.mem_cons_self

theorem finds_matchAnnotated? (target : Target) {pos e : Nat} {found : Finding} (hs : target.pos < src.size)
    (hid : src.identAt? target.pos = some (target.name, e)) (hfree : keywords.contains target.name = false)
    (hto : src.Lands .python target.pos pos) (hlt : target.pos < pos)
    (h : matchAnnotated? src index limit target pos = some found) :
    Finds .python keywords.contains src index target.pos (annotationScans src limit target.pos pos)
      found.records found.next := by
  have hle : pos ≤ src.size := hto.goes.le_size (Nat.le_of_lt hs)
  have hbare {next : Nat} (hnext : src.Lands .python pos next) :
      Finds .python keywords.contains src index target.pos (annotationScans src limit target.pos pos)
        [Record.bare target.name (index.location target.pos)] next :=
    .ofRecord (Record.stands_noValue _ hid hfree) (.refl _)
      (Nat.lt_of_lt_of_le hlt hnext.le) (hto.trans hnext) _
  unfold matchAnnotated? at h
  dsimp only at h
  split at h
  · next hstop =>
    cases h
    exact .ofLimit (Nat.le_refl _) (Nat.le_of_lt hs) (scan_mem_annotationScans src limit target.pos pos) hstop
  · cases h
  · next stop hstop =>
    have hstops := Source.Lands.scan (congrArg Stop.pos? hstop)
    split at h
    · cases h
    · next hne =>
      split at h
      · next heq =>
        -- the value is read as that of a chain of one target, which starts before its annotation
        have htarget : Targets src target.pos [target] (stop + 1) :=
          .single hid hfree (hto.trans hstops.2) (Nat.lt_of_lt_of_le hlt hstops.2.le)
        exact finds_matchValue? target hs htarget (valueScan_mem_annotationScans hstop hne heq) h
      · cases h
        exact hbare hstops.2
  · next hstop =>
    split at h
    · cases h
    · cases h
      exact hbare (.scanToEnd hle hstop)

/-- **A declaration that is found** is one stretch of the search. -/
theorem finds_matchStatement? {start : Nat} {found : Finding}
    (h : matchStatement? src index limit start = some found) :
    Finds .python keywords.contains src index start (statementScans src limit start) found.records
      found.next := by
  unfold matchStatement? at h
  unfold statementScans
  cases hid : src.identAt? start with
  | none =>
    rw [hid] at h
    cases h
  | some word =>
    obtain ⟨name, e⟩ := word
    have hbounds := Source.identAt?_bounds hid
    have hs : start < src.size := Nat.lt_of_lt_of_le hbounds.1 hbounds.2
    have hafter : src.Lands .python start (src.skipInlineSpace e) :=
      (Source.Lands.wordAt hid).trans (.inlineSpace e)
    have hlt : start < src.skipInlineSpace e + 1 :=
      Nat.lt_succ_of_le hafter.le
    rw [hid] at h
    dsimp only at h ⊢
    split at h
    · cases h
    · next hkey =>
      rw [if_neg hkey]
      have hfree : keywords.contains name = false := Bool.eq_false_iff.mpr hkey
      split at h
      · next hann =>
        rw [if_pos hann]
        have hcolon := hann
        simp only [isAnnotationColon, Bool.and_eq_true, beq_iff_eq] at hcolon
        exact finds_matchAnnotated? ⟨name, start⟩ hs hid hfree
          (hafter.trans (.plain hcolon.1 (by decide))) hlt h
      · next hann =>
        rw [if_neg hann]
        split at h
        · next heq =>
          rw [if_pos heq]
          exact finds_matchValue? ⟨name, start⟩ hs
            (.cons hid hfree (.inlineSpace e) heq (targets_chainedTargets _)) List.mem_cons_self h
        · cases h

/-- A statement that declares nothing is a stretch without records. -/
theorem finds_skipStatement {start : Nat} (hs : start < src.size) {scans : List ValueScan}
    (hmem : scan src limit start skipStops start ∈ scans) :
    Finds .python keywords.contains src index start scans [] (skipStatement src limit start) := by
  unfold skipStatement
  split
  · next e hstop => exact .ofLands (Source.Lands.scan (congrArg Stop.pos? hstop)).2 _
  · next e hstop => exact .ofLands (Source.Lands.scan (congrArg Stop.pos? hstop)).2 _
  · next hstop => exact .ofLands (.scanToEnd (Nat.le_of_lt hs) hstop) _
  · next hstop => exact .ofLimit (Nat.le_refl _) (Nat.le_of_lt hs) hmem hstop

/-! ## The whole search -/

/-- **The search is one stretch**, put together from its statements. -/
theorem finds_recordsFrom (src : Source) (index : LineIndex) (limit pos : Nat) :
    ∃ next, Finds .python keywords.contains src index pos (scansFrom src index limit pos)
      (recordsFrom src index limit pos) next := by
  have hspace (pos : Nat) : src.Lands .python pos (src.skipInlineSpace pos) := .inlineSpace pos
  fun_induction recordsFrom src index limit pos with
  | case1 pos start hb =>
    rw [scansFrom_eq, show src.byte? (src.skipInlineSpace pos) = none from hb]
    exact ⟨pos, .ofLands (.refl pos) []⟩
  | case2 pos start b hb hsep ih =>
    obtain ⟨next, ih⟩ := ih
    have hstep : src.Lands .python start (start + 1) := by
      simp only [Bool.or_eq_true, beq_iff_eq] at hsep
      rcases hsep with rfl | rfl <;> exact .plain hb (by decide)
    rw [scansFrom_eq, show src.byte? (src.skipInlineSpace pos) = some b from hb]
    dsimp only
    rw [if_pos hsep]
    exact ⟨next, .after ((hspace pos).trans hstep) ih⟩
  | case3 pos start b hb hsep e hc ih =>
    obtain ⟨next, ih⟩ := ih
    rw [scansFrom_eq, show src.byte? (src.skipInlineSpace pos) = some b from hb]
    dsimp only
    rw [if_neg hsep, show src.commentEnd? .python (src.skipInlineSpace pos) = some e from hc]
    exact ⟨next, .after ((hspace pos).trans (.comment hc)) ih⟩
  | case4 pos start b hb hsep hc found hm ih =>
    obtain ⟨next, ih⟩ := ih
    rw [scansFrom_eq, show src.byte? (src.skipInlineSpace pos) = some b from hb]
    dsimp only
    rw [if_neg hsep, show src.commentEnd? .python (src.skipInlineSpace pos) = none from hc,
      show matchStatement? src index limit (src.skipInlineSpace pos) = some found from hm]
    exact ⟨next, .after (hspace pos) ((finds_matchStatement? hm).trans ih)⟩
  | case5 pos start b hb hsep hc hm ih =>
    obtain ⟨next, ih⟩ := ih
    rw [scansFrom_eq, show src.byte? (src.skipInlineSpace pos) = some b from hb]
    dsimp only
    rw [if_neg hsep, show src.commentEnd? .python (src.skipInlineSpace pos) = none from hc,
      show matchStatement? src index limit (src.skipInlineSpace pos) = none from hm]
    -- the scan that skips the statement comes after those that looked for a declaration in it
    have hskip : Finds .python keywords.contains src index start
        (statementScans src limit start ++ [scan src limit start skipStops start]) []
        (skipStatement src limit start) :=
      finds_skipStatement (Source.byte?_eq_some_lt hb) (List.mem_append_right _ List.mem_cons_self)
    have hall := hskip.trans ih
    rw [List.append_assoc, List.singleton_append, List.nil_append] at hall
    exact ⟨next, .after (hspace pos) hall⟩

/-! ## A bound that is never reached -/

theorem unlimited_statementScans (h : src.size ≤ limit) (start : Nat) :
    Unlimited (statementScans src limit start) := by
  have hscan (statement : Nat) (stops : Stops) (start : Nat) :
      (scan src limit statement stops start).stop ≠ .limit := Source.scanFrom_stop_ne_limit h
  unfold statementScans
  split
  · exact .nil
  · dsimp only
    split
    · exact .nil
    · split
      · unfold annotationScans
        dsimp only
        split
        · split
          · exact .cons (hscan _ _ _) .nil
          · split
            · exact .cons (hscan _ _ _) (.cons (hscan _ _ _) .nil)
            · exact .cons (hscan _ _ _) .nil
        · exact .cons (hscan _ _ _) .nil
      · split
        · exact .cons (hscan _ _ _) .nil
        · exact .nil

/-- No scan of the search runs into a bound as long as the source. -/
theorem unlimited_scansFrom (h : src.size ≤ limit) (index : LineIndex) (pos : Nat) :
    Unlimited (scansFrom src index limit pos) := by
  fun_induction scansFrom src index limit pos with
  | case1 => exact .nil
  | case2 _ _ _ _ _ ih => exact ih
  | case3 _ _ _ _ _ _ _ ih => exact ih
  | case4 pos start b hb _ _ scans found hm ih => exact (unlimited_statementScans h start).concat ih
  | case5 pos start b hb _ _ scans hm ih =>
    exact (unlimited_statementScans h start).concat (.cons (Source.scanFrom_stop_ne_limit h) ih)

end Python
end VarCensus
