import VarCensus.Dialect.Declaration
import VarCensus.Proofs.Findings

/-!
# The search for typed declarations

The front part of a declaration, its declarators and the whole search as moves and stretches, for every
dialect. The one thing that is asked of a dialect is that the separator of its qualified names opens neither
a comment nor a literal.

As for the other scanned language, the scans that are made are listed beside the search
(`declaratorsScans`, `scansFrom`).
-/

namespace VarCensus
namespace Dialect

variable {d : Dialect} {src : Source} {index : LineIndex} {limit : Nat}

theorem isPlain_separator_java : java.separatorBytes.all isPlain = true := by decide +kernel

theorem isPlain_separator_cpp : cpp.separatorBytes.all isPlain = true := by decide +kernel

/-! ## Modifiers and types -/

theorem isPlain_of_isTypeArgumentByte {b : UInt8} (h : isTypeArgumentByte b = true) :
    isPlain b = true := by
  simp only [isTypeArgumentByte, Bool.or_eq_true, List.any_cons, List.any_nil, beq_iff_eq, Bool.or_false] at h
  rcases h with (h | h) | h
  · exact isPlain_of_isIdentByte h
  · exact (isPlain_of_isAsciiBlank h).1
  · rcases h with rfl | rfl | rfl | rfl | rfl | rfl | rfl | rfl <;> decide

theorem goes_typeArgumentsEndFrom? {lex : Lexicon} {start depth pos e : Nat}
    (h : typeArgumentsEndFrom? src start limit depth pos = some e) :
    src.Goes lex pos e ∧ src.Edge e := by
  fun_induction typeArgumentsEndFrom? src start limit depth pos with
  | case1 => cases h
  | case2 _ pos hlt b _ hb ih =>
    have hbyte : src.byte? pos = some b := Array.getElem?_eq_getElem hlt
    rw [beq_iff_eq.mp hb] at hbyte
    exact ⟨(Source.Goes.plain hbyte (by decide)).trans (ih h).1, (ih h).2⟩
  | case3 _ pos hlt b _ _ hb =>
    -- the bracket that closes the first one
    cases h
    have hbyte : src.byte? pos = some b := Array.getElem?_eq_getElem hlt
    rw [beq_iff_eq.mp hb] at hbyte
    exact ⟨.plain hbyte (by decide), Source.edge_succ hbyte (by decide)⟩
  | case4 _ pos hlt b _ _ hb _ ih =>
    have hbyte : src.byte? pos = some b := Array.getElem?_eq_getElem hlt
    rw [beq_iff_eq.mp hb] at hbyte
    exact ⟨(Source.Goes.plain hbyte (by decide)).trans (ih h).1, (ih h).2⟩
  | case5 => cases h
  | case6 _ pos hlt b _ _ _ _ hb ih =>
    have hbyte : src.byte? pos = some b := Array.getElem?_eq_getElem hlt
    exact ⟨(Source.Goes.plain hbyte (isPlain_of_isTypeArgumentByte hb)).trans (ih h).1, (ih h).2⟩
  | case7 => cases h
  | case8 => cases h

theorem lands_typeArgumentsEnd? {lex : Lexicon} {pos e : Nat} (h : typeArgumentsEnd? src limit pos = some e) :
    src.Lands lex pos e := by
  obtain ⟨hgoes, hedge⟩ := goes_typeArgumentsEndFrom? h
  exact ⟨hgoes, fun _ => hedge⟩

theorem lands_dottedEnd? {lex : Lexicon} {pos e : Nat} (h : dottedEnd? src pos = some e) :
    src.Lands lex pos e := by
  fun_induction dottedEnd? src pos with
  | case1 => cases h
  | case2 pos e' hid hdot ih =>
    exact (Source.Lands.word hid).trans ((Source.Lands.plain (beq_iff_eq.mp hdot) (by decide)).trans (ih h))
  | case3 pos e' hid _ =>
    cases h
    exact .word hid

theorem lands_annotationEnd? {pos e : Nat} (h : d.annotationEnd? src limit pos = some e) :
    src.Lands d.lexicon pos e := by
  unfold annotationEnd? at h
  split at h
  · cases h
  · next name hname =>
    have hafter : src.Lands d.lexicon pos (src.skipTrivia d.lexicon name) :=
      (lands_dottedEnd? hname).trans (.trivia name)
    dsimp only at h
    split at h
    · next close hc =>
      cases h
      exact hafter.trans ((Source.Lands.group (by decide) hc).trans (.trivia close))
    · cases h
      exact hafter

theorem lands_skipModifiers? {pos e : Nat} (h : d.skipModifiers? src limit pos = some e) :
    src.Lands d.lexicon pos e := by
  fun_induction skipModifiers? d src limit pos with
  | case1 => cases h
  | case2 pos _ hat e' he ih =>
    simp only [Bool.and_eq_true, beq_iff_eq] at hat
    exact (Source.Lands.plain hat.2 (by decide)).trans ((lands_annotationEnd? he).trans (ih h))
  | case3 pos _ _ word e' hid _ ih => exact (Source.Lands.wordAt hid).trans ((Source.Lands.trivia e').trans (ih h))
  | case4 => cases h; exact .refl _
  | case5 => cases h; exact .refl _
  | case6 => cases h; exact .refl _

theorem lands_moreWords (d : Dialect) (src : Source) (head : TypeHead) :
    src.Lands d.lexicon head.stop (d.moreWords src head).stop := by
  fun_induction moreWords d src head with
  | case1 head word e hid _ ih => exact (Source.Lands.trivia _).trans ((Source.Lands.wordAt hid).trans ih)
  | case2 => exact .refl _
  | case3 => exact .refl _

theorem lands_moreParts? (hsep : d.separatorBytes.all isPlain = true) {head whole : TypeHead}
    (h : d.moreParts? src limit head = some whole) : src.Lands d.lexicon head.stop whole.stop := by
  fun_induction moreParts? d src limit head with
  | case1 => cases h
  | case2 head _ close hc ih => exact (lands_typeArgumentsEnd? hc).trans (ih h)
  | case3 => cases h
  | case4 head _ hs part e hid ih =>
    -- between the separator and the word after it there may be no edge, but there is one after the word
    have hpart : src.Lands d.lexicon head.stop e :=
      ⟨(Source.Goes.startsWith hsep hs).trans (Source.Lands.wordAt hid).goes,
        fun _ => Source.edge_identAt? hid⟩
    exact hpart.trans (ih h)
  | case5 => cases h; exact .refl _

theorem lands_moreDimensions (d : Dialect) (src : Source) (head : TypeHead) :
    src.Lands d.lexicon head.stop (d.moreDimensions src head).stop := by
  fun_induction moreDimensions d src head with
  | case1 head opener closer hb ih =>
    have hopen : src.Lands d.lexicon head.stop (opener + 1) :=
      (Source.Lands.trivia _).trans (.plain hb.1 (by decide))
    have hclose : src.Lands d.lexicon (opener + 1) (closer + 1) :=
      (Source.Lands.trivia _).trans (.plain hb.2 (by decide))
    exact hopen.trans (hclose.trans ih)
  | case2 => exact .refl _

/-- To the end of a type. -/
theorem lands_typeHead? (hsep : d.separatorBytes.all isPlain = true) {pos : Nat} {head : TypeHead}
    (h : d.typeHead? src limit pos = some head) : src.Lands d.lexicon pos head.stop := by
  unfold typeHead? at h
  split at h
  · cases h
  · next first e hid =>
    have hword : src.Lands d.lexicon pos e := .wordAt hid
    split at h
    · cases h
    · split at h
      · cases h
        exact hword
      · dsimp only at h
        split at h
        · cases h
        · next whole hparts =>
          -- only a primitive type goes on over several words
          have hwords : src.Lands d.lexicon e (if d.primitives.contains first then
              d.moreWords src ⟨first, first, false, false, e⟩
            else (⟨first, first, false, false, e⟩ : TypeHead)).stop := by
            split
            · exact lands_moreWords d src ⟨first, first, false, false, e⟩
            · exact .refl _
          split at h
          · cases h
            exact hword.trans (hwords.trans ((lands_moreParts? hsep hparts).trans (lands_moreDimensions d src whole)))
          · cases h

theorem lands_pointerMarks (d : Dialect) (src : Source) (pos : Nat) :
    src.Lands d.lexicon pos (d.pointerMarks src pos).2 := by
  fun_induction pointerMarks d src pos with
  | case1 pos h marks stop hrec ih =>
    rw [hrec] at ih
    exact (Source.Lands.pointerMark h.2).trans ((Source.Lands.trivia _).trans ih)
  | case2 => exact .refl _

theorem lands_dimensions {pos stop : Nat} {text : String}
    (h : d.dimensions src limit pos = .ok (text, stop)) : src.Lands d.lexicon pos stop := by
  fun_induction dimensions d src limit pos generalizing text stop with
  | case1 => cases h
  | case2 => cases h
  | case3 pos _ e he text' stop' hrec ih =>
    cases h
    exact (Source.Lands.group (by decide) he).trans ((Source.Lands.trivia e).trans (ih hrec))
  | case4 => cases h; exact .refl _

/-- To the bracket that is never closed. -/
theorem lands_dimensions_error {pos opener : Nat} (h : d.dimensions src limit pos = .error opener) :
    src.Lands d.lexicon pos opener := by
  fun_induction dimensions d src limit pos generalizing opener with
  | case1 => cases h; exact .refl _
  | case2 pos _ e he opener' hrec ih =>
    cases h
    exact (Source.Lands.group (by decide) he).trans ((Source.Lands.trivia e).trans (ih hrec))
  | case3 => cases h
  | case4 => cases h

theorem declaratorsFrom?_eq_match (d : Dialect) (src : Source) (index : LineIndex) (limit start indent : Nat)
    (head : TypeHead) (recorded : List Record) (pos : Nat) :
    d.declaratorsFrom? src index limit start indent head recorded pos =
      match d.declaratorAt src index limit indent head pos with
      | .found record t =>
        if src.byte? t == some ';'.toUInt8 then some ⟨recorded ++ [record], t + 1⟩
        else d.declaratorsFrom? src index limit start indent head (recorded ++ [record]) (t + 1)
      | .finished next => if recorded.isEmpty then none else some ⟨recorded, max next (start + 1)⟩
      | .abandoned next => some ⟨recorded, next⟩ := by
  rw [declaratorsFrom?]
  split
  · next record t he => rw [he]
  · next next he => rw [he]
  · next next he => rw [he]

/-! ## The scans that are made -/

/-- The scan of the value whose equals sign stands at `pos`. -/
def valueScan (d : Dialect) (src : Source) (limit indent pos : Nat) : ValueScan :=
  src.scanValueUntil d.lexicon valueStops limit (d.startsDeclaration src limit indent)
    (src.skipTrivia d.lexicon (pos + 1))

/-- The scans of the declarator at or after `pos`: of its value, if it has one after an equals sign. -/
def declaratorScans (d : Dialect) (src : Source) (limit indent pos : Nat) : List ValueScan :=
  let pos := src.skipTrivia d.lexicon pos
  let pos := (if d.pointers then d.pointerMarks src pos else ([], pos)).2
  match src.identAt? pos with
  | none => []
  | some (name, e) =>
    if d.isReserved name then []
    else match d.dimensions src limit (src.skipTrivia d.lexicon e) with
      | .error _ => []
      | .ok (_, after) => if src.isLoneEquals after then [d.valueScan src limit indent after] else []

/-- The scans of the declarators from `pos` on. -/
def declaratorsScans (d : Dialect) (src : Source) (index : LineIndex) (limit indent : Nat) (head : TypeHead)
    (pos : Nat) : List ValueScan :=
  let scans := d.declaratorScans src limit indent pos
  match _h : d.declaratorAt src index limit indent head pos with
  | .found _ t =>
    if src.byte? t == some ';'.toUInt8 then scans
    else scans ++ d.declaratorsScans src index limit indent head (t + 1)
  | _ => scans
termination_by src.size - pos
decreasing_by
  have hout := ahead_declaratorAt d src index limit indent head pos
  rw [_h] at hout
  have := hout.1
  have := hout.2
  omega

/-- The scans by which a declaration at `start` is looked for. -/
def declarationScans (d : Dialect) (src : Source) (index : LineIndex) (limit start : Nat) : List ValueScan :=
  match (d.skipModifiers? src limit start).bind (d.typeHead? src limit) with
  | none => []
  | some head => d.declaratorsScans src index limit (src.indentation start) head head.stop

/-- The scans of the whole search from `pos` on. -/
def scansFrom (d : Dialect) (src : Source) (index : LineIndex) (limit pos : Nat) : List ValueScan :=
  let start := src.skipTrivia d.lexicon pos
  if _hs : start < src.size then
    let scans := d.declarationScans src index limit start
    match _h : d.matchDeclaration? src index limit start with
    | some found => scans ++ d.scansFrom src index limit found.next
    | none => scans ++ d.scansFrom src index limit (d.nextStatement src start)
  else []
termination_by src.size - pos
decreasing_by
  · have := src.le_skipTrivia d.lexicon pos
    have := lt_next_of_matchDeclaration? _h
    omega
  · have := src.le_skipTrivia d.lexicon pos
    have := lt_nextStatement d (show src.skipTrivia d.lexicon pos < src.size from _hs)
    omega

theorem declaratorsScans_eq (d : Dialect) (src : Source) (index : LineIndex) (limit indent : Nat)
    (head : TypeHead) (pos : Nat) : d.declaratorsScans src index limit indent head pos =
    match d.declaratorAt src index limit indent head pos with
    | .found _ t =>
      if src.byte? t == some ';'.toUInt8 then d.declaratorScans src limit indent pos
      else d.declaratorScans src limit indent pos ++ d.declaratorsScans src index limit indent head (t + 1)
    | _ => d.declaratorScans src limit indent pos := by
  rw [declaratorsScans]
  split
  · next h => rw [h]
  · next h =>
    split
    · next h' => exact absurd h' (h _ _)
    · rfl

theorem scansFrom_eq (d : Dialect) (src : Source) (index : LineIndex) (limit : Nat) {pos : Nat}
    (hs : src.skipTrivia d.lexicon pos < src.size) : d.scansFrom src index limit pos =
    d.declarationScans src index limit (src.skipTrivia d.lexicon pos) ++
      match d.matchDeclaration? src index limit (src.skipTrivia d.lexicon pos) with
      | some found => d.scansFrom src index limit found.next
      | none => d.scansFrom src index limit (d.nextStatement src (src.skipTrivia d.lexicon pos)) := by
  rw [scansFrom, dif_pos hs]
  split
  · next h => rw [h]
  · next h => rw [h]

/-! ## Declarators -/

/-- What a declarator that is looked for from `pos` on comes to, as a stretch of the search. -/
def Declarator.Follows (d : Dialect) (src : Source) (index : LineIndex) (pos : Nat)
    (scans : List ValueScan) : Declarator → Prop
  | .found record t => Finds d.lexicon d.isReserved src index pos scans [record] (t + 1)
  | .finished next => Finds d.lexicon d.isReserved src index pos scans [] next
  | .abandoned next => Finds d.lexicon d.isReserved src index pos scans [] next

theorem Declarator.Follows.after {pos pos' : Nat} {scans : List ValueScan} {outcome : Declarator}
    (hl : src.Lands d.lexicon pos pos') (h : outcome.Follows d src index pos' scans) :
    outcome.Follows d src index pos scans := by
  cases outcome with
  | found => exact Finds.after hl h
  | finished => exact Finds.after hl h
  | abandoned => exact Finds.after hl h

/-- A record of a value, for the name at `namePos`. -/
def RecordsName (d : Dialect) (src : Source) (index : LineIndex) (namePos : Nat) (recordOf : String → Record) :
    Prop :=
  ∀ value, value ≠ "" → Text.collapse value = value →
    (recordOf value).Stands d.isReserved src index ∧ (recordOf value).declaredAt.offset = namePos

theorem RecordsName.finds {namePos next : Nat} {recordOf : String → Record}
    (h : d.RecordsName src index namePos recordOf) {value text : String} (hv : value = Text.collapse text)
    (hne : ¬ value.isEmpty = true) (hlt : namePos < next) (hnext : src.Lands d.lexicon namePos next)
    (scans : List ValueScan) :
    Finds d.lexicon d.isReserved src index namePos scans [recordOf value] next := by
  have hvalue := value_of_collapse hv (Bool.eq_false_iff.mpr hne)
  obtain ⟨hstands, hplace⟩ := h value hvalue.1 hvalue.2
  exact .ofRecord hstands (hplace ▸ .refl _) (hplace ▸ hlt) hnext scans

theorem follows_assigned {indent namePos pos : Nat} {recordOf : String → Record} {scans : List ValueScan}
    (hrec : d.RecordsName src index namePos recordOf) (hto : src.Lands d.lexicon namePos pos)
    (heq : src.isLoneEquals pos = true) (hmem : d.valueScan src limit indent pos ∈ scans) :
    (d.assigned src limit indent namePos pos recordOf).Follows d src index namePos scans := by
  have hlt : pos < src.size := by
    simp only [Source.isLoneEquals, Bool.and_eq_true, beq_iff_eq] at heq
    exact Source.byte?_eq_some_lt heq.1.1
  have hstart : src.Lands d.lexicon namePos (src.skipTrivia d.lexicon (pos + 1)) :=
    hto.trans ((Source.Lands.equals heq).trans (.trivia _))
  unfold assigned
  dsimp only
  split
  · next e hstop =>
    have hnext := hstart.trans (Source.Lands.scan (congrArg Stop.pos? hstop)).2
    split
    · exact .ofLands hnext _
    · next hne =>
      have hle : namePos ≤ e := (hstart.trans (Source.Lands.scan (congrArg Stop.pos? hstop)).1).le
      exact hrec.finds rfl hne (Nat.lt_succ_of_le hle) hnext _
  · next hstop => exact .ofLimit (Nat.le_refl _) (Nat.le_trans hto.le (Nat.le_of_lt hlt)) hmem hstop
  · next e hstop => exact .ofLands (hstart.trans (Source.Lands.scan (congrArg Stop.pos? hstop)).1) _
  · next hstop =>
    have hle : src.skipTrivia d.lexicon (pos + 1) ≤ src.size := Source.skipTrivia_le d.lexicon hlt
    exact .ofLands (hstart.trans (.scanToEnd hle hstop)) _

theorem lands_separator {pos : Nat}
    (h : (src.byte? pos == some ';'.toUInt8 || src.byte? pos == some ','.toUInt8) = true) {lex : Lexicon} :
    src.Lands lex pos (pos + 1) := by
  simp only [Bool.or_eq_true, beq_iff_eq] at h
  rcases h with h | h
  · exact .plain h (by decide)
  · exact .plain h (by decide)

theorem follows_braced {namePos pos : Nat} {recordOf : String → Record}
    (hrec : d.RecordsName src index namePos recordOf) (hto : src.Lands d.lexicon namePos pos)
    (hbrace : src.byte? pos = some '\x7b'.toUInt8) (scans : List ValueScan) :
    (d.braced src limit pos recordOf).Follows d src index namePos scans := by
  have hopen : src.Lands d.lexicon namePos (pos + 1) := hto.trans (.plain hbrace (by decide))
  unfold braced
  split
  · exact .ofLands hopen _
  · next e he =>
    have hafter : src.Lands d.lexicon namePos (src.skipTrivia d.lexicon e) :=
      hto.trans ((Source.Lands.group (by decide) he).trans (.trivia e))
    dsimp only
    split
    · next hb =>
      split
      · exact .ofLands (hafter.trans (lands_separator hb)) _
      · next hne =>
        exact hrec.finds rfl hne (Nat.lt_succ_of_le hafter.le) (hafter.trans (lands_separator hb)) _
    · exact .ofLands hopen _

theorem follows_declaratorValue {indent namePos pos e : Nat} {head : TypeHead} {name type : String}
    {scans : List ValueScan} (hid : src.identAt? namePos = some (name, e))
    (hfree : d.isReserved name = false) (hto : src.Lands d.lexicon namePos pos)
    (hmem : src.isLoneEquals pos = true → d.valueScan src limit indent pos ∈ scans) :
    (d.declaratorValue src (index.location namePos) limit indent head name type namePos pos).Follows d src
      index namePos scans := by
  unfold declaratorValue
  dsimp only
  have hrec : d.RecordsName src index namePos fun value =>
      ⟨name, value, kindOf head type value, [], index.location namePos⟩ :=
    fun value hne hcollapse => ⟨⟨⟨e, hid⟩, hfree, rfl, rfl, hne, hcollapse⟩, rfl⟩
  split
  · next heq => exact follows_assigned hrec hto heq (hmem heq)
  · split
    · next hb =>
      simp only [Bool.and_eq_true, beq_iff_eq] at hb
      exact follows_braced hrec hto hb.2 scans
    · split
      · next hb =>
        exact .ofRecord (Record.stands_noValue _ hid hfree) (.refl _) (Nat.lt_succ_of_le hto.le)
          (hto.trans (lands_separator hb)) _
      · exact .ofLands hto _

/-- **A declarator** is one stretch of the search, however it comes out. -/
theorem follows_declaratorAt (d : Dialect) (src : Source) (index : LineIndex) (limit indent : Nat)
    (head : TypeHead) (pos : Nat) :
    (d.declaratorAt src index limit indent head pos).Follows d src index pos
      (d.declaratorScans src limit indent pos) := by
  unfold declaratorAt declaratorScans
  dsimp only
  have hname : src.Lands d.lexicon pos
      (if d.pointers = true then d.pointerMarks src (src.skipTrivia d.lexicon pos)
        else ([], src.skipTrivia d.lexicon pos)).2 := by
    refine (Source.Lands.trivia pos).trans ?_
    split
    · exact lands_pointerMarks d src _
    · exact .refl _
  -- from here on only the position after the marks matters
  generalize (if d.pointers = true then d.pointerMarks src (src.skipTrivia d.lexicon pos)
    else ([], src.skipTrivia d.lexicon pos)) = marked at hname ⊢
  cases hid : src.identAt? marked.2 with
  | none => exact Finds.ofLands hname []
  | some word =>
    obtain ⟨name, e⟩ := word
    have hword : src.Lands d.lexicon marked.2 (src.skipTrivia d.lexicon e) :=
      (Source.Lands.wordAt hid).trans (.trivia e)
    dsimp only
    by_cases hfree : d.isReserved name = true
    · rw [if_pos hfree, if_pos hfree]
      exact Finds.ofLands hname []
    · rw [if_neg hfree, if_neg hfree]
      cases hd : d.dimensions src limit (src.skipTrivia d.lexicon e) with
      | error opener => exact Finds.ofLands (hname.trans (hword.trans (lands_dimensions_error hd))) []
      | ok read =>
        refine Declarator.Follows.after hname (follows_declaratorValue hid (Bool.eq_false_iff.mpr hfree)
          (hword.trans (lands_dimensions hd)) fun heq => ?_)
        dsimp only
        rw [if_pos heq]
        exact List.mem_cons_self

/-! ## Declarations -/

/-- The declarators from `pos` on carry a stretch further that has come to `pos`. The induction is on the
declarators, with what has been scanned so far left open. -/
theorem finds_declaratorsFrom? {start indent pos : Nat} {head : TypeHead} {recorded : List Record}
    {scans : List ValueScan} {found : Finding} (hlt : start < pos)
    (hdone : Finds d.lexicon d.isReserved src index start scans recorded pos)
    (h : d.declaratorsFrom? src index limit start indent head recorded pos = some found) :
    Finds d.lexicon d.isReserved src index start
      (scans ++ d.declaratorsScans src index limit indent head pos) found.records found.next := by
  fun_induction declaratorsFrom? d src index limit start indent head recorded pos generalizing scans with
  | case1 recorded pos record t hout hb =>
    cases h
    have hone := follows_declaratorAt d src index limit indent head pos
    rw [hout] at hone
    rw [declaratorsScans_eq, hout]
    dsimp only
    rw [if_pos hb]
    exact hdone.trans hone
  | case2 recorded pos record t hout hb ih =>
    have hone := follows_declaratorAt d src index limit indent head pos
    rw [hout] at hone
    rw [declaratorsScans_eq, hout]
    dsimp only
    rw [if_neg hb, ← List.append_assoc]
    have hgo : Finds d.lexicon d.isReserved src index start
        (scans ++ d.declaratorScans src limit indent pos) (recorded ++ [record]) (t + 1) := hdone.trans hone
    exact ih (Nat.lt_of_lt_of_le hlt (Finds.le hone)) hgo h
  | case3 => cases h
  | case4 recorded pos next hout _ =>
    cases h
    have hone : Finds d.lexicon d.isReserved src index pos (d.declaratorScans src limit indent pos) [] next := by
      have := follows_declaratorAt d src index limit indent head pos
      rwa [hout] at this
    rw [declaratorsScans_eq, hout]
    dsimp only
    -- the declaration has declared something, so it ends after its first byte anyway
    rw [Nat.max_eq_left (Nat.lt_of_lt_of_le hlt hone.le)]
    have hall := hdone.trans hone
    rwa [List.append_nil] at hall
  | case5 recorded pos next hout =>
    cases h
    have hone : Finds d.lexicon d.isReserved src index pos (d.declaratorScans src limit indent pos) [] next := by
      have := follows_declaratorAt d src index limit indent head pos
      rwa [hout] at this
    rw [declaratorsScans_eq, hout]
    have hall := hdone.trans hone
    rwa [List.append_nil] at hall

/-- **A declaration that is found** is one stretch of the search. -/
theorem finds_matchDeclaration? (hsep : d.separatorBytes.all isPlain = true) {start : Nat}
    {found : Finding} (h : d.matchDeclaration? src index limit start = some found) :
    Finds d.lexicon d.isReserved src index start (d.declarationScans src index limit start) found.records
      found.next := by
  unfold matchDeclaration? at h
  unfold declarationScans
  split at h
  · cases h
  · next pos hm =>
    split at h
    · cases h
    · next head hh =>
      rw [hm, Option.bind_some, hh]
      have hfront : src.Lands d.lexicon start head.stop :=
        (lands_skipModifiers? hm).trans (lands_typeHead? hsep hh)
      have hlt : start < head.stop := Nat.lt_of_le_of_lt (lands_skipModifiers? hm).le (lt_stop_of_typeHead? hh)
      exact finds_declaratorsFrom? hlt (.ofLands hfront []) h

theorem goes_nextStatement (d : Dialect) {src : Source} {pos : Nat} (hle : pos ≤ src.size) :
    src.Goes d.lexicon pos (d.nextStatement src pos) ∧ src.Edge (d.nextStatement src pos) := by
  fun_induction nextStatement d src pos with
  | case1 pos _ e he ih =>
    obtain ⟨hgoes, hedge⟩ := ih (Source.enclosedEnd?_bounds he).2
    exact ⟨(Source.Goes.enclosed he).trans hgoes, hedge⟩
  | case2 pos hlt he b hb =>
    have hbyte : src.byte? pos = some b := Array.getElem?_eq_getElem hlt
    simp only [Bool.or_eq_true, beq_iff_eq] at hb
    refine ⟨.byte hbyte he, Source.edge_succ hbyte ?_⟩
    rcases hb with (hb | hb) | hb <;> rw [hb] <;> decide
  | case3 pos hlt he b _ hb hcolon ih =>
    -- two colons are two bytes of the plain reading: a second colon opens nothing
    have hbyte : src.byte? pos = some b := Array.getElem?_eq_getElem hlt
    have hbyte' := beq_iff_eq.mp hcolon
    obtain ⟨hgoes, hedge⟩ := ih (Source.byte?_eq_some_lt hbyte')
    exact ⟨(Source.Goes.byte hbyte he).trans ((Source.Goes.plain hbyte' (by decide)).trans hgoes), hedge⟩
  | case4 pos hlt he b _ hb _ =>
    have hbyte : src.byte? pos = some b := Array.getElem?_eq_getElem hlt
    exact ⟨.byte hbyte he, Source.edge_succ hbyte (by rw [beq_iff_eq.mp hb]; decide)⟩
  | case5 pos hlt he b _ _ hb =>
    have hbyte : src.byte? pos = some b := Array.getElem?_eq_getElem hlt
    simp only [Bool.and_eq_true, beq_iff_eq] at hb
    exact ⟨.byte hbyte he, Source.edge_succ hbyte (by rw [hb.1]; decide)⟩
  | case6 pos hlt he b _ _ _ ih =>
    have hbyte : src.byte? pos = some b := Array.getElem?_eq_getElem hlt
    obtain ⟨hgoes, hedge⟩ := ih hlt
    exact ⟨(Source.Goes.byte hbyte he).trans hgoes, hedge⟩
  | case7 pos hlt =>
    have hend : pos = src.bytes.size := Nat.le_antisymm hle (Nat.le_of_not_lt hlt)
    exact ⟨by rw [hend]; exact .refl _, Source.edge_size⟩

theorem lands_nextStatement (d : Dialect) {src : Source} {pos : Nat} (hle : pos ≤ src.size) :
    src.Lands d.lexicon pos (d.nextStatement src pos) := by
  obtain ⟨hgoes, hedge⟩ := goes_nextStatement d hle
  exact ⟨hgoes, fun _ => hedge⟩

/-! ## The whole search -/

/-- **The search is one stretch**, put together from its declarations and the moves between them. -/
theorem finds_recordsFrom (hsep : d.separatorBytes.all isPlain = true) (src : Source)
    (index : LineIndex) (limit pos : Nat) :
    ∃ next, Finds d.lexicon d.isReserved src index pos (d.scansFrom src index limit pos)
      (d.recordsFrom src index limit pos) next := by
  have htrivia (pos : Nat) : src.Lands d.lexicon pos (src.skipTrivia d.lexicon pos) := .trivia pos
  fun_induction recordsFrom d src index limit pos with
  | case1 pos start hs found hm ih =>
    obtain ⟨next, ih⟩ := ih
    rw [scansFrom_eq d src index limit hs, show d.matchDeclaration? src index limit
      (src.skipTrivia d.lexicon pos) = some found from hm]
    exact ⟨next, .after (htrivia pos) ((finds_matchDeclaration? hsep hm).trans ih)⟩
  | case2 pos start hs hm ih =>
    obtain ⟨next, ih⟩ := ih
    rw [scansFrom_eq d src index limit hs, show d.matchDeclaration? src index limit
      (src.skipTrivia d.lexicon pos) = none from hm]
    have hskip : Finds d.lexicon d.isReserved src index start (d.declarationScans src index limit start) []
        (d.nextStatement src start) := .ofLands (lands_nextStatement d (Nat.le_of_lt hs)) _
    exact ⟨next, .after (htrivia pos) (hskip.trans ih)⟩
  | case3 pos start hs =>
    exact ⟨pos, by rw [scansFrom, dif_neg hs]; exact .ofLands (.refl pos) []⟩

/-! ## A bound that is never reached -/

theorem unlimited_declaratorScans (h : src.size ≤ limit) (d : Dialect) (indent pos : Nat) :
    Unlimited (d.declaratorScans src limit indent pos) := by
  unfold declaratorScans
  dsimp only
  split
  · exact .nil
  · split
    · exact .nil
    · split
      · exact .nil
      · split
        · exact .cons (Source.scanFrom_stop_ne_limit h) .nil
        · exact .nil

theorem unlimited_declaratorsScans (h : src.size ≤ limit) (d : Dialect) (index : LineIndex) (indent : Nat)
    (head : TypeHead) (pos : Nat) : Unlimited (d.declaratorsScans src index limit indent head pos) := by
  have hone (pos : Nat) := unlimited_declaratorScans h d indent pos
  fun_induction declaratorsScans d src index limit indent head pos with
  | case1 pos => exact hone pos
  | case2 pos scans _ _ _ _ ih => exact (hone pos).concat ih
  | case3 pos => exact hone pos

/-- No scan of the search runs into a bound as long as the source. -/
theorem unlimited_scansFrom (h : src.size ≤ limit) (d : Dialect) (index : LineIndex) (pos : Nat) :
    Unlimited (d.scansFrom src index limit pos) := by
  have hone (start : Nat) : Unlimited (d.declarationScans src index limit start) := by
    unfold declarationScans
    split
    · exact .nil
    · exact unlimited_declaratorsScans h d index _ _ _
  fun_induction scansFrom d src index limit pos with
  | case1 pos start _ scans found _ ih => exact (hone start).concat ih
  | case2 pos start _ scans _ ih => exact (hone start).concat ih
  | case3 => exact .nil

end Dialect
end VarCensus
