import VarCensus.Proofs.CommentedDeclarations
import VarCensus.Proofs.JoinedTexts

/-!
# A larger bound

Every forward search gives up when it has gone further than its bound. A search that came to an end before that
comes to the same end with any bound that lets it go as far (`AsFar`): a larger one, or one that is as large as
the source, since no search goes further than that.

Not everything built on these searches keeps what it found. Where an annotation's arguments are not closed within
the bound, the annotation is taken to have none, and a declaration that was dropped may be found. But two bounds
that are both as large as the source cannot be told apart by a search that succeeds with either, so then all
functions of the limit agree, one after the other, up to `extract_of_lookahead`.
-/

namespace VarCensus
namespace Source

/-- The second of two bounds gets as far in a source as the first. -/
def AsFar (src : Source) (limit limit' : Nat) : Prop :=
  limit ≤ limit' ∨ src.size ≤ limit'

variable {src : Source} {lex : Lexicon} {limit limit' start pos : Nat}

/-- A position within the first bound is within the second. -/
theorem AsFar.within (h : src.AsFar limit limit') (hlt : pos < src.size) (hpos : ¬ limit < pos - start) :
    ¬ limit' < pos - start := by
  unfold AsFar at h
  omega

/-! ## Searches that came to an end -/

/-- **A scan that was not cut off** finds the same with a bound that gets as far. -/
theorem scanFrom_of_asFar {stops : Stops} {starts : Nat → Bool} {closers : List UInt8} {codeEnd : Nat}
    (hfar : src.AsFar limit limit')
    (h : (src.scanFrom lex stops starts start limit closers pos codeEnd).stop ≠ .limit) :
    src.scanFrom lex stops starts start limit' closers pos codeEnd =
      src.scanFrom lex stops starts start limit closers pos codeEnd := by
  have hwithin {pos : Nat} {piece : Piece} (hp : src.pieceAt? lex pos = some piece)
      (hpos : ¬ limit < pos - start) : ¬ limit' < pos - start := by
    have hbounds := pieceAt?_bounds hp
    exact hfar.within (Nat.lt_of_lt_of_le hbounds.1 hbounds.2) hpos
  fun_induction scanFrom lex src stops starts start limit closers pos codeEnd with
  | case1 closers pos codeEnd hnone => rw [scanFrom_eq_match, hnone]
  | case2 => exact absurd rfl h
  | case3 closers pos codeEnd hlimit e hp _ ih | case4 closers pos codeEnd hlimit e hp _ ih
  | case5 closers pos codeEnd hlimit e hp _ ih =>
    rw [scanFrom_eq_match, hp, ← ih h]
    exact if_neg (hwithin hp hlimit)
  | case6 closers pos codeEnd hlimit b hp stop hv =>
    rw [scanFrom_eq_match, hp]
    simp only [hv]
    exact if_neg (hwithin hp hlimit)
  | case7 closers pos codeEnd hlimit b hp closers' hv _ ih =>
    rw [scanFrom_eq_match, hp]
    simp only [hv]
    exact (if_neg (hwithin hp hlimit)).trans (ih h)

theorem scanValueUntil_of_asFar {stops : Stops} {starts : Nat → Bool} (hfar : src.AsFar limit limit')
    (h : (src.scanValueUntil lex stops limit starts start).stop ≠ .limit) :
    src.scanValueUntil lex stops limit' starts start = src.scanValueUntil lex stops limit starts start :=
  scanFrom_of_asFar hfar h

/-- Within the bound, the search for a group's end goes on by what stands at its place. -/
theorem groupEndFrom?_of_within {opener closer : UInt8} {depth : Nat} (hlt : pos < src.bytes.size)
    (hwithin : ¬ limit < pos - start) :
    src.groupEndFrom? lex opener closer start limit depth pos =
      match src.enclosedEnd? lex pos with
      | some e => src.groupEndFrom? lex opener closer start limit depth e
      | none =>
        if src.bytes[pos] == opener then src.groupEndFrom? lex opener closer start limit (depth + 1) (pos + 1)
        else if src.bytes[pos] == closer then
          if depth == 1 then some (pos + 1)
          else src.groupEndFrom? lex opener closer start limit (depth - 1) (pos + 1)
        else src.groupEndFrom? lex opener closer start limit depth (pos + 1) :=
  (Twins.groupEndFrom?_eq_ite (Array.getElem?_eq_getElem hlt)).trans (if_neg hwithin)

theorem groupEndFrom?_of_asFar {opener closer : UInt8} {depth e : Nat} (hfar : src.AsFar limit limit')
    (h : src.groupEndFrom? lex opener closer start limit depth pos = some e) :
    src.groupEndFrom? lex opener closer start limit' depth pos = some e := by
  fun_induction groupEndFrom? lex src opener closer start limit depth pos with
  | case1 => cases h
  | case2 depth pos hlt hlimit e' he ih =>
    rw [groupEndFrom?_of_within hlt (hfar.within hlt hlimit), he]
    exact ih h
  | case3 depth pos hlt hlimit he hopen ih =>
    rw [groupEndFrom?_of_within hlt (hfar.within hlt hlimit), he]
    dsimp only
    rw [if_pos hopen]
    exact ih h
  | case4 depth pos hlt hlimit he hopen hclose hdepth =>
    rw [groupEndFrom?_of_within hlt (hfar.within hlt hlimit), he]
    dsimp only
    rw [if_neg hopen, if_pos hclose, if_pos hdepth, h]
  | case5 depth pos hlt hlimit he hopen hclose hdepth ih =>
    rw [groupEndFrom?_of_within hlt (hfar.within hlt hlimit), he]
    dsimp only
    rw [if_neg hopen, if_pos hclose, if_neg hdepth]
    exact ih h
  | case6 depth pos hlt hlimit he hopen hclose ih =>
    rw [groupEndFrom?_of_within hlt (hfar.within hlt hlimit), he]
    dsimp only
    rw [if_neg hopen, if_neg hclose]
    exact ih h
  | case7 => cases h

/-- **A group that was closed** is closed at the same place. -/
theorem groupEnd?_of_asFar {opener closer : UInt8} {e : Nat} (hfar : src.AsFar limit limit')
    (h : src.groupEnd? lex opener closer limit pos = some e) :
    src.groupEnd? lex opener closer limit' pos = some e := by
  unfold groupEnd? at h ⊢
  split at h
  · next hopen =>
    rw [if_pos hopen]
    exact groupEndFrom?_of_asFar hfar h
  · cases h

end Source

namespace Dialect

open Source

variable {d : Dialect} {src : Source} {limit limit' start pos : Nat}

theorem typeArgumentsEndFrom?_of_asFar {depth e : Nat} (hfar : src.AsFar limit limit')
    (h : typeArgumentsEndFrom? src start limit depth pos = some e) :
    typeArgumentsEndFrom? src start limit' depth pos = some e := by
  fun_induction typeArgumentsEndFrom? src start limit depth pos with
  | case1 => cases h
  | case2 depth pos hlt b hlimit hopen ih =>
    rw [typeArgumentsEndFrom?_eq_ite (Array.getElem?_eq_getElem hlt), if_neg (hfar.within hlt hlimit), if_pos hopen]
    exact ih h
  | case3 depth pos hlt b hlimit hopen hclose hdepth =>
    rw [typeArgumentsEndFrom?_eq_ite (Array.getElem?_eq_getElem hlt), if_neg (hfar.within hlt hlimit), if_neg hopen,
      if_pos hclose, if_pos hdepth, h]
  | case4 depth pos hlt b hlimit hopen hclose hdepth ih =>
    rw [typeArgumentsEndFrom?_eq_ite (Array.getElem?_eq_getElem hlt), if_neg (hfar.within hlt hlimit), if_neg hopen,
      if_pos hclose, if_neg hdepth]
    exact ih h
  | case5 => cases h
  | case6 depth pos hlt b hlimit hopen hclose hand hargument ih =>
    rw [typeArgumentsEndFrom?_eq_ite (Array.getElem?_eq_getElem hlt), if_neg (hfar.within hlt hlimit), if_neg hopen,
      if_neg hclose, if_neg hand, if_pos hargument]
    exact ih h
  | case7 => cases h
  | case8 => cases h

/-- **A list of type arguments that was closed** is closed at the same place. -/
theorem typeArgumentsEnd?_of_asFar {e : Nat} (hfar : src.AsFar limit limit')
    (h : typeArgumentsEnd? src limit pos = some e) : typeArgumentsEnd? src limit' pos = some e :=
  typeArgumentsEndFrom?_of_asFar hfar h

/-- Brackets behind a name that were read are read again. -/
theorem dimensions_of_asFar {text : String} {stop : Nat} (hfar : src.AsFar limit limit')
    (h : d.dimensions src limit pos = .ok (text, stop)) : d.dimensions src limit' pos = .ok (text, stop) := by
  fun_induction dimensions d src limit pos generalizing text stop with
  | case1 => cases h
  | case2 => cases h
  | case3 pos hopen e he text' stop' hrest ih =>
    cases h
    rw [dimensions_eq_match, if_pos hopen, groupEnd?_of_asFar hfar he]
    simp only [ih hrest]
  | case4 pos hopen =>
    rw [dimensions_eq_match, if_neg hopen, h]

/-! ## Bounds as large as the source -/

section Large

variable (hl : src.size ≤ limit) (hl' : src.size ≤ limit')

include hl hl'

theorem groupEnd?_of_large (lex : Lexicon) (opener closer : UInt8) (pos : Nat) :
    src.groupEnd? lex opener closer limit' pos = src.groupEnd? lex opener closer limit pos :=
  Option.ext fun _ => ⟨groupEnd?_of_asFar (Or.inr hl), groupEnd?_of_asFar (Or.inr hl')⟩

theorem typeArgumentsEnd?_of_large (pos : Nat) :
    typeArgumentsEnd? src limit' pos = typeArgumentsEnd? src limit pos :=
  Option.ext fun _ => ⟨typeArgumentsEnd?_of_asFar (Or.inr hl), typeArgumentsEnd?_of_asFar (Or.inr hl')⟩

theorem scanValueUntil_of_large (lex : Lexicon) (stops : Stops) (starts : Nat → Bool) (start : Nat) :
    src.scanValueUntil lex stops limit' starts start = src.scanValueUntil lex stops limit starts start :=
  scanValueUntil_of_asFar (Or.inr hl') (scanFrom_stop_ne_limit hl)

theorem annotationEnd?_of_large (d : Dialect) (pos : Nat) :
    d.annotationEnd? src limit' pos = d.annotationEnd? src limit pos := by
  simp only [annotationEnd?, groupEnd?_of_large hl hl']

theorem skipModifiers?_of_large (d : Dialect) (pos : Nat) :
    d.skipModifiers? src limit' pos = d.skipModifiers? src limit pos := by
  fun_induction skipModifiers? d src limit pos with
  | case1 pos hlt hsign hnone =>
    rw [skipModifiers?_eq_match d src limit' hlt, if_pos hsign, annotationEnd?_of_large hl hl', hnone]
  | case2 pos hlt hsign e he ih =>
    rw [skipModifiers?_eq_match d src limit' hlt, if_pos hsign, annotationEnd?_of_large hl hl', he]
    exact ih
  | case3 pos hlt hsign word e hid hmodifier ih =>
    rw [skipModifiers?_eq_match d src limit' hlt, if_neg hsign, hid]
    dsimp only
    rw [if_pos hmodifier]
    exact ih
  | case4 pos hlt hsign word e hid hmodifier =>
    rw [skipModifiers?_eq_match d src limit' hlt, if_neg hsign, hid]
    exact if_neg hmodifier
  | case5 pos hlt hsign hnone => rw [skipModifiers?_eq_match d src limit' hlt, if_neg hsign, hnone]
  | case6 pos hlt => rw [skipModifiers?, dif_neg hlt]

theorem moreParts?_of_large (d : Dialect) (head : TypeHead) :
    d.moreParts? src limit' head = d.moreParts? src limit head := by
  fun_induction moreParts? d src limit head with
  | case1 head hopen hnone =>
    rw [moreParts?_eq_match, if_pos hopen, typeArgumentsEnd?_of_large hl hl', hnone]
  | case2 head hopen close hclose ih =>
    rw [moreParts?_eq_match, if_pos hopen, typeArgumentsEnd?_of_large hl hl', hclose]
    exact ih
  | case3 head hopen hsep hnone => rw [moreParts?_eq_match, if_neg hopen, if_pos hsep, hnone]
  | case4 head hopen hsep part e hid ih =>
    rw [moreParts?_eq_match, if_neg hopen, if_pos hsep, hid]
    exact ih
  | case5 head hopen hsep => rw [moreParts?_eq_match, if_neg hopen, if_neg hsep]

theorem typeHead?_of_large (d : Dialect) (pos : Nat) : d.typeHead? src limit' pos = d.typeHead? src limit pos := by
  simp only [typeHead?, moreParts?_of_large hl hl']

theorem startsDeclaration_of_large (d : Dialect) (indent : Nat) :
    d.startsDeclaration src limit' indent = d.startsDeclaration src limit indent := by
  funext line
  have hhead : d.typeHead? src limit' = d.typeHead? src limit := funext (typeHead?_of_large hl hl' d)
  simp only [startsDeclaration, skipModifiers?_of_large hl hl', hhead]

theorem dimensions_of_large (d : Dialect) (pos : Nat) :
    d.dimensions src limit' pos = d.dimensions src limit pos := by
  fun_induction dimensions d src limit pos with
  | case1 pos hopen hnone => rw [dimensions_eq_match, if_pos hopen, groupEnd?_of_large hl hl', hnone]
  | case2 pos hopen e he opener hrest ih =>
    rw [dimensions_eq_match, if_pos hopen, groupEnd?_of_large hl hl', he]
    simp only [ih, hrest]
  | case3 pos hopen e he text stop hrest ih =>
    rw [dimensions_eq_match, if_pos hopen, groupEnd?_of_large hl hl', he]
    simp only [ih, hrest]
  | case4 pos hopen => rw [dimensions_eq_match, if_neg hopen]

theorem declaratorAt_of_large (d : Dialect) (index : LineIndex) (indent : Nat) (head : TypeHead) (pos : Nat) :
    d.declaratorAt src index limit' indent head pos = d.declaratorAt src index limit indent head pos := by
  have hassigned : d.assigned src limit' = d.assigned src limit := by
    funext indent namePos pos recordOf
    simp only [assigned, startsDeclaration_of_large hl hl', scanValueUntil_of_large hl hl']
  have hbraced : d.braced src limit' = d.braced src limit := by
    funext pos recordOf
    simp only [braced, groupEnd?_of_large hl hl']
  simp only [declaratorAt, declaratorValue, hassigned, hbraced, dimensions_of_large hl hl']

theorem declaratorsFrom?_of_large (d : Dialect) (index : LineIndex) (start indent : Nat) (head : TypeHead)
    (recorded : List Record) (pos : Nat) :
    d.declaratorsFrom? src index limit' start indent head recorded pos =
      d.declaratorsFrom? src index limit start indent head recorded pos := by
  fun_induction declaratorsFrom? d src index limit start indent head recorded pos with
  | case1 recorded pos record t hout hend =>
    rw [declaratorsFrom?_eq_match, declaratorAt_of_large hl hl', hout]
    exact if_pos hend
  | case2 recorded pos record t hout hend ih =>
    rw [declaratorsFrom?_eq_match, declaratorAt_of_large hl hl', hout]
    exact (if_neg hend).trans ih
  | case3 recorded pos next hout hempty =>
    rw [declaratorsFrom?_eq_match, declaratorAt_of_large hl hl', hout]
    exact if_pos hempty
  | case4 recorded pos next hout hempty =>
    rw [declaratorsFrom?_eq_match, declaratorAt_of_large hl hl', hout]
    exact if_neg hempty
  | case5 recorded pos next hout => rw [declaratorsFrom?_eq_match, declaratorAt_of_large hl hl', hout]

theorem matchDeclaration?_of_large (d : Dialect) (index : LineIndex) (start : Nat) :
    d.matchDeclaration? src index limit' start = d.matchDeclaration? src index limit start := by
  simp only [matchDeclaration?, skipModifiers?_of_large hl hl', typeHead?_of_large hl hl',
    declaratorsFrom?_of_large hl hl']

/-- **Two large bounds find the same declarations.** -/
theorem recordsFrom_of_large (d : Dialect) (index : LineIndex) (pos : Nat) :
    d.recordsFrom src index limit' pos = d.recordsFrom src index limit pos := by
  fun_induction recordsFrom d src index limit pos with
  | case1 pos start hs found hm ih =>
    have hm : d.matchDeclaration? src index limit (src.skipTrivia d.lexicon pos) = some found := hm
    rw [recordsFrom_eq_match d src index limit' hs, matchDeclaration?_of_large hl hl', hm, ← ih]
  | case2 pos start hs hm ih =>
    have hm : d.matchDeclaration? src index limit (src.skipTrivia d.lexicon pos) = none := hm
    rw [recordsFrom_eq_match d src index limit' hs, matchDeclaration?_of_large hl hl', hm, ← ih]
  | case3 pos start hs => rw [recordsFrom, dif_neg hs]

end Large

end Dialect

namespace Python

open Source

/-! The same for Python, where only the scans of values have a bound. -/

section Large

variable {src : Source} {limit limit' : Nat} (hl : src.size ≤ limit) (hl' : src.size ≤ limit')

include hl hl'

theorem scan_of_large (statement : Nat) (stops : Stops) (start : Nat) :
    scan src limit' statement stops start = scan src limit statement stops start :=
  Dialect.scanValueUntil_of_large hl hl' ..

theorem matchStatement?_of_large (index : LineIndex) (start : Nat) :
    matchStatement? src index limit' start = matchStatement? src index limit start := by
  have hvalue : matchValue? src index limit' = matchValue? src index limit := by
    funext first more pos
    simp only [matchValue?, scan_of_large hl hl']
  simp only [matchStatement?, matchAnnotated?, matchChained?, scan_of_large hl hl', hvalue]

theorem skipStatement_of_large (start : Nat) : skipStatement src limit' start = skipStatement src limit start := by
  simp only [skipStatement, scan_of_large hl hl']

theorem recordsFrom_of_large (index : LineIndex) (pos : Nat) :
    recordsFrom src index limit' pos = recordsFrom src index limit pos := by
  fun_induction recordsFrom src index limit pos with
  | case1 pos start hb =>
    rw [recordsFrom_eq_match, show src.byte? (src.skipInlineSpace pos) = none from hb]
  | case2 pos start b hb hsep ih =>
    rw [recordsFrom_eq_match, show src.byte? (src.skipInlineSpace pos) = some b from hb]
    exact (if_pos hsep).trans ih
  | case3 pos start b hb hsep e hc ih =>
    rw [recordsFrom_eq_match, show src.byte? (src.skipInlineSpace pos) = some b from hb]
    dsimp only
    rw [if_neg hsep, show src.commentEnd? .python (src.skipInlineSpace pos) = some e from hc]
    exact ih
  | case4 pos start b hb hsep hc found hm ih =>
    rw [recordsFrom_eq_match, show src.byte? (src.skipInlineSpace pos) = some b from hb]
    dsimp only
    rw [if_neg hsep, show src.commentEnd? .python (src.skipInlineSpace pos) = none from hc,
      matchStatement?_of_large hl hl',
      show matchStatement? src index limit (src.skipInlineSpace pos) = some found from hm]
    dsimp only
    rw [ih]
  | case5 pos start b hb hsep hc hm ih =>
    rw [recordsFrom_eq_match, show src.byte? (src.skipInlineSpace pos) = some b from hb]
    dsimp only
    rw [if_neg hsep, show src.commentEnd? .python (src.skipInlineSpace pos) = none from hc,
      matchStatement?_of_large hl hl', show matchStatement? src index limit (src.skipInlineSpace pos) = none from hm]
    dsimp only
    rw [skipStatement_of_large hl hl']
    exact ih

end Large

end Python

/-! ## Extraction -/

/-- **A larger bound changes nothing that was found.** In every source, a scan of a value that was not cut off, a
group that was closed and a list of type arguments that was closed come out the same with every larger bound,
whatever ends the value and whichever lines start a statement. And two bounds that are as large as a text extract
the same variables from it, in every language. -/
theorem extract_of_lookahead (limit limit' : Nat) :
    (limit ≤ limit' → ∀ src : Source,
      (∀ lex stops starts start, (src.scanValueUntil lex stops limit starts start).stop ≠ .limit →
        src.scanValueUntil lex stops limit' starts start = src.scanValueUntil lex stops limit starts start) ∧
      (∀ lex opener closer pos e, src.groupEnd? lex opener closer limit pos = some e →
        src.groupEnd? lex opener closer limit' pos = some e) ∧
      (∀ pos e, Dialect.typeArgumentsEnd? src limit pos = some e →
        Dialect.typeArgumentsEnd? src limit' pos = some e)) ∧
    (∀ (language : Language) (document : Document), document.text.utf8ByteSize ≤ limit →
      document.text.utf8ByteSize ≤ limit' → language.extract limit document = language.extract limit' document) := by
  constructor
  · intro hle src
    refine ⟨?_, ?_, ?_⟩
    · intro lex stops starts start h
      exact Source.scanValueUntil_of_asFar (Or.inl hle) h
    · intro lex opener closer pos e h
      exact Source.groupEnd?_of_asFar (Or.inl hle) h
    · intro pos e h
      exact Dialect.typeArgumentsEnd?_of_asFar (Or.inl hle) h
  · intro language document hl hl'
    have hl : (Source.ofString document.text).size ≤ limit := hl
    have hl' : (Source.ofString document.text).size ≤ limit' := hl'
    cases language with
    | python => exact congrArg (Except.ok ∘ Record.sortByPlace) (Python.recordsFrom_of_large hl' hl _ 0)
    | java => exact congrArg (Except.ok ∘ Record.sortByPlace) (Dialect.recordsFrom_of_large hl' hl .java _ 0)
    | cpp => exact congrArg (Except.ok ∘ Record.sortByPlace) (Dialect.recordsFrom_of_large hl' hl .cpp _ 0)
    | javascript | typescript | tsx => rfl

/-- Type arguments, an array bracket and a value, each of which is read to its end with a bound of twelve. -/
def boundedDeclaration : String :=
  "List<int> a[2] = f(1);"

theorem extract_of_lookahead_boundedDeclaration :
    let src := Source.ofString boundedDeclaration
    (src.scanValue .cpp Dialect.valueStops 12 17 = ⟨21, .terminator 21⟩ ∧
      src.scanValue .cpp Dialect.valueStops 40 17 = ⟨21, .terminator 21⟩) ∧
    (src.groupEnd? .cpp '['.toUInt8 ']'.toUInt8 12 11 = some 14 ∧
      src.groupEnd? .cpp '['.toUInt8 ']'.toUInt8 40 11 = some 14) ∧
    (Dialect.typeArgumentsEnd? src 12 4 = some 9 ∧ Dialect.typeArgumentsEnd? src 40 4 = some 9) ∧
    (boundedDeclaration.utf8ByteSize = 22 ∧
      Language.cpp.extract 22 ⟨boundedDeclaration, none⟩ = Language.cpp.extract 40 ⟨boundedDeclaration, none⟩) := by
  intro src
  obtain ⟨hscan, hgroup, harguments⟩ := (extract_of_lookahead 12 40).1 (by decide) src
  have hvalue : src.scanValue .cpp Dialect.valueStops 12 17 = ⟨21, .terminator 21⟩ := by decide +kernel
  have hbracket : src.groupEnd? .cpp '['.toUInt8 ']'.toUInt8 12 11 = some 14 := by decide +kernel
  have hangle : Dialect.typeArgumentsEnd? src 12 4 = some 9 := by decide +kernel
  have hsize : boundedDeclaration.utf8ByteSize = 22 := by decide +kernel
  refine ⟨⟨hvalue, ?_⟩, ⟨hbracket, hgroup _ _ _ _ _ hbracket⟩, ⟨hangle, harguments _ _ hangle⟩, hsize, ?_⟩
  · rw [← hvalue]
    refine hscan .cpp Dialect.valueStops (fun _ => false) 17 ?_
    change (src.scanValue .cpp Dialect.valueStops 12 17).stop ≠ .limit
    rw [hvalue]
    decide
  · exact (extract_of_lookahead 22 40).2 .cpp ⟨boundedDeclaration, none⟩ (by rw [hsize]) (by rw [hsize]; decide)

end VarCensus
