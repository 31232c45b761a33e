import VarCensus.Proofs.CommentBodies
import VarCensus.Proofs.TypedFindings

/-!
# Declarations with comments

The search for typed declarations in two sources that differ in the body of a comment. Function by function, from
modifiers and types up to the whole search, both sources give the same at a shared position. The one exception are
array brackets behind a name, which are copied with all that stands in them (`dimensions_ok`).

A search does not only go on by steps. It also drops a declaration whose value is too long and starts again with
the next line, which may lie inside a literal (`Comes.dropped`). So it is the positions that the search comes to of
which it is asked that nothing reaches from them across the opening of the comment (`Uncovered`).
-/

namespace VarCensus
namespace Dialect

open Source (Twins Shared Beside)

variable {d : Dialect} {k m limit pos : Nat} {src src' : Source}

/-! ## Equations

The functions below recurse on what they have just found, and their definitions keep the proof that they found it.
These are their equations without that proof. -/

theorem dottedEnd?_eq_match (src : Source) (pos : Nat) :
    dottedEnd? src pos =
      match src.identEnd? pos with
      | none => none
      | some e => if src.byte? e == some '.'.toUInt8 then dottedEnd? src (e + 1) else some e := by
  rw [dottedEnd?]
  split
  · next he => rw [he]
  · next e he => rw [he]

theorem skipModifiers?_eq_match (d : Dialect) (src : Source) (limit : Nat) (hlt : pos < src.size) :
    d.skipModifiers? src limit pos =
      if d.annotations && src.byte? pos == some '@'.toUInt8 then
        match d.annotationEnd? src limit (pos + 1) with
        | none => none
        | some e => d.skipModifiers? src limit e
      else match src.identAt? pos with
        | some (word, e) =>
          if d.modifiers.contains word then d.skipModifiers? src limit (src.skipTrivia d.lexicon e) else some pos
        | none => some pos := by
  rw [skipModifiers?, dif_pos hlt]
  split
  · split
    · next he => rw [he]
    · next e he => rw [he]
  · split
    · next word e he => rw [he]
    · next he => rw [he]

theorem moreWords_eq_match (d : Dialect) (src : Source) (head : TypeHead) :
    d.moreWords src head =
      match src.identAt? (src.skipTrivia d.lexicon head.stop) with
      | some (word, e) =>
        if d.primitives.contains word then
          d.moreWords src { head with text := head.text ++ " " ++ word, stop := e }
        else head
      | none => head := by
  rw [moreWords]
  split
  · next word e he => rw [he]
  · next he => rw [he]

theorem moreParts?_eq_match (d : Dialect) (src : Source) (limit : Nat) (head : TypeHead) :
    d.moreParts? src limit head =
      if src.byte? head.stop == some '<'.toUInt8 then
        match typeArgumentsEnd? src limit head.stop with
        | none => none
        | some close =>
          d.moreParts? src limit
            { head with text := head.text ++ Text.collapse (src.slice head.stop close), stop := close }
      else if src.startsWith head.stop d.separatorBytes then
        match src.identAt? (head.stop + d.separatorBytes.length) with
        | none => none
        | some (part, e) =>
          d.moreParts? src limit
            { head with text := head.text ++ d.separator ++ part, last := part, qualified := true, stop := e }
      else some head := by
  rw [moreParts?]
  split
  · split
    · next he => rw [he]
    · next close he => rw [he]
  · split
    · split
      · next he => rw [he]
      · next part e he => rw [he]
    · rfl

theorem dimensions_eq_match (d : Dialect) (src : Source) (limit pos : Nat) :
    d.dimensions src limit pos =
      if src.byte? pos == some '['.toUInt8 then
        match src.groupEnd? d.lexicon '['.toUInt8 ']'.toUInt8 limit pos with
        | none => .error pos
        | some e =>
          match d.dimensions src limit (src.skipTrivia d.lexicon e) with
          | .error opener => .error opener
          | .ok (text, stop) => .ok (Text.collapse (src.slice pos e) ++ text, stop)
      else .ok ("", pos) := by
  rw [dimensions]
  split
  · split
    · next he => rw [he]
    · next e he =>
      cases hrest : d.dimensions src limit (src.skipTrivia d.lexicon e) with
      | error opener => simp only [he, hrest]
      | ok read => simp only [he, hrest]
  · rfl

theorem nextStatement_eq_match (d : Dialect) {b : UInt8} (hb : src.byte? pos = some b) :
    d.nextStatement src pos =
      match src.enclosedEnd? d.lexicon pos with
      | some e => d.nextStatement src e
      | none =>
        if b == ';'.toUInt8 || b == '\x7b'.toUInt8 || b == '\x7d'.toUInt8 then pos + 1
        else if b == ':'.toUInt8 then
          if src.byte? (pos + 1) == some ':'.toUInt8 then d.nextStatement src (pos + 2) else pos + 1
        else if b == '('.toUInt8 && d.opensHeader src pos then pos + 1
        else d.nextStatement src (pos + 1) := by
  obtain ⟨hlt, rfl⟩ := Array.getElem?_eq_some_iff.mp hb
  rw [nextStatement, dif_pos hlt]
  split
  · next e he => rw [he]
  · next he => rw [he]

theorem recordsFrom_eq_match (d : Dialect) (src : Source) (index : LineIndex) (limit : Nat)
    (hlt : src.skipTrivia d.lexicon pos < src.size) :
    d.recordsFrom src index limit pos =
      match d.matchDeclaration? src index limit (src.skipTrivia d.lexicon pos) with
      | some found => found.records ++ d.recordsFrom src index limit found.next
      | none => d.recordsFrom src index limit (d.nextStatement src (src.skipTrivia d.lexicon pos)) := by
  rw [recordsFrom, dif_pos hlt]
  split
  · next found he => rw [he]
  · next he => rw [he]

/-! ## Modifiers and types -/

theorem typeArgumentsEndFrom?_eq_ite {start depth : Nat} {b : UInt8} (hb : src.byte? pos = some b) :
    typeArgumentsEndFrom? src start limit depth pos =
      if limit < pos - start then none
      else if b == '<'.toUInt8 then typeArgumentsEndFrom? src start limit (depth + 1) (pos + 1)
      else if b == '>'.toUInt8 then
        if depth == 1 then some (pos + 1) else typeArgumentsEndFrom? src start limit (depth - 1) (pos + 1)
      else if b == '&'.toUInt8 && src.byte? (pos + 1) == some '&'.toUInt8 then none
      else if isTypeArgumentByte b then typeArgumentsEndFrom? src start limit depth (pos + 1)
      else none := by
  obtain ⟨hlt, rfl⟩ := Array.getElem?_eq_some_iff.mp hb
  rw [typeArgumentsEndFrom?, dif_pos hlt]

/-- A list of type arguments holds no comment. -/
theorem typeArgumentsEndFrom?_eq {lex : Lexicon} (h : Twins lex k m src src') {start depth : Nat}
    (hp : Beside k m pos) :
    typeArgumentsEndFrom? src' start limit depth pos = typeArgumentsEndFrom? src start limit depth pos ∧
      ∀ e, typeArgumentsEndFrom? src start limit depth pos = some e → pos ≤ k → e ≤ k := by
  fun_induction typeArgumentsEndFrom? src start limit depth pos with
  | case1 depth pos hlt hlimit =>
    rw [typeArgumentsEndFrom?_eq_ite (h.byte?_eq_getElem hp hlt), if_pos hlimit]
    simp
  | case2 depth pos hlt b hlimit hopen ih =>
    have hb : src.byte? pos = some b := Array.getElem?_eq_getElem hlt
    have hk := h.comment.ne_of_byte? hb (by rw [beq_iff_eq.mp hopen]; decide)
    obtain ⟨heq, hside⟩ := ih (hp.succ hk)
    rw [typeArgumentsEndFrom?_eq_ite (h.byte?_eq_getElem hp hlt), if_neg hlimit, if_pos hopen]
    exact ⟨heq, fun e he hle => hside e he (Nat.lt_of_le_of_ne hle hk)⟩
  | case3 depth pos hlt b hlimit hopen hclose hdepth =>
    have hb : src.byte? pos = some b := Array.getElem?_eq_getElem hlt
    have hk := h.comment.ne_of_byte? hb (by rw [beq_iff_eq.mp hclose]; decide)
    rw [typeArgumentsEndFrom?_eq_ite (h.byte?_eq_getElem hp hlt), if_neg hlimit, if_neg hopen, if_pos hclose,
      if_pos hdepth]
    refine ⟨rfl, fun e he hle => ?_⟩
    cases he
    exact Nat.lt_of_le_of_ne hle hk
  | case4 depth pos hlt b hlimit hopen hclose hdepth ih =>
    have hb : src.byte? pos = some b := Array.getElem?_eq_getElem hlt
    have hk := h.comment.ne_of_byte? hb (by rw [beq_iff_eq.mp hclose]; decide)
    obtain ⟨heq, hside⟩ := ih (hp.succ hk)
    rw [typeArgumentsEndFrom?_eq_ite (h.byte?_eq_getElem hp hlt), if_neg hlimit, if_neg hopen, if_pos hclose,
      if_neg hdepth]
    exact ⟨heq, fun e he hle => hside e he (Nat.lt_of_le_of_ne hle hk)⟩
  | case5 depth pos hlt b hlimit hopen hclose hand =>
    rw [typeArgumentsEndFrom?_eq_ite (h.byte?_eq_getElem hp hlt), if_neg hlimit, if_neg hopen,
      if_neg hclose, h.byte?_succ_eq hp, if_pos hand]
    simp
  | case6 depth pos hlt b hlimit hopen hclose hand harg ih =>
    have hb : src.byte? pos = some b := Array.getElem?_eq_getElem hlt
    have hk := h.comment.ne_of_byte? hb fun heq => absurd (heq ▸ harg) (by decide)
    obtain ⟨heq, hside⟩ := ih (hp.succ hk)
    rw [typeArgumentsEndFrom?_eq_ite (h.byte?_eq_getElem hp hlt), if_neg hlimit, if_neg hopen, if_neg hclose,
      h.byte?_succ_eq hp, if_neg hand, if_pos harg]
    exact ⟨heq, fun e he hle => hside e he (Nat.lt_of_le_of_ne hle hk)⟩
  | case7 depth pos hlt b hlimit hopen hclose hand harg =>
    rw [typeArgumentsEndFrom?_eq_ite (h.byte?_eq_getElem hp hlt), if_neg hlimit, if_neg hopen,
      if_neg hclose, h.byte?_succ_eq hp, if_neg hand, if_neg harg]
    simp
  | case8 depth pos hlt =>
    rw [typeArgumentsEndFrom?, dif_neg (by rwa [show src'.bytes.size = src.bytes.size from h.size])]
    simp

theorem dottedEnd?_eq {lex : Lexicon} (h : Twins lex k m src src') (hp : Shared lex k m src src' pos) :
    dottedEnd? src' pos = dottedEnd? src pos := by
  fun_induction dottedEnd? src pos with
  | case1 pos hid => rw [dottedEnd?_eq_match, (h.identEnd?_eq hp.beside).1, hid]
  | case2 pos e hid hdot ih =>
    have hend : Shared lex k m src src' e := h.shared_goes hp (Source.Lands.word hid).goes
    rw [dottedEnd?_eq_match, (h.identEnd?_eq hp.beside).1, hid]
    dsimp only
    rw [h.byte?_eq hend.beside, if_pos hdot]
    exact ih (h.shared_byte hend (beq_iff_eq.mp hdot) (by decide))
  | case3 pos e hid hdot =>
    have hend : Shared lex k m src src' e := h.shared_goes hp (Source.Lands.word hid).goes
    rw [dottedEnd?_eq_match, (h.identEnd?_eq hp.beside).1, hid]
    dsimp only
    rw [h.byte?_eq hend.beside, if_neg hdot]

theorem annotationEnd?_eq (h : Twins d.lexicon k m src src') (hp : Shared d.lexicon k m src src' pos) :
    d.annotationEnd? src' limit pos = d.annotationEnd? src limit pos := by
  rw [annotationEnd?, annotationEnd?, dottedEnd?_eq h hp]
  cases he : dottedEnd? src pos with
  | none => rfl
  | some e =>
    have hend : Shared d.lexicon k m src src' e := h.shared_goes hp (lands_dottedEnd? he).goes
    have hafter := h.shared_skipTrivia hend
    dsimp only
    rw [h.skipTrivia_eq hend, h.groupEnd?_eq hafter]
    cases hc : src.groupEnd? d.lexicon '('.toUInt8 ')'.toUInt8 limit (src.skipTrivia d.lexicon e) with
    | none => rfl
    | some close =>
      have hclose : Shared d.lexicon k m src src' close :=
        h.shared_goes hafter (Source.Lands.group (by decide) hc).goes
      dsimp only
      rw [h.skipTrivia_eq hclose]

theorem skipModifiers?_eq (h : Twins d.lexicon k m src src') (hp : Shared d.lexicon k m src src' pos) :
    d.skipModifiers? src' limit pos = d.skipModifiers? src limit pos := by
  have hsign {pos : Nat} (hp : Shared d.lexicon k m src src' pos)
      (hat : (d.annotations && src.byte? pos == some '@'.toUInt8) = true) :
      Shared d.lexicon k m src src' (pos + 1) := by
    simp only [Bool.and_eq_true, beq_iff_eq] at hat
    exact h.shared_byte hp hat.2 (by decide)
  fun_induction skipModifiers? d src limit pos with
  | case1 pos hlt hat hnone =>
    rw [skipModifiers?_eq_match d src' limit (h.size ▸ hlt), h.byte?_eq hp.beside, if_pos hat,
      annotationEnd?_eq h (hsign hp hat), hnone]
  | case2 pos hlt hat e he ih =>
    rw [skipModifiers?_eq_match d src' limit (h.size ▸ hlt), h.byte?_eq hp.beside, if_pos hat,
      annotationEnd?_eq h (hsign hp hat), he]
    exact ih (h.shared_goes (hsign hp hat) (lands_annotationEnd? he).goes)
  | case3 pos hlt hat word e hid hmod ih =>
    have hend : Shared d.lexicon k m src src' e := h.shared_goes hp (Source.Lands.wordAt hid).goes
    rw [skipModifiers?_eq_match d src' limit (h.size ▸ hlt), h.byte?_eq hp.beside, if_neg hat,
      h.identAt?_eq hp.beside, hid]
    dsimp only
    rw [if_pos hmod, h.skipTrivia_eq hend]
    exact ih (h.shared_skipTrivia hend)
  | case4 pos hlt hat word e hid hmod =>
    rw [skipModifiers?_eq_match d src' limit (h.size ▸ hlt), h.byte?_eq hp.beside, if_neg hat,
      h.identAt?_eq hp.beside, hid]
    dsimp only
    rw [if_neg hmod]
  | case5 pos hlt hat hid =>
    rw [skipModifiers?_eq_match d src' limit (h.size ▸ hlt), h.byte?_eq hp.beside, if_neg hat,
      h.identAt?_eq hp.beside, hid]
  | case6 pos hlt => rw [skipModifiers?, dif_neg (by rwa [h.size])]

theorem moreWords_eq (h : Twins d.lexicon k m src src') {head : TypeHead}
    (hp : Shared d.lexicon k m src src' head.stop) : d.moreWords src' head = d.moreWords src head := by
  fun_induction moreWords d src head with
  | case1 head word e hid hword ih =>
    have hstart := h.shared_skipTrivia hp
    rw [moreWords_eq_match, h.skipTrivia_eq hp, h.identAt?_eq hstart.beside, hid]
    dsimp only
    rw [if_pos hword]
    exact ih (h.shared_goes hstart (Source.Lands.wordAt hid).goes)
  | case2 head word e hid hword =>
    rw [moreWords_eq_match, h.skipTrivia_eq hp, h.identAt?_eq (h.shared_skipTrivia hp).beside, hid]
    dsimp only
    rw [if_neg hword]
  | case3 head hid =>
    rw [moreWords_eq_match, h.skipTrivia_eq hp, h.identAt?_eq (h.shared_skipTrivia hp).beside, hid]

theorem moreParts?_eq (h : Twins d.lexicon k m src src') (hsep : d.separatorBytes.all isPlain = true)
    {head : TypeHead} (hp : Shared d.lexicon k m src src' head.stop) :
    d.moreParts? src' limit head = d.moreParts? src limit head := by
  have harguments (head : TypeHead) (hp : Shared d.lexicon k m src src' head.stop) :
      typeArgumentsEnd? src' limit head.stop = typeArgumentsEnd? src limit head.stop :=
    (typeArgumentsEndFrom?_eq h hp.beside).1
  fun_induction moreParts? d src limit head with
  | case1 head hopen hnone =>
    rw [moreParts?_eq_match, h.byte?_eq hp.beside, if_pos hopen, harguments head hp, hnone]
  | case2 head hopen close hc ih =>
    have hclose : Shared d.lexicon k m src src' close := h.shared_goes hp (lands_typeArgumentsEnd? hc).goes
    have hslice : src'.slice head.stop close = src.slice head.stop close :=
      h.slice_of_side hp.beside ((typeArgumentsEndFrom?_eq h hp.beside).2 close hc)
    rw [moreParts?_eq_match, h.byte?_eq hp.beside, if_pos hopen, harguments head hp, hc]
    dsimp only
    rw [hslice]
    exact ih hclose
  | case3 head hopen hs hid =>
    have hafter : Shared d.lexicon k m src src' (head.stop + d.separatorBytes.length) :=
      h.shared_goes hp (.startsWith hsep hs)
    rw [moreParts?_eq_match, h.byte?_eq hp.beside, if_neg hopen, h.startsWith_plain_eq hsep hp.beside, if_pos hs,
      h.identAt?_eq hafter.beside, hid]
  | case4 head hopen hs part e hid ih =>
    have hafter : Shared d.lexicon k m src src' (head.stop + d.separatorBytes.length) :=
      h.shared_goes hp (.startsWith hsep hs)
    rw [moreParts?_eq_match, h.byte?_eq hp.beside, if_neg hopen, h.startsWith_plain_eq hsep hp.beside, if_pos hs,
      h.identAt?_eq hafter.beside, hid]
    exact ih (h.shared_goes hafter (Source.Lands.wordAt hid).goes)
  | case5 head hopen hs =>
    rw [moreParts?_eq_match, h.byte?_eq hp.beside, if_neg hopen, h.startsWith_plain_eq hsep hp.beside, if_neg hs]

theorem moreDimensions_eq (h : Twins d.lexicon k m src src') {head : TypeHead}
    (hp : Shared d.lexicon k m src src' head.stop) : d.moreDimensions src' head = d.moreDimensions src head := by
  fun_induction moreDimensions d src head with
  | case1 head opener closer hb ih =>
    have hopener : Shared d.lexicon k m src src' opener := h.shared_skipTrivia hp
    have hinner : Shared d.lexicon k m src src' (opener + 1) := h.shared_byte hopener hb.1 (by decide)
    have hcloser : Shared d.lexicon k m src src' closer := h.shared_skipTrivia hinner
    rw [moreDimensions, h.skipTrivia_eq hp]
    rw [show src'.skipTrivia d.lexicon (src.skipTrivia d.lexicon head.stop + 1) = closer from
        h.skipTrivia_eq hinner,
      dif_pos ⟨(h.byte?_eq hopener.beside).trans hb.1, (h.byte?_eq hcloser.beside).trans hb.2⟩]
    exact ih (h.shared_byte hcloser hb.2 (by decide))
  | case2 head opener closer hb =>
    have hopener : Shared d.lexicon k m src src' opener := h.shared_skipTrivia hp
    rw [moreDimensions, h.skipTrivia_eq hp]
    refine dif_neg fun hb' => hb ?_
    have hopen : src.byte? opener = some '['.toUInt8 := (h.byte?_eq hopener.beside).symm.trans hb'.1
    have hinner : Shared d.lexicon k m src src' (opener + 1) := h.shared_byte hopener hopen (by decide)
    have hclose := hb'.2
    rw [h.skipTrivia_eq hinner, h.byte?_eq (h.shared_skipTrivia hinner).beside] at hclose
    exact ⟨hopen, hclose⟩

theorem typeHead?_eq (h : Twins d.lexicon k m src src') (hsep : d.separatorBytes.all isPlain = true)
    (hp : Shared d.lexicon k m src src' pos) : d.typeHead? src' limit pos = d.typeHead? src limit pos := by
  rw [typeHead?, typeHead?, h.identAt?_eq hp.beside]
  cases hid : src.identAt? pos with
  | none => rfl
  | some word =>
    obtain ⟨first, e⟩ := word
    have hend : Shared d.lexicon k m src src' e := h.shared_goes hp (Source.Lands.wordAt hid).goes
    dsimp only
    have hwords : d.moreWords src' ⟨first, first, false, false, e⟩ = d.moreWords src ⟨first, first, false, false, e⟩ :=
      moreWords_eq h hend
    rw [hwords]
    have hfirst : Shared d.lexicon k m src src' (if d.primitives.contains first then
          d.moreWords src ⟨first, first, false, false, e⟩
        else (⟨first, first, false, false, e⟩ : TypeHead)).stop := by
      split
      · exact h.shared_goes hend (lands_moreWords d src ⟨first, first, false, false, e⟩).goes
      · exact hend
    rw [moreParts?_eq h hsep hfirst]
    split
    · rfl
    · split
      · rfl
      · split
        · rfl
        · next whole hparts =>
          rw [moreDimensions_eq h (h.shared_goes hfirst (lands_moreParts? hsep hparts).goes)]

/-- Whether the line that starts at a position opens a declaration. -/
theorem startsDeclaration_eq (h : Twins d.lexicon k m src src') (hsep : d.separatorBytes.all isPlain = true)
    {indent : Nat} (hp : Shared d.lexicon k m src src' pos) :
    d.startsDeclaration src' limit indent pos = d.startsDeclaration src limit indent pos := by
  have hstart : Shared d.lexicon k m src src' (src.skipInlineSpace pos) :=
    h.shared_goes hp (Source.Lands.inlineSpace pos).goes
  have hhead : (d.skipModifiers? src' limit (src.skipInlineSpace pos)).bind (d.typeHead? src' limit) =
      (d.skipModifiers? src limit (src.skipInlineSpace pos)).bind (d.typeHead? src limit) := by
    rw [skipModifiers?_eq h hstart]
    cases hm : d.skipModifiers? src limit (src.skipInlineSpace pos) with
    | none => rfl
    | some first => exact typeHead?_eq h hsep (h.shared_goes hstart (lands_skipModifiers? hm).goes)
  unfold startsDeclaration
  dsimp only
  rw [h.skipInlineSpace_eq hp.beside, hhead]
  cases hread : (d.skipModifiers? src limit (src.skipInlineSpace pos)).bind (d.typeHead? src limit) with
  | none => rfl
  | some head =>
    obtain ⟨first, hm, hh⟩ := Option.bind_eq_some_iff.mp hread
    have hstop : Shared d.lexicon k m src src' head.stop := h.shared_goes hstart
      ((lands_skipModifiers? hm).trans (lands_typeHead? hsep hh)).goes
    have htrivia := h.shared_skipTrivia hstop
    obtain ⟨hmarks, hmarked⟩ := h.skipPointerMarks_eq htrivia
    dsimp only
    rw [h.skipTrivia_eq hstop, hmarks]
    have hname : Shared d.lexicon k m src src' (if d.pointers then
          src.skipPointerMarks d.lexicon (src.skipTrivia d.lexicon head.stop)
        else src.skipTrivia d.lexicon head.stop) := by
      split
      · exact hmarked
      · exact htrivia
    generalize (if d.pointers = true then src.skipPointerMarks d.lexicon (src.skipTrivia d.lexicon head.stop)
      else src.skipTrivia d.lexicon head.stop) = name at hname ⊢
    rw [h.identAt?_eq hname.beside]
    cases hid : src.identAt? name with
    | none => rfl
    | some word =>
      obtain ⟨name, e⟩ := word
      have hend : Shared d.lexicon k m src src' e := h.shared_goes hname (Source.Lands.wordAt hid).goes
      have hnext := h.shared_skipTrivia hend
      dsimp only
      rw [h.skipTrivia_eq hend, h.isLoneEquals_eq hnext.beside, h.byte?_eq hnext.beside]

/-! ## Declarators -/

theorem pointerMarks_eq (h : Twins d.lexicon k m src src') (hp : Shared d.lexicon k m src src' pos) :
    d.pointerMarks src' pos = d.pointerMarks src pos := by
  fun_induction pointerMarks d src pos with
  | case1 pos hpos marks stop hrec ih =>
    have hnext : Shared d.lexicon k m src src' (pos + 1) := h.shared_goes hp (Source.Lands.pointerMark hpos.2).goes
    rw [pointerMarks, dif_pos ⟨h.size ▸ hpos.1, (h.isPointerMark_eq hp.beside).trans hpos.2⟩, h.skipTrivia_eq hnext,
      ih (h.shared_skipTrivia hnext), hrec, h.byte?_eq hp.beside]
  | case2 pos hpos => rw [pointerMarks, dif_neg (by rwa [h.size, h.isPointerMark_eq hp.beside])]

/-- Position `k` lies inside one of the array brackets from `pos` on. -/
inductive InBrackets (d : Dialect) (src : Source) (limit k : Nat) : Nat → Prop
  | here {pos e : Nat} (h : src.groupEnd? d.lexicon '['.toUInt8 ']'.toUInt8 limit pos = some e) (hlt : pos < k)
      (hle : k < e) : InBrackets d src limit k pos
  | later {pos e : Nat} (h : src.groupEnd? d.lexicon '['.toUInt8 ']'.toUInt8 limit pos = some e)
      (hrest : InBrackets d src limit k (src.skipTrivia d.lexicon e)) : InBrackets d src limit k pos

theorem dimensions_error (h : Twins d.lexicon k m src src') (hp : Shared d.lexicon k m src src' pos) {opener : Nat}
    (hread : d.dimensions src limit pos = .error opener) : d.dimensions src' limit pos = .error opener := by
  fun_induction dimensions d src limit pos generalizing opener with
  | case1 pos hb hnone =>
    rw [dimensions_eq_match, h.byte?_eq hp.beside, if_pos hb, h.groupEnd?_eq hp, hnone]
    exact hread
  | case2 pos hb e he opener' hrec ih =>
    cases hread
    have hend : Shared d.lexicon k m src src' e := h.shared_goes hp (Source.Lands.group (by decide) he).goes
    rw [dimensions_eq_match, h.byte?_eq hp.beside, if_pos hb, h.groupEnd?_eq hp, he]
    dsimp only
    rw [h.skipTrivia_eq hend, ih (h.shared_skipTrivia hend) hrec]
  | case3 => cases hread
  | case4 => cases hread

/-- Array brackets end at the same place, and have the same text unless the comment is in one of them. -/
theorem dimensions_ok (h : Twins d.lexicon k m src src') (hp : Shared d.lexicon k m src src' pos) {text : String}
    {stop : Nat} (hread : d.dimensions src limit pos = .ok (text, stop)) :
    ∃ text', d.dimensions src' limit pos = .ok (text', stop) ∧ (¬ d.InBrackets src limit k pos → text' = text) := by
  fun_induction dimensions d src limit pos generalizing text stop with
  | case1 => cases hread
  | case2 => cases hread
  | case3 pos hb e he text stop hrec ih =>
    cases hread
    have hend : Shared d.lexicon k m src src' e := h.shared_goes hp (Source.Lands.group (by decide) he).goes
    obtain ⟨text', hrec', htext⟩ := ih (h.shared_skipTrivia hend) hrec
    refine ⟨Text.collapse (src'.slice pos e) ++ text', ?_, fun hout => ?_⟩
    · rw [dimensions_eq_match, h.byte?_eq hp.beside, if_pos hb, h.groupEnd?_eq hp, he]
      dsimp only
      rw [h.skipTrivia_eq hend, hrec']
    · have hslice : src'.slice pos e = src.slice pos e := by
        have hne := h.comment.ne_of_byte? (beq_iff_eq.mp hb) (by decide)
        refine h.slice_of_side hp.beside fun hle => Nat.not_lt.mp fun hlt => ?_
        exact hout (.here he (Nat.lt_of_le_of_ne hle hne) hlt)
      rw [hslice, htext fun hin => hout (.later he hin)]
  | case4 pos hb =>
    cases hread
    refine ⟨"", ?_, fun _ => rfl⟩
    rw [dimensions_eq_match, h.byte?_eq hp.beside, if_neg hb]

example : (java.dimensions (.ofString "[/*a*/3]") 40 0).toOption = some ("[/*a*/3]", 8) := by decide +kernel

/-! ## Where the search comes to -/

/-- The name at `namePos`, which is not reserved, is read up to `pos`: over the array brackets behind it. -/
def Names (d : Dialect) (src : Source) (limit namePos pos : Nat) : Prop :=
  ∃ name e brackets, src.identAt? namePos = some (name, e) ∧ d.isReserved name = false ∧
    d.dimensions src limit (src.skipTrivia d.lexicon e) = .ok (brackets, pos)

theorem Names.goes {namePos : Nat} (h : d.Names src limit namePos pos) : src.Goes d.lexicon namePos pos := by
  obtain ⟨name, e, brackets, hid, -, hread⟩ := h
  exact (Source.Lands.wordAt hid).goes.trans ((Source.Lands.trivia e).goes.trans (lands_dimensions hread).goes)

theorem Names.twin (h : Twins d.lexicon k m src src') {namePos : Nat} (hp : Shared d.lexicon k m src src' namePos)
    (hname : d.Names src limit namePos pos) : d.Names src' limit namePos pos := by
  obtain ⟨name, e, brackets, hid, hfree, hread⟩ := hname
  have hend : Shared d.lexicon k m src src' e := h.shared_goes hp (Source.Lands.wordAt hid).goes
  obtain ⟨brackets', hread', -⟩ := dimensions_ok h (h.shared_skipTrivia hend) hread
  refine ⟨name, e, brackets', (h.identAt?_eq hp.beside).trans hid, hfree, ?_⟩
  rw [h.skipTrivia_eq hend]
  exact hread'

/-- A position that the search comes to: from the start on by steps, and from a name whose value is longer than
the bound to the line after it. -/
inductive Comes (d : Dialect) (src : Source) (limit : Nat) : Nat → Prop
  | start : Comes d src limit 0
  | step {p q : Nat} (h : Comes d src limit p) (hs : Source.Step d.lexicon src p q) : Comes d src limit q
  | dropped {p pos indent : Nat} (h : Comes d src limit p) (hname : d.Names src limit p pos)
      (heq : src.isLoneEquals pos = true) (hlimit : (d.valueScan src limit indent pos).stop = .limit) :
      Comes d src limit (src.lineEnd p + 1)

/-- Nothing that the search steps over reaches across `k`. -/
def Uncovered (d : Dialect) (src : Source) (limit k : Nat) : Prop :=
  ∀ p q, d.Comes src limit p → Source.Step d.lexicon src p q → p < k → q ≤ k

theorem Comes.goes {p q : Nat} (h : d.Comes src limit p) (hgo : src.Goes d.lexicon p q) : d.Comes src limit q := by
  unfold Source.Goes at hgo
  induction hgo with
  | refl => exact h
  | tail _ hs ih => exact .step ih hs

/-- The searches of two sources, of which none gets into the comment. -/
structure Searched (d : Dialect) (limit k m : Nat) (src src' : Source) : Prop where
  twins : Twins d.lexicon k m src src'
  plain : d.separatorBytes.all isPlain = true
  uncovered : d.Uncovered src limit k
  uncovered' : d.Uncovered src' limit k

/-- A position that both searches come to. -/
structure Met (d : Dialect) (limit k m : Nat) (src src' : Source) (pos : Nat) : Prop where
  beside : Beside k m pos
  comes : d.Comes src limit pos
  comes' : d.Comes src' limit pos

theorem Searched.shared (h : d.Searched limit k m src src') (hp : d.Met limit k m src src' pos) :
    Shared d.lexicon k m src src' pos :=
  ⟨hp.beside, fun p q hgo => h.uncovered p q (hp.comes.goes hgo),
    fun p q hgo => h.uncovered' p q (hp.comes'.goes hgo)⟩

theorem Searched.met_goes (h : d.Searched limit k m src src') (hp : d.Met limit k m src src' pos) {q : Nat}
    (hgo : src.Goes d.lexicon pos q) : d.Met limit k m src src' q :=
  ⟨(h.twins.shared_goes (h.shared hp) hgo).beside, hp.comes.goes hgo,
    hp.comes'.goes (h.twins.goes_twin (h.shared hp) hgo)⟩

theorem valueScan_eq (h : Twins d.lexicon k m src src') (hsep : d.separatorBytes.all isPlain = true) {indent : Nat}
    (hp : Shared d.lexicon k m src src' pos) (heq : src.isLoneEquals pos = true) :
    d.valueScan src' limit indent pos = d.valueScan src limit indent pos := by
  have hnext : Shared d.lexicon k m src src' (pos + 1) := h.shared_goes hp (Source.Lands.equals heq).goes
  rw [valueScan, valueScan, h.skipTrivia_eq hnext]
  exact h.scanFrom_eq (fun line hline => startsDeclaration_eq h hsep hline) (h.shared_skipTrivia hnext)

/-- A value that is too long is so in both sources. -/
theorem Searched.met_dropped (h : d.Searched limit k m src src') {indent namePos : Nat}
    (hp : d.Met limit k m src src' namePos) (hname : d.Names src limit namePos pos)
    (heq : src.isLoneEquals pos = true) (hlimit : (d.valueScan src limit indent pos).stop = .limit) :
    d.Met limit k m src src' (src.lineEnd namePos + 1) := by
  have hpos := h.met_goes hp hname.goes
  have hlimit' : (d.valueScan src' limit indent pos).stop = .limit := by
    rw [valueScan_eq h.twins h.plain (h.shared hpos) heq]
    exact hlimit
  have hcomes' : d.Comes src' limit (src'.lineEnd namePos + 1) :=
    .dropped hp.comes' (hname.twin h.twins (h.shared hp)) ((h.twins.isLoneEquals_eq hpos.beside).trans heq) hlimit'
  rw [h.twins.lineEnd_eq] at hcomes'
  exact ⟨h.twins.comment.beside_lineEnd namePos, .dropped hp.comes hname heq hlimit, hcomes'⟩

/-! ## Records -/

/-- Position `k` lies inside the array brackets behind the name of a record. -/
def BracketsAround (d : Dialect) (src : Source) (limit k : Nat) (r : Record) : Prop :=
  ∃ e, src.identAt? r.declaredAt.offset = some (r.name, e) ∧ d.InBrackets src limit k (src.skipTrivia d.lexicon e)

/-- Two records of one declarator: they are the same, but for the text of the array brackets in their kinds when
position `k` lies inside. -/
structure Alike (d : Dialect) (src : Source) (limit k : Nat) (r r' : Record) : Prop where
  name : r'.name = r.name
  value : r'.value = r.value
  reads : r'.reads = r.reads
  declaredAt : r'.declaredAt = r.declaredAt
  kind : ¬ d.BracketsAround src limit k r → r'.kind = r.kind

/-- What one declarator comes to in two sources. -/
inductive Declarator.Twins (d : Dialect) (limit k m : Nat) (src src' : Source) : Declarator → Declarator → Prop
  | found {r r' : Record} {t : Nat} (hr : d.Alike src limit k r r') (ht : d.Met limit k m src src' t)
      (hnext : d.Met limit k m src src' (t + 1)) : Declarator.Twins d limit k m src src' (.found r t) (.found r' t)
  | finished {next : Nat} (hnext : d.Met limit k m src src' next) :
      Declarator.Twins d limit k m src src' (.finished next) (.finished next)
  | abandoned {next : Nat} (hnext : d.Met limit k m src src' next) :
      Declarator.Twins d limit k m src src' (.abandoned next) (.abandoned next)

theorem Searched.twins_assigned (h : d.Searched limit k m src src') {indent namePos : Nat}
    {recordOf recordOf' : String → Record} (hp : d.Met limit k m src src' namePos)
    (hname : d.Names src limit namePos pos) (heq : src.isLoneEquals pos = true)
    (hrec : ∀ value, d.Alike src limit k (recordOf value) (recordOf' value)) :
    Declarator.Twins d limit k m src src' (d.assigned src limit indent namePos pos recordOf)
      (d.assigned src' limit indent namePos pos recordOf') := by
  have hpos := h.met_goes hp hname.goes
  have hafter := h.met_goes hpos (Source.Lands.equals heq).goes
  have hstart : d.Met limit k m src src' (src.skipTrivia d.lexicon (pos + 1)) :=
    h.met_goes hafter (Source.Lands.trivia _).goes
  have hskip : src'.skipTrivia d.lexicon (pos + 1) = src.skipTrivia d.lexicon (pos + 1) :=
    h.twins.skipTrivia_eq (h.shared hafter)
  have hscan : src'.scanValueUntil d.lexicon valueStops limit (d.startsDeclaration src' limit indent)
      (src.skipTrivia d.lexicon (pos + 1)) = d.valueScan src limit indent pos := by
    rw [← hskip]
    exact valueScan_eq h.twins h.plain (h.shared hpos) heq
  have hle : src.skipTrivia d.lexicon (pos + 1) ≤ src.size :=
    Source.skipTrivia_le d.lexicon (Source.byte?_eq_some_lt (Source.byte?_of_isLoneEquals heq))
  have htext : src'.codeText d.lexicon (src.skipTrivia d.lexicon (pos + 1)) (d.valueScan src limit indent pos).codeEnd =
      src.codeText d.lexicon (src.skipTrivia d.lexicon (pos + 1)) (d.valueScan src limit indent pos).codeEnd :=
    h.twins.codeText_eq (h.shared hstart) (h.twins.beside_codeEnd (h.shared hstart) hstart.beside)
      (Source.codeEnd_le hle)
  unfold assigned
  dsimp only
  rw [hskip, hscan, htext, h.twins.lineEnd_eq, h.twins.size,
    show src.scanValueUntil d.lexicon valueStops limit (d.startsDeclaration src limit indent)
      (src.skipTrivia d.lexicon (pos + 1)) = d.valueScan src limit indent pos from rfl]
  cases hstop : (d.valueScan src limit indent pos).stop with
  | terminator e =>
    have hlands := Source.Lands.scan (congrArg Stop.pos? hstop)
    have hterminator := h.met_goes hstart hlands.1.goes
    have hnext := h.met_goes hstart hlands.2.goes
    dsimp only
    split
    · exact .finished hnext
    · exact .found (hrec _) hterminator hnext
  | limit => exact .abandoned (h.met_dropped hp hname heq hstop)
  | unbalanced e =>
    exact .abandoned (h.met_goes hstart (Source.Lands.scan (congrArg Stop.pos? hstop)).1.goes)
  | endOfText => exact .finished (h.met_goes hstart (Source.Lands.scanToEnd hle hstop).goes)

theorem Searched.twins_braced (h : d.Searched limit k m src src') {recordOf recordOf' : String → Record}
    (hp : d.Met limit k m src src' pos) (hb : src.byte? pos = some '\x7b'.toUInt8)
    (hrec : ∀ value, d.Alike src limit k (recordOf value) (recordOf' value)) :
    Declarator.Twins d limit k m src src' (d.braced src limit pos recordOf) (d.braced src' limit pos recordOf') := by
  have hinside : d.Met limit k m src src' (pos + 1) := h.met_goes hp (.plain hb (by decide))
  unfold braced
  rw [h.twins.groupEnd?_eq (h.shared hp)]
  cases he : src.groupEnd? d.lexicon '\x7b'.toUInt8 '\x7d'.toUInt8 limit pos with
  | none => exact .finished hinside
  | some e =>
    have hend : d.Met limit k m src src' e := h.met_goes hp (Source.Lands.group (by decide) he).goes
    have hafter : d.Met limit k m src src' (src.skipTrivia d.lexicon e) := h.met_goes hend (Source.Lands.trivia e).goes
    have htext : src'.codeText d.lexicon pos e = src.codeText d.lexicon pos e :=
      h.twins.codeText_eq (h.shared hp) hend.beside (Source.groupEnd?_bounds he).2
    dsimp only
    rw [h.twins.skipTrivia_eq (h.shared hend), h.twins.byte?_eq hafter.beside, htext]
    split
    · next hseparator =>
      have hnext := h.met_goes hafter (lands_separator hseparator).goes
      split
      · exact .finished hnext
      · exact .found (hrec _) hafter hnext
    · exact .finished hinside

/-- A declarator whose brackets may have two texts. -/
theorem Searched.twins_declaratorValue (h : d.Searched limit k m src src') {index : LineIndex}
    {indent namePos e : Nat} {head : TypeHead} {name type type' : String} (hp : d.Met limit k m src src' namePos)
    (hid : src.identAt? namePos = some (name, e)) (hname : d.Names src limit namePos pos)
    (htype : ¬ d.InBrackets src limit k (src.skipTrivia d.lexicon e) → type' = type) :
    Declarator.Twins d limit k m src src'
      (d.declaratorValue src (index.location namePos) limit indent head name type namePos pos)
      (d.declaratorValue src' (index.location namePos) limit indent head name type' namePos pos) := by
  have hpos := h.met_goes hp hname.goes
  have hsame {value : String} {kind : Kind}
      (hout : ¬ d.BracketsAround src limit k ⟨name, value, kind, [], index.location namePos⟩) : type' = type :=
    htype fun hin => hout ⟨e, hid, hin⟩
  have hrec (value : String) : d.Alike src limit k
      ⟨name, value, kindOf head type value, [], index.location namePos⟩
      ⟨name, value, kindOf head type' value, [], index.location namePos⟩ :=
    ⟨rfl, rfl, rfl, rfl, fun hout => by rw [hsame hout]⟩
  have hbare : d.Alike src limit k (bareRecord head name type (index.location namePos))
      (bareRecord head name type' (index.location namePos)) :=
    ⟨rfl, rfl, rfl, rfl, fun hout => by rw [hsame hout]⟩
  unfold declaratorValue
  dsimp only
  rw [h.twins.isLoneEquals_eq hpos.beside, h.twins.byte?_eq hpos.beside]
  split
  · next heq => exact h.twins_assigned hp hname heq hrec
  · split
    · next hb =>
      simp only [Bool.and_eq_true, beq_iff_eq] at hb
      exact h.twins_braced hpos hb.2 hrec
    · split
      · next hb => exact .found hbare hpos (h.met_goes hpos (lands_separator hb).goes)
      · exact .finished hpos

/-- **One declarator in two sources.** -/
theorem Searched.twins_declaratorAt (h : d.Searched limit k m src src') (index : LineIndex) (indent : Nat)
    (head : TypeHead) (hp : d.Met limit k m src src' pos) :
    Declarator.Twins d limit k m src src' (d.declaratorAt src index limit indent head pos)
      (d.declaratorAt src' index limit indent head pos) := by
  have hstart : d.Met limit k m src src' (src.skipTrivia d.lexicon pos) := h.met_goes hp (Source.Lands.trivia pos).goes
  have hmarked : d.Met limit k m src src' (if d.pointers = true then d.pointerMarks src (src.skipTrivia d.lexicon pos)
      else ([], src.skipTrivia d.lexicon pos)).2 := by
    split
    · exact h.met_goes hstart (lands_pointerMarks d src _).goes
    · exact hstart
  unfold declaratorAt
  dsimp only
  rw [h.twins.skipTrivia_eq (h.shared hp), pointerMarks_eq h.twins (h.shared hstart)]
  generalize (if d.pointers = true then d.pointerMarks src (src.skipTrivia d.lexicon pos)
    else ([], src.skipTrivia d.lexicon pos)) = marked at hmarked ⊢
  rw [h.twins.identAt?_eq hmarked.beside]
  cases hid : src.identAt? marked.2 with
  | none => exact .finished hmarked
  | some word =>
    obtain ⟨name, e⟩ := word
    have hend : d.Met limit k m src src' e := h.met_goes hmarked (Source.Lands.wordAt hid).goes
    have hdims : d.Met limit k m src src' (src.skipTrivia d.lexicon e) := h.met_goes hend (Source.Lands.trivia e).goes
    dsimp only
    rw [h.twins.skipTrivia_eq (h.shared hend)]
    split
    · exact .finished hmarked
    · next hfree =>
      cases hread : d.dimensions src limit (src.skipTrivia d.lexicon e) with
      | error opener =>
        rw [dimensions_error h.twins (h.shared hdims) hread]
        exact .finished (h.met_goes hdims (lands_dimensions_error hread).goes)
      | ok read =>
        obtain ⟨brackets, after⟩ := read
        obtain ⟨brackets', hread', hsame⟩ := dimensions_ok h.twins (h.shared hdims) hread
        rw [hread']
        dsimp only
        have hname : d.Names src limit marked.2 after :=
          ⟨name, e, brackets, hid, Bool.eq_false_iff.mpr hfree, hread⟩
        exact h.twins_declaratorValue hmarked hid hname fun hout => by rw [hsame hout]

/-! ## The whole search -/

/-- Two findings of one declaration. -/
structure FoundAlike (d : Dialect) (limit k m : Nat) (src src' : Source) (found found' : Finding) : Prop where
  records : List.Forall₂ (d.Alike src limit k) found.records found'.records
  next : found'.next = found.next
  met : d.Met limit k m src src' found.next

/-- The declarators of a declaration, from those already recorded on: the induction is on the declarators. -/
theorem Searched.foundAlike_declaratorsFrom? (h : d.Searched limit k m src src') {index : LineIndex}
    {start indent : Nat} {head : TypeHead} {recorded recorded' : List Record} (hlt : start < pos)
    (hp : d.Met limit k m src src' pos) (hdone : List.Forall₂ (d.Alike src limit k) recorded recorded') :
    Option.Rel (d.FoundAlike limit k m src src')
      (d.declaratorsFrom? src index limit start indent head recorded pos)
      (d.declaratorsFrom? src' index limit start indent head recorded' pos) := by
  have hone (pos : Nat) (hp : d.Met limit k m src src' pos) := h.twins_declaratorAt index indent head hp
  have hahead (pos : Nat) := follows_declaratorAt d src index limit indent head pos
  fun_induction declaratorsFrom? d src index limit start indent head recorded pos generalizing recorded' with
  | case1 recorded pos record t hout hb =>
    have hone := hone pos hp
    rw [hout] at hone
    rw [declaratorsFrom?_eq_match d src']
    generalize d.declaratorAt src' index limit indent head pos = outcome at hone ⊢
    cases hone with
    | found hr ht hnext =>
      dsimp only
      rw [h.twins.byte?_eq ht.beside, if_pos hb]
      exact .some ⟨List.rel_append hdone (.cons hr .nil), rfl, hnext⟩
  | case2 recorded pos record t hout hb ih =>
    have hone := hone pos hp
    have hle := hahead pos
    rw [hout] at hone hle
    rw [declaratorsFrom?_eq_match d src']
    generalize d.declaratorAt src' index limit indent head pos = outcome at hone ⊢
    cases hone with
    | found hr ht hnext =>
      dsimp only
      rw [h.twins.byte?_eq ht.beside, if_neg hb]
      exact ih (Nat.lt_of_lt_of_le hlt (Finds.le hle)) hnext (List.rel_append hdone (.cons hr .nil))
  | case3 recorded pos next hout hempty =>
    have hone := hone pos hp
    rw [hout] at hone
    rw [declaratorsFrom?_eq_match d src']
    generalize d.declaratorAt src' index limit indent head pos = outcome at hone ⊢
    cases hone with
    | finished hnext =>
      rw [List.isEmpty_iff.mp hempty, List.forall₂_nil_left_iff] at hdone
      subst hdone
      exact .none
  | case4 recorded pos next hout hempty =>
    have hone := hone pos hp
    have hle := hahead pos
    rw [hout] at hone hle
    rw [declaratorsFrom?_eq_match d src']
    generalize d.declaratorAt src' index limit indent head pos = outcome at hone ⊢
    cases hone with
    | finished hnext =>
      have hempty' : ¬ recorded'.isEmpty = true := by
        intro hnil
        rw [List.isEmpty_iff.mp hnil, List.forall₂_nil_right_iff] at hdone
        exact hempty (List.isEmpty_iff.mpr hdone)
      dsimp only
      rw [if_neg hempty']
      have hmax : max next (start + 1) = next := Nat.max_eq_left (Nat.lt_of_lt_of_le hlt (Finds.le hle))
      exact .some ⟨hdone, rfl, hmax.symm ▸ hnext⟩
  | case5 recorded pos next hout =>
    have hone := hone pos hp
    rw [hout] at hone
    rw [declaratorsFrom?_eq_match d src']
    generalize d.declaratorAt src' index limit indent head pos = outcome at hone ⊢
    cases hone with
    | abandoned hnext => exact .some ⟨hdone, rfl, hnext⟩

theorem Searched.foundAlike_matchDeclaration? (h : d.Searched limit k m src src') (index : LineIndex)
    (hp : d.Met limit k m src src' pos) :
    Option.Rel (d.FoundAlike limit k m src src') (d.matchDeclaration? src index limit pos)
      (d.matchDeclaration? src' index limit pos) := by
  rw [matchDeclaration?, matchDeclaration?, skipModifiers?_eq h.twins (h.shared hp), h.twins.indentation_eq]
  cases hm : d.skipModifiers? src limit pos with
  | none => exact .none
  | some first =>
    have hfirst := h.met_goes hp (lands_skipModifiers? hm).goes
    dsimp only
    rw [typeHead?_eq h.twins h.plain (h.shared hfirst)]
    cases hh : d.typeHead? src limit first with
    | none => exact .none
    | some head =>
      have hstop := h.met_goes hfirst (lands_typeHead? h.plain hh).goes
      have hlt : pos < head.stop := Nat.lt_of_le_of_lt (lands_skipModifiers? hm).le (lt_stop_of_typeHead? hh)
      exact h.foundAlike_declaratorsFrom? hlt hstop .nil

/-- A run of bytes that ends right before a position lies on the same side of the comment. -/
theorem runStart_eq {lex : Lexicon} (h : Twins lex k m src src') {test : UInt8 → Bool}
    (htest : test '/'.toUInt8 = false) (hp : Beside k m pos) :
    runStart src' test pos = runStart src test pos ∧ Beside k m (runStart src test pos) ∧
      (m + 2 ≤ pos → m + 2 ≤ runStart src test pos) := by
  induction pos with
  | zero => exact ⟨rfl, hp, id⟩
  | succ pos ih =>
    have hbyte : src'.byte? pos = src.byte? pos := h.byteBefore?_eq hp
    rw [runStart, runStart, hbyte]
    split
    · next htrue =>
      have hne : pos ≠ m + 1 := by
        rintro rfl
        rw [h.comment.closingSlash, Option.any_some, htest] at htrue
        cases htrue
      have hpos : Beside k m pos := by
        unfold Beside at hp ⊢
        omega
      obtain ⟨heq, hbeside, hside⟩ := ih hpos
      exact ⟨heq, hbeside, fun hle => hside (by omega)⟩
    · exact ⟨rfl, hp, id⟩

theorem opensHeader_eq {lex : Lexicon} (h : Twins lex k m src src') (hp : Beside k m pos) :
    d.opensHeader src' pos = d.opensHeader src pos := by
  obtain ⟨hblank, hstop, -⟩ := runStart_eq h (show isAsciiBlank '/'.toUInt8 = false by decide) hp
  obtain ⟨hword, -, hside⟩ := runStart_eq h (show isIdentByte '/'.toUInt8 = false by decide) hstop
  rw [opensHeader, opensHeader, hblank, hword, h.slice_eq (hstop.imp_right hside)]

theorem nextStatement_eq (h : Twins d.lexicon k m src src') (hp : Shared d.lexicon k m src src' pos) :
    d.nextStatement src' pos = d.nextStatement src pos := by
  fun_induction nextStatement d src pos with
  | case1 pos hlt e he ih =>
    rw [nextStatement_eq_match d (h.byte?_eq_getElem hp.beside hlt), h.enclosedEnd?_eq hp, he]
    exact ih (h.shared_goes hp (.enclosed he))
  | case2 pos hlt he b hb =>
    rw [nextStatement_eq_match d (h.byte?_eq_getElem hp.beside hlt), h.enclosedEnd?_eq hp, he]
    exact if_pos hb
  | case3 pos hlt he b hend hb hcolon ih =>
    have hsecond := beq_iff_eq.mp hcolon
    have hnext := h.shared_goes hp (.byte (Array.getElem?_eq_getElem hlt) he)
    rw [nextStatement_eq_match d (h.byte?_eq_getElem hp.beside hlt), h.enclosedEnd?_eq hp, he]
    dsimp only
    rw [if_neg hend, if_pos hb, h.byte?_succ_eq hp.beside, if_pos hcolon]
    exact ih (h.shared_byte hnext hsecond (by decide))
  | case4 pos hlt he b hend hb hcolon =>
    rw [nextStatement_eq_match d (h.byte?_eq_getElem hp.beside hlt), h.enclosedEnd?_eq hp, he]
    dsimp only
    rw [if_neg hend, if_pos hb, h.byte?_succ_eq hp.beside, if_neg hcolon]
  | case5 pos hlt he b hend hcolon hopen =>
    rw [nextStatement_eq_match d (h.byte?_eq_getElem hp.beside hlt), h.enclosedEnd?_eq hp, he]
    dsimp only
    rw [if_neg hend, if_neg hcolon, opensHeader_eq h hp.beside, if_pos hopen]
  | case6 pos hlt he b hend hcolon hopen ih =>
    rw [nextStatement_eq_match d (h.byte?_eq_getElem hp.beside hlt), h.enclosedEnd?_eq hp, he]
    dsimp only
    rw [if_neg hend, if_neg hcolon, opensHeader_eq h hp.beside, if_neg hopen]
    exact ih (h.shared_goes hp (.byte (Array.getElem?_eq_getElem hlt) he))
  | case7 pos hlt =>
    have hbytes : src'.bytes.size = src.bytes.size := h.size
    rw [nextStatement, dif_neg (by rwa [hbytes]), hbytes]

/-- **The two searches find the same**, declaration by declaration. -/
theorem Searched.alike_recordsFrom (h : d.Searched limit k m src src') (index : LineIndex)
    (hp : d.Met limit k m src src' pos) :
    List.Forall₂ (d.Alike src limit k) (d.recordsFrom src index limit pos) (d.recordsFrom src' index limit pos) := by
  have hskip {pos : Nat} (hp : d.Met limit k m src src' pos) :
      src'.skipTrivia d.lexicon pos = src.skipTrivia d.lexicon pos := h.twins.skipTrivia_eq (h.shared hp)
  have htrivia {pos : Nat} (hp : d.Met limit k m src src' pos) :
      d.Met limit k m src src' (src.skipTrivia d.lexicon pos) := h.met_goes hp (Source.Lands.trivia pos).goes
  fun_induction recordsFrom d src index limit pos with
  | case1 pos start hs found hm ih =>
    have hlt : src'.skipTrivia d.lexicon pos < src'.size := by
      rw [hskip hp, h.twins.size]
      exact hs
    have halike := h.foundAlike_matchDeclaration? index (htrivia hp)
    rw [show d.matchDeclaration? src index limit (src.skipTrivia d.lexicon pos) = some found from hm] at halike
    obtain ⟨found', hm', hfound⟩ := exists_of_rel halike
    rw [recordsFrom_eq_match d src' index limit hlt, hskip hp, hm']
    dsimp only
    rw [hfound.next]
    exact List.rel_append hfound.records (ih hfound.met)
  | case2 pos start hs hm ih =>
    have hlt : src'.skipTrivia d.lexicon pos < src'.size := by
      rw [hskip hp, h.twins.size]
      exact hs
    have halike := h.foundAlike_matchDeclaration? index (htrivia hp)
    rw [show d.matchDeclaration? src index limit (src.skipTrivia d.lexicon pos) = none from hm] at halike
    rw [recordsFrom_eq_match d src' index limit hlt, hskip hp, eq_none_of_rel halike]
    dsimp only
    rw [nextStatement_eq h.twins (h.shared (htrivia hp))]
    exact ih (h.met_goes (htrivia hp) (goes_nextStatement d (Nat.le_of_lt hs)).1)
  | case3 pos start hs =>
    rw [recordsFrom, hskip hp, h.twins.size, dif_neg hs]
    exact .nil

end Dialect
end VarCensus
