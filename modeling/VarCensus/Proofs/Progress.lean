import VarCensus.Dialect.Declaration
import VarCensus.Proofs.Loop
import VarCensus.Python

/-!
# Progress

Every loop of the scanned languages comes nearer to the end of the source with each of its rounds, and so
each of them ends: `search_progresses` says it of all of them, for every source and every bound on scans. It
adds that a search moves forward from every statement start, whether a declaration is found there or not.

Each recursive function stands here beside its recursion, laid open as a `Loop`.
-/

namespace VarCensus

/-! ## The loops of a source -/

namespace Source

/-- One piece of trivia after the other. -/
def triviaLoop (lex : Lexicon) (src : Source) : Loop Nat Nat where
  round pos :=
    match src.triviaEnd? lex pos with
    | some e => .onward e
    | none => .done pos
  position pos := pos

theorem triviaLoop_progresses (lex : Lexicon) (src : Source) :
    (src.triviaLoop lex).Progresses src.size (src.skipTrivia lex) := by
  refine .intro (fun pos => ?_) fun pos pos' after h => ?_
  · rw [skipTrivia]
    simp only [triviaLoop]
    split
    · next he => rw [he]; rfl
    · next he => rw [he]; rfl
  · simp only [triviaLoop] at h ⊢
    split at h
    · next he =>
      cases h
      have := triviaEnd?_bounds he
      omega
    · cases h

/-- Where the scan of a value stands. -/
structure ScanState where
  closers : List UInt8
  pos : Nat
  codeEnd : Nat

/-- One piece of a value after the other. -/
def scanLoop (lex : Lexicon) (src : Source) (stops : Stops) (startsStatement : Nat → Bool)
    (start limit : Nat) : Loop ScanState ValueScan where
  round s :=
    match src.pieceAt? lex s.pos with
    | none => .done ⟨s.codeEnd, .endOfText⟩
    | some piece =>
      if limit < s.pos - start then .done ⟨s.codeEnd, .limit⟩
      else
        match piece with
        | .comment e => .onward ⟨s.closers, e, s.codeEnd⟩
        | .literal e => .onward ⟨s.closers, e, e⟩
        | .continuation e => .onward ⟨s.closers, e, s.codeEnd⟩
        | .byte b =>
          match src.verdict lex stops startsStatement s.closers b s.pos with
          | .error stop => .done ⟨s.codeEnd, stop⟩
          | .ok closers => .onward ⟨closers, s.pos + 1, if isAsciiBlank b then s.codeEnd else s.pos + 1⟩
  position s := s.pos

theorem scanLoop_progresses (lex : Lexicon) (src : Source) (stops : Stops) (startsStatement : Nat → Bool)
    (start limit : Nat) :
    (src.scanLoop lex stops startsStatement start limit).Progresses src.size fun s =>
      src.scanFrom lex stops startsStatement start limit s.closers s.pos s.codeEnd := by
  refine .intro (fun s => ?_) fun s s' after h => ?_
  · rw [scanFrom]
    dsimp only [scanLoop]
    split
    · next hp => rw [hp]; rfl
    · next piece hp =>
      -- the piece is taken apart first, since the recursion remembers where it comes from
      cases piece with
      | comment e => dsimp only; rw [hp]; dsimp only; split <;> rfl
      | literal e => dsimp only; rw [hp]; dsimp only; split <;> rfl
      | continuation e => dsimp only; rw [hp]; dsimp only; split <;> rfl
      | byte b =>
        dsimp only
        rw [hp]
        dsimp only
        split
        · rfl
        · cases src.verdict lex stops startsStatement s.closers b s.pos <;> rfl
  · dsimp only [scanLoop] at h ⊢
    split at h
    · cases h
    · next piece hp =>
      have hbounds := pieceAt?_bounds hp
      split at h
      · cases h
      · cases piece with
        | comment e => cases h; exact ⟨Nat.lt_of_lt_of_le hbounds.1 hbounds.2, hbounds.1⟩
        | literal e => cases h; exact ⟨Nat.lt_of_lt_of_le hbounds.1 hbounds.2, hbounds.1⟩
        | continuation e => cases h; exact ⟨Nat.lt_of_lt_of_le hbounds.1 hbounds.2, hbounds.1⟩
        | byte b =>
          dsimp only at h
          split at h
          · cases h
          · cases h
            exact ⟨Nat.lt_of_lt_of_le hbounds.1 hbounds.2, hbounds.1⟩

/-- The text of a value, from one position to the next: where the text not yet copied starts, and what has
been looked at. -/
def codeTextLoop (lex : Lexicon) (src : Source) (stop : Nat) : Loop (Nat × Nat) String where
  round s :=
    if s.2 < stop then
      match src.literalEnd? lex s.2 with
      | some e => .onward (s.1, e)
      | none =>
        match src.blankedEnd? lex s.2 with
        | some e => .again (min e stop, min e stop) fun rest => src.slice s.1 s.2 ++ " " ++ rest
        | none => .onward (s.1, s.2 + 1)
    else .done (src.slice s.1 (max stop s.1))
  position s := s.2

theorem codeTextLoop_progresses (lex : Lexicon) (src : Source) (stop : Nat) :
    (src.codeTextLoop lex stop).Progresses stop fun s => src.codeTextFrom lex stop s.1 s.2 := by
  refine .intro (fun s => ?_) fun s s' after h => ?_
  · rw [codeTextFrom]
    dsimp only [codeTextLoop]
    split
    · split
      · next hl => rw [hl]; rfl
      · next hl =>
        rw [hl]
        dsimp only
        split
        · next hb => rw [hb]; rfl
        · next hb => rw [hb]; rfl
    · rfl
  · dsimp only [codeTextLoop] at h ⊢
    split at h
    · next hlt =>
      refine ⟨hlt, ?_⟩
      split at h
      · next hl =>
        cases h
        exact (literalEnd?_bounds hl).1
      · split at h
        · next e hb =>
          cases h
          have := lt_blankedEnd? hb
          dsimp only
          omega
        · cases h
          exact Nat.lt_succ_self _
    · cases h

/-- A group of brackets, from one position to the next: how many are open, and what has been looked at. -/
def groupLoop (lex : Lexicon) (src : Source) (opener closer : UInt8) (start limit : Nat) :
    Loop (Nat × Nat) (Option Nat) where
  round s :=
    match src.byte? s.2 with
    | none => .done none
    | some b =>
      if limit < s.2 - start then .done none
      else match src.enclosedEnd? lex s.2 with
        | some e => .onward (s.1, e)
        | none =>
          if b == opener then .onward (s.1 + 1, s.2 + 1)
          else if b == closer then
            if s.1 == 1 then .done (some (s.2 + 1)) else .onward (s.1 - 1, s.2 + 1)
          else .onward (s.1, s.2 + 1)
  position s := s.2

theorem groupLoop_progresses (lex : Lexicon) (src : Source) (opener closer : UInt8) (start limit : Nat) :
    (src.groupLoop lex opener closer start limit).Progresses src.size fun s =>
      src.groupEndFrom? lex opener closer start limit s.1 s.2 := by
  refine .intro (fun s => ?_) fun s s' after h => ?_
  · rw [groupEndFrom?]
    dsimp only [groupLoop]
    split
    · next hlt =>
      rw [show src.byte? s.2 = some src.bytes[s.2] from Array.getElem?_eq_getElem hlt]
      dsimp only
      split
      · rfl
      · split
        · next he => rw [he]; rfl
        · next he =>
          rw [he]
          dsimp only
          split
          · rfl
          · split
            · split <;> rfl
            · rfl
    · next hlt =>
      rw [show src.byte? s.2 = none from Array.getElem?_eq_none_iff.mpr (Nat.le_of_not_lt hlt)]
      rfl
  · dsimp only [groupLoop] at h ⊢
    split at h
    · cases h
    · next b hb =>
      refine ⟨byte?_eq_some_lt hb, ?_⟩
      split at h
      · cases h
      · split at h
        · next he =>
          cases h
          exact (enclosedEnd?_bounds he).1
        · split at h
          · cases h
            exact Nat.lt_succ_self _
          · split at h
            · split at h
              · cases h
              · cases h
                exact Nat.lt_succ_self _
            · cases h
              exact Nat.lt_succ_self _

end Source

/-! ## The loops of the Python search -/

namespace Python

/-- The targets of a chain, one after the other. -/
def chainLoop (src : Source) : Loop Nat (List Target × Nat) where
  round pos :=
    match src.identAt? pos with
    | none => .done ([], pos)
    | some (name, e) =>
      if keywords.contains name || !src.isLoneEquals (src.skipInlineSpace e) then .done ([], pos)
      else .again (src.skipInlineSpace (src.skipInlineSpace e + 1)) fun more => (⟨name, pos⟩ :: more.1, more.2)
  position pos := pos

theorem chainLoop_progresses (src : Source) :
    (chainLoop src).Progresses src.size (chainedTargets src) := by
  refine .intro (fun pos => ?_) fun pos pos' after h => ?_
  · rw [chainedTargets]
    dsimp only [chainLoop]
    split
    · next hid => rw [hid]; rfl
    · next name e hid =>
      rw [hid]
      dsimp only
      split <;> rfl
  · dsimp only [chainLoop] at h ⊢
    split at h
    · cases h
    · next name e hid =>
      split at h
      · cases h
      · cases h
        have h1 := Source.identAt?_bounds hid
        have h2 := src.le_skipInlineSpace e
        have h3 := src.le_skipInlineSpace (src.skipInlineSpace e + 1)
        omega

/-- One statement after the other. -/
def searchLoop (src : Source) (index : LineIndex) (limit : Nat) : Loop Nat (List Record) where
  round pos :=
    let start := src.skipInlineSpace pos
    match src.byte? start with
    | none => .done []
    | some b =>
      if b == '\n'.toUInt8 || b == ';'.toUInt8 then .onward (start + 1)
      else match src.commentEnd? .python start with
        | some e => .onward e
        | none =>
          match matchStatement? src index limit start with
          | some found => .again found.next (found.records ++ ·)
          | none => .onward (skipStatement src limit start)
  position pos := pos

theorem searchLoop_progresses (src : Source) (index : LineIndex) (limit : Nat) :
    (searchLoop src index limit).Progresses src.size (recordsFrom src index limit) := by
  refine .intro (fun pos => ?_) fun pos pos' after h => ?_
  · rw [recordsFrom]
    dsimp only [searchLoop]
    split
    · next hb => rw [hb]; rfl
    · next b hb =>
      rw [hb]
      dsimp only
      split
      · rfl
      · split
        · next hc => rw [hc]; rfl
        · next hc =>
          rw [hc]
          dsimp only
          split
          · next hm => rw [hm]; rfl
          · next hm => rw [hm]; rfl
  · dsimp only [searchLoop] at h ⊢
    have hle := src.le_skipInlineSpace pos
    split at h
    · cases h
    · next b hb =>
      have hlt := Source.byte?_eq_some_lt hb
      refine ⟨Nat.lt_of_le_of_lt hle hlt, Nat.lt_of_le_of_lt hle ?_⟩
      split at h
      · cases h
        exact Nat.lt_succ_self _
      · split at h
        · next hc =>
          cases h
          exact (Source.commentEnd?_bounds hc).1
        · split at h
          · next hm =>
            cases h
            exact lt_next_of_matchStatement? hm
          · cases h
            exact lt_skipStatement limit hlt

end Python

/-! ## The loops of the search for typed declarations -/

namespace Dialect

/-- One modifier or annotation after the other. -/
def modifiersLoop (d : Dialect) (src : Source) (limit : Nat) : Loop Nat (Option Nat) where
  round pos :=
    if pos < src.size then
      if d.annotations && src.byte? pos == some '@'.toUInt8 then
        match d.annotationEnd? src limit (pos + 1) with
        | none => .done none
        | some e => .onward e
      else match src.identAt? pos with
        | some (word, e) =>
          if d.modifiers.contains word then .onward (src.skipTrivia d.lexicon e) else .done (some pos)
        | none => .done (some pos)
    else .done (some pos)
  position pos := pos

theorem modifiersLoop_progresses (d : Dialect) (src : Source) (limit : Nat) :
    (d.modifiersLoop src limit).Progresses src.size (d.skipModifiers? src limit) := by
  refine .intro (fun pos => ?_) fun pos pos' after h => ?_
  · rw [skipModifiers?]
    dsimp only [modifiersLoop]
    split
    · split
      · split
        · next he => rw [he]; rfl
        · next he => rw [he]; rfl
      · split
        · next hid =>
          rw [hid]
          dsimp only
          split <;> rfl
        · next hid => rw [hid]; rfl
    · rfl
  · dsimp only [modifiersLoop] at h ⊢
    split at h
    · next hlt =>
      refine ⟨hlt, ?_⟩
      split at h
      · split at h
        · cases h
        · next he =>
          cases h
          exact Nat.lt_of_succ_lt (lt_annotationEnd? he)
      · split at h
        · next word e hid =>
          split at h
          · cases h
            exact Nat.lt_of_lt_of_le (Source.identAt?_bounds hid).1 (src.le_skipTrivia d.lexicon e)
          · cases h
        · cases h
    · cases h

/-- Type arguments, from one position to the next: how many lists are open, and what has been looked at. -/
def typeArgumentsLoop (src : Source) (start limit : Nat) : Loop (Nat × Nat) (Option Nat) where
  round s :=
    match src.byte? s.2 with
    | none => .done none
    | some b =>
      if limit < s.2 - start then .done none
      else if b == '<'.toUInt8 then .onward (s.1 + 1, s.2 + 1)
      else if b == '>'.toUInt8 then
        if s.1 == 1 then .done (some (s.2 + 1)) else .onward (s.1 - 1, s.2 + 1)
      else if b == '&'.toUInt8 && src.byte? (s.2 + 1) == some '&'.toUInt8 then .done none
      else if isTypeArgumentByte b then .onward (s.1, s.2 + 1)
      else .done none
  position s := s.2

theorem typeArgumentsLoop_progresses (src : Source) (start limit : Nat) :
    (typeArgumentsLoop src start limit).Progresses src.size fun s =>
      typeArgumentsEndFrom? src start limit s.1 s.2 := by
  refine .intro (fun s => ?_) fun s s' after h => ?_
  · rw [typeArgumentsEndFrom?]
    dsimp only [typeArgumentsLoop]
    split
    · next hlt =>
      rw [show src.byte? s.2 = some src.bytes[s.2] from Array.getElem?_eq_getElem hlt]
      dsimp only
      split
      · rfl
      · split
        · rfl
        · split
          · split <;> rfl
          · split
            · rfl
            · split <;> rfl
    · next hlt =>
      rw [show src.byte? s.2 = none from Array.getElem?_eq_none_iff.mpr (Nat.le_of_not_lt hlt)]
      rfl
  · dsimp only [typeArgumentsLoop] at h ⊢
    split at h
    · cases h
    · next b hb =>
      -- a round that is not the last goes on by one byte, whatever it counts
      have hnext : s'.2 = s.2 + 1 := by
        split at h
        · cases h
        · split at h
          · cases h; rfl
          · split at h
            · split at h
              · cases h
              · cases h; rfl
            · split at h
              · cases h
              · split at h
                · cases h; rfl
                · cases h
      exact ⟨Source.byte?_eq_some_lt hb, by rw [hnext]; exact Nat.lt_succ_self _⟩

/-- One word of a built-in type after the other. -/
def wordsLoop (d : Dialect) (src : Source) : Loop TypeHead TypeHead where
  round head :=
    match src.identAt? (src.skipTrivia d.lexicon head.stop) with
    | some (word, e) =>
      if d.primitives.contains word then .onward { head with text := head.text ++ " " ++ word, stop := e }
      else .done head
    | none => .done head
  position head := head.stop

theorem wordsLoop_progresses (d : Dialect) (src : Source) :
    (d.wordsLoop src).Progresses src.size (d.moreWords src) := by
  refine .intro (fun head => ?_) fun head head' after h => ?_
  · rw [moreWords]
    dsimp only [wordsLoop]
    split
    · next hid =>
      rw [hid]
      dsimp only
      split <;> rfl
    · next hid => rw [hid]; rfl
  · dsimp only [wordsLoop] at h ⊢
    split at h
    · next word e hid =>
      split at h
      · cases h
        have h1 := Source.identAt?_bounds hid
        have h2 := src.le_skipTrivia d.lexicon head.stop
        dsimp only
        omega
      · cases h
    · cases h

/-- One part of a qualified name, or one list of type arguments, after the other. -/
def partsLoop (d : Dialect) (src : Source) (limit : Nat) : Loop TypeHead (Option TypeHead) where
  round head :=
    if src.byte? head.stop == some '<'.toUInt8 then
      match typeArgumentsEnd? src limit head.stop with
      | none => .done none
      | some close =>
        .onward { head with text := head.text ++ Text.collapse (src.slice head.stop close), stop := close }
    else if src.startsWith head.stop d.separatorBytes then
      match src.identAt? (head.stop + d.separatorBytes.length) with
      | none => .done none
      | some (part, e) =>
        .onward { head with text := head.text ++ d.separator ++ part, last := part, qualified := true, stop := e }
    else .done (some head)
  position head := head.stop

theorem partsLoop_progresses (d : Dialect) (src : Source) (limit : Nat) :
    (d.partsLoop src limit).Progresses src.size (d.moreParts? src limit) := by
  refine .intro (fun head => ?_) fun head head' after h => ?_
  · rw [moreParts?]
    dsimp only [partsLoop]
    split
    · split
      · next hc => rw [hc]; rfl
      · next hc => rw [hc]; rfl
    · split
      · split
        · next hid => rw [hid]; rfl
        · next hid => rw [hid]; rfl
      · rfl
  · dsimp only [partsLoop] at h ⊢
    split at h
    · split at h
      · cases h
      · next close hc =>
        cases h
        have hbounds := typeArgumentsEndFrom?_bounds hc
        exact ⟨Nat.lt_of_lt_of_le hbounds.1 hbounds.2, hbounds.1⟩
    · split at h
      · split at h
        · cases h
        · next part e hid =>
          cases h
          have hbounds := Source.identAt?_bounds hid
          dsimp only
          omega
      · cases h

/-- One pair of empty array brackets after the other. -/
def typeDimensionsLoop (d : Dialect) (src : Source) : Loop TypeHead TypeHead where
  round head :=
    let opener := src.skipTrivia d.lexicon head.stop
    let closer := src.skipTrivia d.lexicon (opener + 1)
    if src.byte? opener = some '['.toUInt8 ∧ src.byte? closer = some ']'.toUInt8 then
      .onward { head with text := head.text ++ "[]", stop := closer + 1 }
    else .done head
  position head := head.stop

theorem typeDimensionsLoop_progresses (d : Dialect) (src : Source) :
    (d.typeDimensionsLoop src).Progresses src.size (d.moreDimensions src) := by
  refine .intro (fun head => ?_) fun head head' after h => ?_
  · rw [moreDimensions]
    dsimp only [typeDimensionsLoop]
    split <;> rfl
  · dsimp only [typeDimensionsLoop] at h ⊢
    split at h
    · next hb =>
      cases h
      have h1 := Source.byte?_eq_some_lt hb.2
      have h2 := src.le_skipTrivia d.lexicon head.stop
      have h3 := src.le_skipTrivia d.lexicon (src.skipTrivia d.lexicon head.stop + 1)
      dsimp only
      omega
    · cases h

/-- One pointer mark after the other. -/
def pointersLoop (d : Dialect) (src : Source) : Loop Nat (List Char × Nat) where
  round pos :=
    if src.isPointerMark pos then
      .again (src.skipTrivia d.lexicon (pos + 1)) fun more =>
        ((if src.byte? pos = some '*'.toUInt8 then '*' else '&') :: more.1, more.2)
    else .done ([], pos)
  position pos := pos

theorem lt_size_of_isPointerMark {src : Source} {pos : Nat} (h : src.isPointerMark pos = true) :
    pos < src.size := by
  simp only [Source.isPointerMark, Bool.or_eq_true, beq_iff_eq] at h
  rcases h with h | h
  · exact Source.byte?_eq_some_lt h
  · exact Source.byte?_eq_some_lt h

theorem pointersLoop_progresses (d : Dialect) (src : Source) :
    (d.pointersLoop src).Progresses src.size (d.pointerMarks src) := by
  refine .intro (fun pos => ?_) fun pos pos' after h => ?_
  · rw [pointerMarks]
    dsimp only [pointersLoop]
    by_cases hm : src.isPointerMark pos = true
    · rw [dif_pos ⟨lt_size_of_isPointerMark hm, hm⟩, if_pos hm]
      rfl
    · rw [dif_neg fun hboth => hm hboth.2, if_neg hm]
      rfl
  · dsimp only [pointersLoop] at h ⊢
    split at h
    · next hm =>
      cases h
      exact ⟨lt_size_of_isPointerMark hm, src.le_skipTrivia d.lexicon (pos + 1)⟩
    · cases h

/-- One pair of array brackets after a name after the other. -/
def dimensionsLoop (d : Dialect) (src : Source) (limit : Nat) : Loop Nat (Except Nat (String × Nat)) where
  round pos :=
    if src.byte? pos == some '['.toUInt8 then
      match src.groupEnd? d.lexicon '['.toUInt8 ']'.toUInt8 limit pos with
      | none => .done (.error pos)
      | some e =>
        .again (src.skipTrivia d.lexicon e)
          (Except.map fun more => (Text.collapse (src.slice pos e) ++ more.1, more.2))
    else .done (.ok ("", pos))
  position pos := pos

theorem dimensionsLoop_progresses (d : Dialect) (src : Source) (limit : Nat) :
    (d.dimensionsLoop src limit).Progresses src.size (d.dimensions src limit) := by
  refine .intro (fun pos => ?_) fun pos pos' after h => ?_
  · rw [dimensions]
    dsimp only [dimensionsLoop]
    split
    · split
      · next he => rw [he]; rfl
      · next e he =>
        rw [he]
        dsimp only [Loop.resume]
        cases d.dimensions src limit (src.skipTrivia d.lexicon e) <;> rfl
    · rfl
  · dsimp only [dimensionsLoop] at h ⊢
    split at h
    · split at h
      · cases h
      · next e he =>
        cases h
        have hbounds := Source.groupEnd?_bounds he
        exact ⟨Nat.lt_of_lt_of_le hbounds.1 hbounds.2,
          Nat.lt_of_lt_of_le hbounds.1 (src.le_skipTrivia d.lexicon e)⟩
    · cases h

/-- One declarator after the other: what has been recorded, and where the next one is looked for. -/
def declaratorsLoop (d : Dialect) (src : Source) (index : LineIndex) (limit start indent : Nat)
    (head : TypeHead) : Loop (List Record × Nat) (Option Finding) where
  round s :=
    match d.declaratorAt src index limit indent head s.2 with
    | .found record t =>
      if src.byte? t == some ';'.toUInt8 then .done (some ⟨s.1 ++ [record], t + 1⟩)
      else .onward (s.1 ++ [record], t + 1)
    | .finished next => .done (if s.1.isEmpty then none else some ⟨s.1, max next (start + 1)⟩)
    | .abandoned next => .done (some ⟨s.1, next⟩)
  position s := s.2

theorem declaratorsLoop_progresses (d : Dialect) (src : Source) (index : LineIndex)
    (limit start indent : Nat) (head : TypeHead) :
    (d.declaratorsLoop src index limit start indent head).Progresses src.size fun s =>
      d.declaratorsFrom? src index limit start indent head s.1 s.2 := by
  refine .intro (fun s => ?_) fun s s' after h => ?_
  · rw [declaratorsFrom?]
    dsimp only [declaratorsLoop]
    split
    · next hout =>
      rw [hout]
      dsimp only
      split <;> rfl
    · next hout => rw [hout]; rfl
    · next hout => rw [hout]; rfl
  · dsimp only [declaratorsLoop] at h ⊢
    have hahead := ahead_declaratorAt d src index limit indent head s.2
    split at h
    · next record t hout =>
      rw [hout] at hahead
      split at h
      · cases h
      · cases h
        exact ⟨Nat.lt_of_le_of_lt hahead.1 hahead.2, Nat.lt_succ_of_le hahead.1⟩
    · cases h
    · cases h

/-- The bytes and pieces up to the next statement, one after the other. -/
def statementLoop (d : Dialect) (src : Source) : Loop Nat Nat where
  round pos :=
    match src.byte? pos with
    | none => .done src.size
    | some b =>
      match src.enclosedEnd? d.lexicon pos with
      | some e => .onward e
      | none =>
        if b == ';'.toUInt8 || b == '\x7b'.toUInt8 || b == '\x7d'.toUInt8 then .done (pos + 1)
        else if b == ':'.toUInt8 then
          if src.byte? (pos + 1) == some ':'.toUInt8 then .onward (pos + 2) else .done (pos + 1)
        else if b == '('.toUInt8 && d.opensHeader src pos then .done (pos + 1)
        else .onward (pos + 1)
  position pos := pos

theorem statementLoop_progresses (d : Dialect) (src : Source) :
    (d.statementLoop src).Progresses src.size (d.nextStatement src) := by
  refine .intro (fun pos => ?_) fun pos pos' after h => ?_
  · rw [nextStatement]
    dsimp only [statementLoop]
    split
    · next hlt =>
      rw [show src.byte? pos = some src.bytes[pos] from Array.getElem?_eq_getElem hlt]
      dsimp only
      split
      · next he => rw [he]; rfl
      · next he =>
        rw [he]
        dsimp only
        split
        · rfl
        · split
          · split <;> rfl
          · split <;> rfl
    · next hlt =>
      rw [show src.byte? pos = none from Array.getElem?_eq_none_iff.mpr (Nat.le_of_not_lt hlt)]
      rfl
  · dsimp only [statementLoop] at h ⊢
    split at h
    · cases h
    · next b hb =>
      refine ⟨Source.byte?_eq_some_lt hb, ?_⟩
      split at h
      · next he =>
        cases h
        exact (Source.enclosedEnd?_bounds he).1
      · split at h
        · cases h
        · split at h
          · split at h
            · cases h
              exact Nat.lt_add_of_pos_right Nat.two_pos
            · cases h
          · split at h
            · cases h
            · cases h
              exact Nat.lt_succ_self _

/-- One declaration, or one step to the next statement, after the other. -/
def searchLoop (d : Dialect) (src : Source) (index : LineIndex) (limit : Nat) : Loop Nat (List Record) where
  round pos :=
    let start := src.skipTrivia d.lexicon pos
    if start < src.size then
      match d.matchDeclaration? src index limit start with
      | some found => .again found.next (found.records ++ ·)
      | none => .onward (d.nextStatement src start)
    else .done []
  position pos := pos

theorem searchLoop_progresses (d : Dialect) (src : Source) (index : LineIndex) (limit : Nat) :
    (d.searchLoop src index limit).Progresses src.size (d.recordsFrom src index limit) := by
  refine .intro (fun pos => ?_) fun pos pos' after h => ?_
  · rw [recordsFrom]
    dsimp only [searchLoop]
    split
    · split
      · next hm => rw [hm]; rfl
      · next hm => rw [hm]; rfl
    · rfl
  · dsimp only [searchLoop] at h ⊢
    have hle := src.le_skipTrivia d.lexicon pos
    split at h
    · next hlt =>
      refine ⟨Nat.lt_of_le_of_lt hle hlt, Nat.lt_of_le_of_lt hle ?_⟩
      split at h
      · next hm =>
        cases h
        exact lt_next_of_matchDeclaration? hm
      · cases h
        exact lt_nextStatement d hlt
    · cases h

end Dialect

/-! ## All of them -/

/-- The loops that the scanned languages share. -/
structure Source.Progress (lex : Lexicon) (src : Source) : Prop where
  trivia : (src.triviaLoop lex).Progresses src.size (src.skipTrivia lex)
  values : ∀ stops startsStatement start limit,
    (src.scanLoop lex stops startsStatement start limit).Progresses src.size fun s =>
      src.scanFrom lex stops startsStatement start limit s.closers s.pos s.codeEnd
  texts : ∀ stop, (src.codeTextLoop lex stop).Progresses stop fun s => src.codeTextFrom lex stop s.1 s.2
  groups : ∀ opener closer start limit,
    (src.groupLoop lex opener closer start limit).Progresses src.size fun s =>
      src.groupEndFrom? lex opener closer start limit s.1 s.2

theorem Source.progress (lex : Lexicon) (src : Source) : Source.Progress lex src :=
  ⟨triviaLoop_progresses lex src, scanLoop_progresses lex src, codeTextLoop_progresses lex src,
    groupLoop_progresses lex src⟩

/-- The Python search moves forward from every statement, and so do its loops. -/
structure Python.Progress (src : Source) (limit : Nat) : Prop extends Source.Progress .python src where
  found : ∀ index start found, matchStatement? src index limit start = some found → start < found.next
  skipped : ∀ start, start < src.size → start < skipStatement src limit start
  chain : (chainLoop src).Progresses src.size (chainedTargets src)
  search : ∀ index, (searchLoop src index limit).Progresses src.size (recordsFrom src index limit)

/-- The search for typed declarations moves forward from every statement, and so do its loops. -/
structure Dialect.Progress (d : Dialect) (src : Source) (limit : Nat) : Prop
    extends Source.Progress d.lexicon src where
  found : ∀ index start found, d.matchDeclaration? src index limit start = some found → start < found.next
  skipped : ∀ start, start < src.size → start < d.nextStatement src start
  modifiers : (d.modifiersLoop src limit).Progresses src.size (d.skipModifiers? src limit)
  words : (d.wordsLoop src).Progresses src.size (d.moreWords src)
  parts : (d.partsLoop src limit).Progresses src.size (d.moreParts? src limit)
  arguments : ∀ start, (typeArgumentsLoop src start limit).Progresses src.size fun s =>
    typeArgumentsEndFrom? src start limit s.1 s.2
  typeDimensions : (d.typeDimensionsLoop src).Progresses src.size (d.moreDimensions src)
  pointers : (d.pointersLoop src).Progresses src.size (d.pointerMarks src)
  dimensions : (d.dimensionsLoop src limit).Progresses src.size (d.dimensions src limit)
  declarators : ∀ index start indent head,
    (d.declaratorsLoop src index limit start indent head).Progresses src.size fun s =>
      d.declaratorsFrom? src index limit start indent head s.1 s.2
  statements : (d.statementLoop src).Progresses src.size (d.nextStatement src)
  search : ∀ index, (d.searchLoop src index limit).Progresses src.size (d.recordsFrom src index limit)

/-- **Every search ends.** Whatever the source and whatever the bound on scans, both searches move forward
from each statement start, all their loops move forward with each round, and the searches end after no more
rounds than the source has bytes. -/
theorem search_progresses (src : Source) (limit : Nat) :
    Python.Progress src limit ∧ ∀ d : Dialect, d.Progress src limit := by
  constructor
  · exact
      { Source.progress .python src with
        found := fun _ _ _ h => Python.lt_next_of_matchStatement? h
        skipped := fun _ h => Python.lt_skipStatement limit h
        chain := Python.chainLoop_progresses src
        search := fun index => Python.searchLoop_progresses src index limit }
  · intro d
    exact
      { Source.progress d.lexicon src with
        found := fun _ _ _ h => Dialect.lt_next_of_matchDeclaration? h
        skipped := fun _ h => Dialect.lt_nextStatement d h
        modifiers := d.modifiersLoop_progresses src limit
        words := d.wordsLoop_progresses src
        parts := d.partsLoop_progresses src limit
        arguments := fun start => Dialect.typeArgumentsLoop_progresses src start limit
        typeDimensions := d.typeDimensionsLoop_progresses src
        pointers := d.pointersLoop_progresses src
        dimensions := d.dimensionsLoop_progresses src limit
        declarators := fun index start indent head =>
          d.declaratorsLoop_progresses src index limit start indent head
        statements := d.statementLoop_progresses src
        search := fun index => d.searchLoop_progresses src index limit }

end VarCensus
