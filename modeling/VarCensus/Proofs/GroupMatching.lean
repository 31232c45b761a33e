import VarCensus.Proofs.FaithfulValues

/-!
# Two ways to match brackets

The scan of a value keeps all the closing brackets that are due, of three kinds. The search for the end of a group only
counts, and it counts one kind: the one that opened the group. Its count is the number of times that the closing bracket
of that kind is due. While the group is open its own closing bracket is due last of all. So the count comes down to zero
at the bracket behind which nothing is due, and not before, whatever brackets stand between (`groupEndFrom?_of_passes`).

The search takes a joined line end byte by byte, where the scan takes it whole. None of its bytes is a bracket or
opens a comment or a literal, so both come out behind it.
-/

namespace VarCensus
namespace Source

variable {lex : Lexicon} {src : Source} {stops : Stops} {startsStatement : Nat → Bool} {opener closer : UInt8}
  {start limit reach depth pos : Nat} {closers : List UInt8}

/-! ## The brackets of one kind -/

theorem isCloser_of_closerOf? (h : closerOf? opener = some closer) : isCloser closer = true := by
  rcases closerOf?_cases h with rfl | rfl | rfl <;> cases h <;> rfl

theorem closerOf?_of_isCloser {b : UInt8} (h : isCloser b = true) : closerOf? b = none := by
  rcases isCloser_cases h with rfl | rfl | rfl <;> rfl

theorem ne_of_closerOf? (h : closerOf? opener = some closer) : closer ≠ opener := by
  rintro rfl
  rw [closerOf?_of_isCloser (isCloser_of_closerOf? h)] at h
  cases h

/-- Each closing bracket belongs to one opening bracket. -/
theorem closerOf?_inj {b : UInt8} (h : closerOf? opener = some closer) (hb : closerOf? b = some closer) :
    b = opener := by
  rcases closerOf?_cases h with rfl | rfl | rfl <;> cases h <;>
    rcases closerOf?_cases hb with rfl | rfl | rfl <;> first | rfl | cases hb

theorem expectByte_of_opener {b c : UInt8} (h : closerOf? b = some c) : expectByte closers b = c :: closers := by
  rw [expectByte, h]

theorem expectByte_of_closer {b : UInt8} (h : isCloser b = true) : expectByte closers b = closers.tail := by
  rw [expectByte, closerOf?_of_isCloser h]
  exact if_pos h

theorem expectByte_of_other {b : UInt8} (hopener : closerOf? b = none) (hcloser : isCloser b = false) :
    expectByte closers b = closers := by
  simp [expectByte, hopener, hcloser]

/-- The bracket that is due last stays so behind a piece, as long as one is due at all. -/
theorem getLast?_expect {p : PlacedPiece} (hlast : closers.getLast? = some closer) (h : p.expect closers ≠ []) :
    (p.expect closers).getLast? = some closer := by
  obtain ⟨place, piece⟩ := p
  cases piece with
  | comment e | literal e | continuation e => exact hlast
  | byte b =>
    change expectByte closers b ≠ [] at h
    change (expectByte closers b).getLast? = some closer
    cases hopener : closerOf? b with
    | some c =>
      rw [expectByte_of_opener hopener, List.getLast?_cons, hlast]
      rfl
    | none =>
      cases hcloser : isCloser b with
      | false =>
        rw [expectByte_of_other hopener hcloser]
        exact hlast
      | true =>
        rw [expectByte_of_closer hcloser] at h ⊢
        cases closers with
        | nil => exact absurd rfl h
        | cons c rest =>
          rw [List.tail_cons] at h ⊢
          rwa [List.getLast?_cons_of_ne_nil h] at hlast

/-- Only a closing bracket can be the last one that is due. -/
theorem isCloser_of_expectByte {b : UInt8} (hdue : closers ≠ []) (h : expectByte closers b = []) :
    isCloser b = true := by
  cases hcloser : isCloser b with
  | true => rfl
  | false =>
    cases hopener : closerOf? b with
    | some c =>
      rw [expectByte_of_opener hopener] at h
      cases h
    | none =>
      rw [expectByte_of_other hopener hcloser] at h
      exact absurd h hdue

/-- A byte behind which nothing is due is the one bracket that was due. -/
theorem eq_singleton_of_expectByte {b : UInt8} (hlast : closers.getLast? = some closer)
    (hdue : isCloser b = true → closers.head? = some b) (h : expectByte closers b = []) :
    b = closer ∧ closers = [closer] := by
  have hne : closers ≠ [] := by
    rintro rfl
    cases hlast
  have hcloser := isCloser_of_expectByte hne h
  obtain ⟨rest, rfl⟩ := List.head?_eq_some_iff.mp (hdue hcloser)
  rw [expectByte_of_closer hcloser, List.tail_cons] at h
  subst h
  cases hlast
  exact ⟨rfl, rfl⟩

/-! ## One step of the search -/

/-- A byte that is neither of the two brackets is passed. -/
theorem groupEndFrom?_of_other {b : UInt8} (hb : src.byte? pos = some b) (hnone : src.enclosedEnd? lex pos = none)
    (hlimit : pos ≤ start + limit) (hopener : b ≠ opener) (hcloser : b ≠ closer) :
    src.groupEndFrom? lex opener closer start limit depth pos =
      src.groupEndFrom? lex opener closer start limit depth (pos + 1) := by
  rw [Twins.groupEndFrom?_eq_ite hb, if_neg (by omega), hnone]
  simp [hopener, hcloser]

theorem groupEndFrom?_of_opener (hb : src.byte? pos = some opener) (hnone : src.enclosedEnd? lex pos = none)
    (hlimit : pos ≤ start + limit) :
    src.groupEndFrom? lex opener closer start limit depth pos =
      src.groupEndFrom? lex opener closer start limit (depth + 1) (pos + 1) := by
  rw [Twins.groupEndFrom?_eq_ite hb, if_neg (by omega), hnone]
  simp

theorem groupEndFrom?_of_closer (hb : src.byte? pos = some closer) (hnone : src.enclosedEnd? lex pos = none)
    (hlimit : pos ≤ start + limit) (hne : closer ≠ opener) :
    src.groupEndFrom? lex opener closer start limit depth pos =
      if depth = 1 then some (pos + 1)
      else src.groupEndFrom? lex opener closer start limit (depth - 1) (pos + 1) := by
  rw [Twins.groupEndFrom?_eq_ite hb, if_neg (by omega), hnone]
  simp [hne]

theorem groupEndFrom?_of_enclosed {e : Nat} (he : src.enclosedEnd? lex pos = some e) (hlimit : pos ≤ start + limit) :
    src.groupEndFrom? lex opener closer start limit depth pos =
      src.groupEndFrom? lex opener closer start limit depth e := by
  have hbounds := enclosedEnd?_bounds he
  rw [groupEndFrom?_of_within (Nat.lt_of_lt_of_le hbounds.1 hbounds.2) (by omega), he]

/-- A joined line end is passed, byte by byte. -/
theorem groupEndFrom?_of_continuation {e : Nat} (hpair : closerOf? opener = some closer)
    (he : src.continuationEnd? lex pos = some e) (hlimit : e ≤ start + limit) :
    src.groupEndFrom? lex opener closer start limit depth pos =
      src.groupEndFrom? lex opener closer start limit depth e := by
  have hother {b : UInt8} {place : Nat} (hb : src.byte? place = some b)
      (hclass : b = '\\'.toUInt8 ∨ b = '\r'.toUInt8 ∨ b = '\n'.toUInt8)
      (hplace : place ≤ start + limit) :
      src.groupEndFrom? lex opener closer start limit depth place =
        src.groupEndFrom? lex opener closer start limit depth (place + 1) := by
    refine groupEndFrom?_of_other hb (enclosedEnd?_eq_none hb ?_) hplace ?_ ?_
    · rcases hclass with rfl | rfl | rfl <;> decide
    · rintro rfl
      rcases hclass with rfl | rfl | rfl <;> cases hpair
    · rintro rfl
      have := isCloser_of_closerOf? hpair
      rcases hclass with rfl | rfl | rfl <;> cases this
  unfold continuationEnd? at he
  split at he
  · next hslash =>
    simp only [Bool.and_eq_true, beq_iff_eq] at hslash
    split at he
    · next hreturn =>
      cases he
      simp only [startsWith, Bool.and_eq_true, beq_iff_eq] at hreturn
      rw [hother hslash.2 (by simp) (by omega), hother hreturn.1 (by simp) (by omega),
        hother hreturn.2.1 (by simp) (by omega)]
    · split at he
      · next hfeed =>
        cases he
        rw [hother hslash.2 (by simp) (by omega), hother (beq_iff_eq.mp hfeed) (by simp) (by omega)]
      · cases he
  · cases he

/-- **One byte**: behind a byte that the scan passes with the group still open, the search goes on and counts what is
due. -/
theorem groupEndFrom?_byte (hpair : closerOf? opener = some closer) {b : UInt8} (hb : src.byte? pos = some b)
    (hnone : src.enclosedEnd? lex pos = none) (hdue : isCloser b = true → closers.head? = some b)
    (hopen : (expectByte closers b).getLast? = some closer) (hlimit : pos ≤ start + limit) :
    src.groupEndFrom? lex opener closer start limit (closers.count closer) pos =
      src.groupEndFrom? lex opener closer start limit ((expectByte closers b).count closer) (pos + 1) := by
  cases hopener : closerOf? b with
  | some c =>
    have hcloser : b ≠ closer := by
      rintro rfl
      rw [closerOf?_of_isCloser (isCloser_of_closerOf? hpair)] at hopener
      cases hopener
    rw [expectByte_of_opener hopener]
    by_cases hkind : b = opener
    · subst hkind
      obtain rfl : closer = c := Option.some.inj (hpair.symm.trans hopener)
      rw [List.count_cons_self]
      exact groupEndFrom?_of_opener hb hnone hlimit
    · have hc : c ≠ closer := by
        rintro rfl
        exact hkind (closerOf?_inj hpair hopener)
      rw [List.count_cons_of_ne hc]
      exact groupEndFrom?_of_other hb hnone hlimit hkind hcloser
  | none =>
    have hkind : b ≠ opener := by
      rintro rfl
      rw [hpair] at hopener
      cases hopener
    cases hcloser : isCloser b with
    | false =>
      rw [expectByte_of_other hopener hcloser]
      refine groupEndFrom?_of_other hb hnone hlimit hkind ?_
      rintro rfl
      rw [isCloser_of_closerOf? hpair] at hcloser
      cases hcloser
    | true =>
      rw [expectByte_of_closer hcloser] at hopen ⊢
      obtain ⟨rest, rfl⟩ := List.head?_eq_some_iff.mp (hdue hcloser)
      rw [List.tail_cons] at hopen ⊢
      by_cases hown : b = closer
      · -- the group's own bracket is due once more, further out
        subst hown
        have hmore : 0 < rest.count b := List.count_pos_iff.mpr (List.mem_of_getLast? hopen)
        rw [groupEndFrom?_of_closer hb hnone hlimit hkind, List.count_cons_self, if_neg (by omega), Nat.add_sub_cancel]
      · rw [List.count_cons_of_ne hown]
        exact groupEndFrom?_of_other hb hnone hlimit hkind hown

/-- **One piece**: behind a piece that the scan passes with the group still open, the search goes on and counts what is
due. -/
theorem groupEndFrom?_piece (hpair : closerOf? opener = some closer) {piece : Piece}
    (hp : src.pieceAt? lex pos = some piece)
    (hpassed : src.stopAt? lex stops startsStatement start reach closers ⟨pos, piece⟩ = none)
    (hopen : (PlacedPiece.expect closers ⟨pos, piece⟩).getLast? = some closer)
    (hlimit : piece.stop pos ≤ start + limit) :
    src.groupEndFrom? lex opener closer start limit (closers.count closer) pos =
      src.groupEndFrom? lex opener closer start limit ((PlacedPiece.expect closers ⟨pos, piece⟩).count closer)
        (piece.stop pos) := by
  have hle : pos ≤ start + limit := Nat.le_trans (Nat.le_of_lt (pieceAt?_bounds hp).1) hlimit
  cases piece with
  | comment e =>
    have he : src.enclosedEnd? lex pos = some e := by simp [enclosedEnd?, pieceAt?_eq_comment hp]
    exact groupEndFrom?_of_enclosed he hle
  | literal e => exact groupEndFrom?_of_enclosed (enclosedEnd?_of_literal (pieceAt?_eq_literal hp)) hle
  | continuation e => exact groupEndFrom?_of_continuation hpair (pieceAt?_eq_continuation hp).2 hlimit
  | byte b =>
    obtain ⟨hb, hnone⟩ := pieceAt?_eq_byte hp
    exact groupEndFrom?_byte hpair hb hnone (head?_of_passed hpassed) hopen hle

/-! ## The whole group -/

theorem piecesFrom_eq_cons {p : PlacedPiece} {rest : List PlacedPiece} (h : src.piecesFrom lex pos = p :: rest) :
    p.pos = pos ∧ src.pieceAt? lex pos = some p.piece ∧ src.piecesFrom lex (p.piece.stop pos) = rest := by
  rw [piecesFrom] at h
  split at h
  · cases h
  · next piece hp =>
    cases h
    exact ⟨rfl, hp, rfl⟩

theorem le_of_mem_piecesFrom {q : PlacedPiece} (h : q ∈ src.piecesFrom lex pos) : pos ≤ q.pos := by
  fun_induction piecesFrom lex src pos with
  | case1 => cases h
  | case2 pos piece hp ih =>
    rcases List.mem_cons.mp h with rfl | hmore
    · exact Nat.le_refl _
    · exact Nat.le_trans (Nat.le_of_lt (pieceAt?_bounds hp).1) (ih hmore)

theorem pieceAt?_of_mem_piecesFrom {q : PlacedPiece} (h : q ∈ src.piecesFrom lex pos) :
    src.pieceAt? lex q.pos = some q.piece := by
  fun_induction piecesFrom lex src pos with
  | case1 => cases h
  | case2 pos piece hp ih =>
    rcases List.mem_cons.mp h with rfl | hmore
    · exact hp
    · exact ih hmore

/-- **All pieces of a group**: from the middle of a group on, the search ends behind the bracket where the scan has
nothing due for the first time. The induction is on the pieces in front of that bracket. -/
theorem groupEndFrom?_of_passes (hpair : closerOf? opener = some closer) {last : Nat} {b : UInt8}
    (hlimit : last ≤ start + limit) : ∀ {before after : List PlacedPiece} {closers : List UInt8} {pos : Nat},
    src.piecesFrom lex pos = before ++ ⟨last, .byte b⟩ :: after →
    src.Passes lex stops startsStatement start reach closers (before ++ [⟨last, .byte b⟩]) →
    closers.getLast? = some closer →
    (before ++ [(⟨last, .byte b⟩ : PlacedPiece)]).foldl PlacedPiece.expect closers = [] →
    (∀ n ≤ before.length, (before.take n).foldl PlacedPiece.expect closers ≠ []) →
    src.groupEndFrom? lex opener closer start limit (closers.count closer) pos = some (last + 1) := by
  intro before
  induction before with
  | nil =>
    intro after closers pos hpieces hpasses hbottom hempty _
    obtain ⟨rfl, hp, -⟩ := piecesFrom_eq_cons hpieces
    obtain ⟨hb, hnone⟩ := pieceAt?_eq_byte hp
    obtain ⟨rfl, rfl⟩ := eq_singleton_of_expectByte hbottom (head?_of_passed hpasses.1) hempty
    rw [groupEndFrom?_of_closer hb hnone hlimit (ne_of_closerOf? hpair), List.count_singleton_self, if_pos rfl]
  | cons p more ih =>
    intro after closers pos hpieces hpasses hbottom hempty hfirst
    obtain ⟨rfl, hp, hmore⟩ := piecesFrom_eq_cons hpieces
    have hopen : (p.expect closers).getLast? = some closer :=
      getLast?_expect hbottom (hfirst 1 (Nat.succ_le_succ (Nat.zero_le _)))
    have hmem : (⟨last, .byte b⟩ : PlacedPiece) ∈ src.piecesFrom lex (p.piece.stop p.pos) := by
      rw [hmore]
      exact List.mem_append_right _ List.mem_cons_self
    have hnext : p.piece.stop p.pos ≤ last := le_of_mem_piecesFrom hmem
    rw [groupEndFrom?_piece hpair hp hpasses.1 hopen (Nat.le_trans hnext hlimit)]
    exact ih hmore hpasses.2 hopen hempty fun n hn => hfirst (n + 1) (Nat.succ_le_succ hn)

/-! ## Where the scan has nothing due -/

theorem passes_append {front back : List PlacedPiece} : ∀ {closers : List UInt8},
    src.Passes lex stops startsStatement start reach closers (front ++ back) ↔
      src.Passes lex stops startsStatement start reach closers front ∧
        src.Passes lex stops startsStatement start reach (front.foldl PlacedPiece.expect closers) back := by
  induction front with
  | nil => simp [Passes]
  | cons p more ih =>
    intro closers
    simp only [List.cons_append, Passes, ih, List.foldl_cons, and_assoc]

instance decidablePasses (lex : Lexicon) (src : Source) (stops : Stops) (startsStatement : Nat → Bool)
    (start reach : Nat) : ∀ (closers : List UInt8) (pieces : List PlacedPiece),
    Decidable (src.Passes lex stops startsStatement start reach closers pieces)
  | _, [] => .isTrue trivial
  | closers, p :: more =>
    have := decidablePasses lex src stops startsStatement start reach (p.expect closers) more
    inferInstanceAs (Decidable (_ ∧ _))

/-- **The scan goes on behind what it passes**, with what is due there. -/
theorem scanFrom_of_passes {q : PlacedPiece} {before after : List PlacedPiece} :
    ∀ {closers : List UInt8} {pos codeEnd : Nat}, src.piecesFrom lex pos = before ++ q :: after →
      src.Passes lex stops startsStatement start reach closers before →
      src.scanFrom lex stops startsStatement start reach closers pos codeEnd =
        src.scanFrom lex stops startsStatement start reach (before.foldl PlacedPiece.expect closers) q.pos
          (codeEndOf codeEnd before) := by
  induction before with
  | nil =>
    intro closers pos codeEnd hpieces _
    rw [(piecesFrom_eq_cons hpieces).1]
    rfl
  | cons p more ih =>
    intro closers pos codeEnd hpieces hpasses
    obtain ⟨rfl, hp, hmore⟩ := piecesFrom_eq_cons hpieces
    rw [scanFrom_piece hp, hpasses.1, codeEndOf_cons]
    exact ih hmore hpasses.2

/-- The scan of a value from `start` passes the pieces `before` and the byte `b` at `last`, and behind that byte no
closing bracket is due, for the first time since the scan began. -/
structure FirstEmptied (lex : Lexicon) (src : Source) (stops : Stops) (startsStatement : Nat → Bool)
    (start reach : Nat) (before : List PlacedPiece) (last : Nat) (b : UInt8) : Prop where
  pieces : before ++ [⟨last, .byte b⟩] <+: src.piecesFrom lex start
  passes : src.Passes lex stops startsStatement start reach [] (before ++ [⟨last, .byte b⟩])
  emptied : expected (before ++ [⟨last, .byte b⟩]) = []
  first : ∀ n ≤ before.length, 0 < n → expected (before.take n) ≠ []

namespace FirstEmptied

variable {before : List PlacedPiece} {last : Nat} {b : UInt8}

/-- A scan that starts at an opening bracket reads that first, and then its closing bracket is due. -/
theorem before_eq_cons (h : src.FirstEmptied lex stops startsStatement start reach before last b)
    (hopen : src.byte? start = some opener) (hpair : closerOf? opener = some closer) :
    ∃ more, before = ⟨start, .byte opener⟩ :: more := by
  have hplain := isPlain_of_bracket (Or.inl (Option.ne_none_iff_exists'.mpr ⟨closer, hpair⟩))
  have hpiece : src.pieceAt? lex start = some (.byte opener) := pieceAt?_of_isPlain hopen hplain.1 hplain.2
  obtain ⟨after, hpieces⟩ := h.pieces
  cases before with
  | nil =>
    obtain ⟨-, hp, -⟩ := piecesFrom_eq_cons hpieces.symm
    cases hpiece.symm.trans hp
    have hdue : expectByte [] opener = [] := h.emptied
    rw [expectByte_of_opener hpair] at hdue
    cases hdue
  | cons p more =>
    obtain ⟨hpos, hp, -⟩ := piecesFrom_eq_cons hpieces.symm
    obtain ⟨place, piece⟩ := p
    cases hpiece.symm.trans hp
    cases hpos
    exact ⟨more, rfl⟩

/-- The search for the end of the group ends behind the byte. -/
theorem groupEnd?_eq (h : src.FirstEmptied lex stops startsStatement start reach before last b)
    (hopen : src.byte? start = some opener) (hpair : closerOf? opener = some closer) (hlimit : last - start ≤ limit) :
    src.groupEnd? lex opener closer limit start = some (last + 1) := by
  obtain ⟨more, rfl⟩ := h.before_eq_cons hopen hpair
  obtain ⟨after, hpieces⟩ := h.pieces
  rw [List.append_assoc, List.singleton_append] at hpieces
  obtain ⟨-, hp, hmore⟩ := piecesFrom_eq_cons hpieces.symm
  have hexpect : PlacedPiece.expect [] ⟨start, .byte opener⟩ = [closer] := expectByte_of_opener hpair
  have hpasses : src.Passes lex stops startsStatement start reach [closer] (more ++ [⟨last, .byte b⟩]) :=
    hexpect ▸ h.passes.2
  have hempty : (more ++ [(⟨last, .byte b⟩ : PlacedPiece)]).foldl PlacedPiece.expect [closer] = [] :=
    hexpect ▸ h.emptied
  have hfirst (n : Nat) (hn : n ≤ more.length) : (more.take n).foldl PlacedPiece.expect [closer] ≠ [] :=
    hexpect ▸ h.first (n + 1) (Nat.succ_le_succ hn) (Nat.succ_pos n)
  have hrun := groupEndFrom?_of_passes hpair (Nat.sub_le_iff_le_add'.mp hlimit) hmore hpasses rfl hempty hfirst
  rw [List.count_singleton_self] at hrun
  rw [groupEnd?, hopen, if_pos (beq_self_eq_true _),
    groupEndFrom?_of_opener hopen (pieceAt?_eq_byte hp).2 (Nat.le_add_right _ _)]
  exact hrun

/-- The scan goes on behind the byte, with nothing due. -/
theorem scanValueUntil_eq (h : src.FirstEmptied lex stops startsStatement start reach before last b)
    (hopen : src.byte? start = some opener) (hpair : closerOf? opener = some closer) :
    src.scanValueUntil lex stops reach startsStatement start =
      src.scanFrom lex stops startsStatement start reach [] (last + 1) (last + 1) := by
  have hdue : expected before ≠ [] := by
    obtain ⟨more, rfl⟩ := h.before_eq_cons hopen hpair
    have := h.first _ (Nat.le_refl _) (Nat.succ_pos _)
    rwa [List.take_length] at this
  have hempty : expectByte (expected before) b = [] := by
    have := h.emptied
    rwa [expected, List.foldl_append] at this
  have hblank : isAsciiBlank b = false := by
    rcases isCloser_cases (isCloser_of_expectByte hdue hempty) with rfl | rfl | rfl <;> rfl
  have hp : src.pieceAt? lex last = some (.byte b) :=
    pieceAt?_of_mem_piecesFrom (h.pieces.subset (List.mem_append_right _ List.mem_cons_self))
  obtain ⟨after, hpieces⟩ := h.pieces
  rw [List.append_assoc, List.singleton_append] at hpieces
  obtain ⟨hbefore, hlast⟩ := passes_append.mp h.passes
  have hpassed : src.stopAt? lex stops startsStatement start reach (expected before) ⟨last, .byte b⟩ = none := hlast.1
  calc src.scanValueUntil lex stops reach startsStatement start
    _ = src.scanFrom lex stops startsStatement start reach (expected before) last (codeEndOf start before) :=
      scanFrom_of_passes hpieces.symm hbefore
    _ = src.scanFrom lex stops startsStatement start reach (expectByte (expected before) b) (last + 1) (last + 1) := by
      rw [scanFrom_piece hp, hpassed]
      simp [PlacedPiece.expect, PlacedPiece.codeEnd?, Piece.stop, hblank]
    _ = src.scanFrom lex stops startsStatement start reach [] (last + 1) (last + 1) := by rw [hempty]

end FirstEmptied

/-- **The search for the end of a group agrees with the scan of a value.** For every source, and whatever the scan
looks for: if it starts at an opening bracket and comes to a byte behind which, for the first time, no closing bracket
is due, then the search for the end of the group that opens there, if it may go as far as that byte, ends right behind
it. There the scan goes on. -/
theorem groupEnd?_of_firstEmptied {before : List PlacedPiece} {last : Nat} {b : UInt8}
    (hopen : src.byte? start = some opener) (hpair : closerOf? opener = some closer)
    (h : src.FirstEmptied lex stops startsStatement start reach before last b) (hlimit : last - start ≤ limit) :
    src.groupEnd? lex opener closer limit start = some (last + 1) ∧
    src.scanValueUntil lex stops reach startsStatement start =
      src.scanFrom lex stops startsStatement start reach [] (last + 1) (last + 1) :=
  ⟨h.groupEnd?_eq hopen hpair hlimit, h.scanValueUntil_eq hopen hpair⟩

/-- A call with brackets of all kinds in it, two of them in a text and in a comment, over a joined line end. -/
def nestedCall : String :=
  "f(a[(0)], ')', \x7b\\\n1\x7d # )\n) + 1"

theorem groupEnd?_of_firstEmptied_nestedCall :
    (ofString nestedCall).byte? 1 = some '('.toUInt8 ∧
    (ofString nestedCall).FirstEmptied .python ({} : Stops) (fun _ => false) 1 40
      (((ofString nestedCall).piecesFrom .python 1).take 19) 25 ')'.toUInt8 ∧
    (ofString nestedCall).groupEnd? .python '('.toUInt8 ')'.toUInt8 24 1 = some 26 ∧
    (ofString nestedCall).scanValue .python ({} : Stops) 40 1 =
      (ofString nestedCall).scanFrom .python ({} : Stops) (fun _ => false) 1 40 [] 26 26 := by
  have hopen : (ofString nestedCall).byte? 1 = some '('.toUInt8 := by decide +kernel
  have hemptied : (ofString nestedCall).FirstEmptied .python ({} : Stops) (fun _ => false) 1 40
      (((ofString nestedCall).piecesFrom .python 1).take 19) 25 ')'.toUInt8 :=
    ⟨by decide +kernel, by decide +kernel, by decide +kernel, by decide +kernel⟩
  exact ⟨hopen, hemptied, groupEnd?_of_firstEmptied hopen rfl hemptied (by decide)⟩

end Source
end VarCensus
