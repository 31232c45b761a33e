import VarCensus.Proofs.ReadingValues

/-!
# How far searches look

Whether two sources are the same can be seen by a search only where it looks. Each lemma below says of one search
that it gives the same in two sources of one size that agree on the bytes between its start and its end. The
search for the mark of a raw literal is the only one that looks further than it goes: that no mark is found depends
on bytes behind whatever is read instead, so the lemma about raw literals starts from one that is found.
-/

namespace VarCensus
namespace Source

variable {src src' : Source} {pos : Nat}

theorem slice_congr {first stop : Nat} (hsize : src'.size = src.size)
    (h : ∀ i, first ≤ i → i < stop → src'.byte? i = src.byte? i) :
    src'.slice first stop = src.slice first stop := by
  have hextract : src'.bytes.extract first stop = src.bytes.extract first stop := by
    refine Array.ext_getElem? fun i => ?_
    rw [Array.getElem?_extract, Array.getElem?_extract, show src'.bytes.size = src.bytes.size from hsize]
    split
    · next hlt => exact h _ (Nat.le_add_right _ _) (by omega)
    · rfl
  simp only [slice, hextract, hsize]

theorem startsWith_congr {pattern : List UInt8} (hsize : src'.size = src.size)
    (h : ∀ i, pos ≤ i → i < pos + pattern.length → src'.byte? i = src.byte? i) :
    src'.startsWith pos pattern = src.startsWith pos pattern := by
  induction pattern generalizing pos with
  | nil => simp only [startsWith, hsize]
  | cons b rest ih =>
    simp only [List.length_cons] at h
    have hbyte := h pos (Nat.le_refl _) (by omega)
    have hrest : src'.startsWith (pos + 1) rest = src.startsWith (pos + 1) rest :=
      ih fun i hle hlt => h i (by omega) (by omega)
    rw [startsWith, startsWith, hbyte, hrest]

theorem find?_congr {pattern : List UInt8} {i : Nat} (hsize : src'.size = src.size)
    (h : ∀ j, pos ≤ j → j < i + pattern.length → src'.byte? j = src.byte? j)
    (hfind : src.find? pattern pos = some i) : src'.find? pattern pos = some i := by
  fun_induction find? src pattern pos with
  | case1 pos hlt hs =>
    cases hfind
    rw [find?, hsize, if_pos hlt, startsWith_congr hsize h, if_pos hs]
  | case2 pos hlt hs ih =>
    have hle := (find?_bounds hfind).1
    have hno : src'.startsWith pos pattern = src.startsWith pos pattern :=
      startsWith_congr hsize fun j hj hlt => h j hj (by omega)
    rw [find?, hsize, if_pos hlt, hno, if_neg hs]
    exact ih (fun j hj => h j (Nat.le_of_succ_le hj)) hfind
  | case3 => cases hfind

/-- Where the rest of two sources is the same, a search finds the same in both. -/
theorem find?_eq_of_rest {pattern : List UInt8} (hsize : src'.size = src.size)
    (h : ∀ j, pos ≤ j → src'.byte? j = src.byte? j) : src'.find? pattern pos = src.find? pattern pos := by
  cases hfind : src.find? pattern pos with
  | some i => exact find?_congr hsize (fun j hj _ => h j hj) hfind
  | none =>
    cases hfind' : src'.find? pattern pos with
    | none => rfl
    | some i =>
      rw [find?_congr hsize.symm (fun j hj _ => (h j hj).symm) hfind'] at hfind
      cases hfind

theorem after_congr (hlt : pos < src.bytes.size) (h : src'.byte? pos = src.byte? pos) :
    src'.after pos = src.bytes[pos] :: src'.after (pos + 1) :=
  after_eq_cons (h.trans (Array.getElem?_eq_getElem hlt))

theorem skipWhile_congr {test : UInt8 → Bool} (hsize : src'.size = src.size)
    (h : ∀ i, pos ≤ i → i ≤ src.skipWhile test pos → (src'.byte? i).map test = (src.byte? i).map test) :
    src'.skipWhile test pos = src.skipWhile test pos := by
  have htest {pos : Nat} (hlt : pos < src.bytes.size) (h : (src'.byte? pos).map test = (src.byte? pos).map test) :
      ∃ b, src'.after pos = b :: src'.after (pos + 1) ∧ test b = test src.bytes[pos] := by
    rw [byte?, byte?, Array.getElem?_eq_getElem hlt, Option.map_some] at h
    obtain ⟨b, hb, htest⟩ := Option.map_eq_some_iff.mp h
    exact ⟨b, after_eq_cons hb, htest⟩
  fun_induction skipWhile src test pos with
  | case1 pos hlt ht ih =>
    have hle := le_skipWhile src test (pos + 1)
    obtain ⟨b, hafter, hb⟩ := htest hlt (h pos (Nat.le_refl _) (Nat.le_of_succ_le hle))
    rw [skipWhile_cons hafter, hb, if_pos ht]
    exact ih fun i hi => h i (Nat.le_of_succ_le hi)
  | case2 pos hlt ht =>
    obtain ⟨b, hafter, hb⟩ := htest hlt (h pos (Nat.le_refl _) (Nat.le_refl _))
    rw [skipWhile_cons hafter, hb, if_neg ht]
  | case3 pos hlt => rw [skipWhile, dif_neg (by rwa [show src'.bytes.size = src.bytes.size from hsize])]

theorem quotedEnd_congr {quote : UInt8} (hsize : src'.size = src.size)
    (h : ∀ i, pos ≤ i → i ≤ src.quotedEnd quote pos → src'.byte? i = src.byte? i) :
    src'.quotedEnd quote pos = src.quotedEnd quote pos := by
  fun_induction quotedEnd src quote pos with
  | case1 pos hlt hslash ih =>
    have hle := (quotedEnd_bounds src quote (pos + 2)).1
    unfold size at hle
    rw [quotedEnd_cons (after_congr hlt (h pos (Nat.le_refl _) (by omega))), if_pos hslash]
    exact ih fun i hi => h i (by omega)
  | case2 pos hlt hslash hfeed =>
    rw [quotedEnd_cons (after_congr hlt (h pos (Nat.le_refl _) (Nat.le_refl _))), if_neg hslash, if_pos hfeed]
  | case3 pos hlt hslash hfeed hquote =>
    rw [quotedEnd_cons (after_congr hlt (h pos (Nat.le_refl _) (Nat.le_succ _))), if_neg hslash, if_neg hfeed,
      if_pos hquote]
  | case4 pos hlt hslash hfeed hquote ih =>
    have hle := (quotedEnd_bounds src quote (pos + 1)).1
    unfold size at hle
    rw [quotedEnd_cons (after_congr hlt (h pos (Nat.le_refl _) (by omega))), if_neg hslash, if_neg hfeed,
      if_neg hquote]
    exact ih fun i hi => h i (by omega)
  | case5 pos hlt =>
    have hbytes : src'.bytes.size = src.bytes.size := hsize
    rw [quotedEnd, dif_neg (by rwa [hbytes]), hbytes]

theorem le_tripleQuotedEnd (src : Source) (quote : UInt8) (pos : Nat) :
    min (pos + 3) src.size ≤ src.tripleQuotedEnd quote pos := by
  fun_induction tripleQuotedEnd src quote pos with
  | case1 => unfold size at *; omega
  | case2 => omega
  | case3 => unfold size at *; omega
  | case4 => unfold size at *; omega

theorem tripleQuotedEnd_congr {quote : UInt8} (hsize : src'.size = src.size)
    (h : ∀ i, pos ≤ i → i ≤ src.tripleQuotedEnd quote pos → src'.byte? i = src.byte? i) :
    src'.tripleQuotedEnd quote pos = src.tripleQuotedEnd quote pos := by
  -- past the end neither source has a byte
  have hpast {i : Nat} (hi : src.size ≤ i) : src'.byte? i = src.byte? i := by
    rw [byte?_eq_none hi, byte?_eq_none (hsize ▸ hi)]
  fun_induction tripleQuotedEnd src quote pos with
  | case1 pos hlt hslash ih =>
    have hle := le_tripleQuotedEnd src quote (pos + 2)
    have hlt' : pos < src.size := hlt
    rw [tripleQuotedEnd_cons (after_congr hlt (h pos (Nat.le_refl _) (by omega))), if_pos hslash]
    exact ih fun i hi => h i (by omega)
  | case2 pos hlt hslash hs =>
    have hstarts : src'.startsWith pos [quote, quote, quote] = src.startsWith pos [quote, quote, quote] :=
      startsWith_congr hsize fun i hi hlt => h i hi (Nat.le_of_lt hlt)
    rw [tripleQuotedEnd_cons (after_congr hlt (h pos (Nat.le_refl _) (Nat.le_add_right _ _))), if_neg hslash,
      hstarts, if_pos hs]
  | case3 pos hlt hslash hs ih =>
    have hle := le_tripleQuotedEnd src quote (pos + 1)
    have hlt' : pos < src.size := hlt
    have hstarts : src'.startsWith pos [quote, quote, quote] = src.startsWith pos [quote, quote, quote] := by
      refine startsWith_congr hsize fun i hi hlt => ?_
      simp only [List.length_cons, List.length_nil] at hlt
      rcases Nat.lt_or_ge i src.size with hi' | hi'
      · exact h i hi (by omega)
      · exact hpast hi'
    rw [tripleQuotedEnd_cons (after_congr hlt (h pos (Nat.le_refl _) (by omega))), if_neg hslash, hstarts, if_neg hs]
    exact ih fun i hi => h i (Nat.le_of_succ_le hi)
  | case4 pos hlt =>
    have hbytes : src'.bytes.size = src.bytes.size := hsize
    rw [tripleQuotedEnd, dif_neg (by rwa [hbytes]), hbytes]

theorem ordinaryEnd_congr {lex : Lexicon} {quote : UInt8} (hsize : src'.size = src.size)
    (h : ∀ i, pos ≤ i → i ≤ max (pos + 2) (src.ordinaryEnd lex quote pos) → src'.byte? i = src.byte? i) :
    src'.ordinaryEnd lex quote pos = src.ordinaryEnd lex quote pos := by
  have hstarts : src'.startsWith pos [quote, quote, quote] = src.startsWith pos [quote, quote, quote] := by
    refine startsWith_congr hsize fun i hi hlt => ?_
    simp only [List.length_cons, List.length_nil] at hlt
    exact h i hi (by omega)
  rw [ordinaryEnd, hstarts]
  unfold ordinaryEnd at h ⊢
  split
  · next ht =>
    rw [if_pos ht] at h
    exact tripleQuotedEnd_congr hsize fun i hi hle => h i (by omega) (by omega)
  · next ht =>
    rw [if_neg ht] at h
    exact quotedEnd_congr hsize fun i hi hle => h i (by omega) (by omega)

theorem rawMarkLength?_congr {len : Nat} (h : ∀ i, pos ≤ i → i ≤ pos + len → src'.byte? i = src.byte? i)
    (hsize : src'.size = src.size) (hmark : src.rawMarkLength? pos = some len) :
    src'.rawMarkLength? pos = some len := by
  have hlist {i : Nat} (hi : i ≤ len) : (src'.bytes.extract pos (pos + 17)).toList[i]? =
      (src.bytes.extract pos (pos + 17)).toList[i]? := by
    rw [Array.getElem?_toList, Array.getElem?_toList, Array.getElem?_extract, Array.getElem?_extract,
      show src'.bytes.size = src.bytes.size from hsize]
    split
    · exact h _ (Nat.le_add_right _ _) (Nat.add_le_add_left hi _)
    · rfl
  obtain ⟨hlt, hopen, hbefore⟩ := List.findIdx?_eq_some_iff_getElem.mp hmark
  have hopen' := (hlist (Nat.le_refl len)).trans (List.getElem?_eq_getElem hlt)
  obtain ⟨hlt', hget⟩ := List.getElem?_eq_some_iff.mp hopen'
  refine List.findIdx?_eq_some_iff_getElem.mpr ⟨hlt', by rw [hget]; exact hopen, fun j hj => ?_⟩
  have hj' := (hlist (Nat.le_of_lt hj)).trans (List.getElem?_eq_getElem (Nat.lt_trans hj hlt))
  obtain ⟨_, hget'⟩ := List.getElem?_eq_some_iff.mp hj'
  rw [hget']
  exact hbefore j hj

/-- A raw literal is read from its quote to its end. -/
theorem rawStringEnd?_congr {e : Nat} (hsize : src'.size = src.size)
    (h : ∀ i, pos ≤ i → i < e → src'.byte? i = src.byte? i) (hraw : src.rawStringEnd? pos = some e) :
    src'.rawStringEnd? pos = some e := by
  unfold rawStringEnd? at hraw
  split at hraw
  · cases hraw
  · next len hlen =>
    have hmark := rawMarkLength?_lt hlen
    dsimp only at hraw
    split at hraw
    · cases hraw
    · next hfit =>
      have hlt : pos + 1 + len < e := by
        split at hraw
        · next i hi =>
          cases hraw
          have := find?_bounds hi
          omega
        · cases hraw
          exact hmark
      have hslice : src'.slice (pos + 1) (pos + 1 + len) = src.slice (pos + 1) (pos + 1 + len) :=
        slice_congr hsize fun i hi hi' => h i (by omega) (by omega)
      rw [rawStringEnd?, rawMarkLength?_congr (fun i hi hi' => h i (by omega) (by omega)) hsize hlen]
      dsimp only
      rw [hslice, if_neg hfit]
      split at hraw
      · next i hi =>
        cases hraw
        rw [find?_congr hsize (fun j hj hj' => h j (by omega) hj') hi]
      · next hnone =>
        cases hraw
        -- what is found in one source up to the end is found in the other
        cases hfind : src'.find? (')'.toUInt8 :: (src.slice (pos + 1) (pos + 1 + len)).toUTF8.toList ++
            ['"'.toUInt8]) (pos + 2 + len) with
        | none => rw [hsize]
        | some i =>
          have hle := (find?_bounds hfind).2
          rw [find?_congr hsize.symm (fun j hj hj' => (h j (by omega) (by omega)).symm) hfind] at hnone
          cases hnone

/-- A directive is read from its sign to its end. -/
theorem directiveEndFrom_congr {stop : Nat} (hsize : src'.size = src.size)
    (hline : ∀ i, src'.lineEnd i = src.lineEnd i)
    (h : ∀ i, pos ≤ i → i < src.directiveEndFrom pos stop → src'.byte? i = src.byte? i) :
    src'.directiveEndFrom pos stop = src.directiveEndFrom pos stop := by
  fun_induction directiveEndFrom src pos stop with
  | case1 stop hs ih =>
    have hle := le_directiveEndFrom src pos (max (stop + 1) (src.lineEnd (stop + 1)))
    have hslice : src'.slice pos stop = src.slice pos stop :=
      slice_congr hsize fun i hi hlt => h i hi (by omega)
    rw [directiveEndFrom, hsize, hslice, if_pos hs, hline]
    exact ih h
  | case2 stop hs =>
    have hslice : src'.slice pos stop = src.slice pos stop := slice_congr hsize h
    rw [directiveEndFrom, hsize, hslice, if_neg hs]

end Source
end VarCensus
