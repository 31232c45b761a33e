import VarCensus.Proofs.Collapse
import VarCensus.Proofs.Identifiers
import VarCensus.Proofs.Standing

/-!
# Characters in their places

Sources are read by byte positions, and what is recorded are characters. `Text.placed` puts the two together: the
characters of a text, each with the position of its first byte. The stretch of a text between two positions is then
a sublist (`Text.between`), stretches that touch are one stretch, and a slice between characters has the characters
of its stretch (`toList_slice`).

Collapsing a text changes its blanks only, so a text and what it collapses to have the same characters once the
blanks are taken out (`unblanked_collapse`).
-/

namespace VarCensus
namespace Text

/-! ## Blanks of a text -/

/-- The characters of a text that are not blank. -/
def unblanked (s : String) : List Char :=
  s.toList.filter fun c => !isBlank c

theorem unblanked_append (s t : String) : unblanked (s ++ t) = unblanked s ++ unblanked t := by
  rw [unblanked, String.toList_append, List.filter_append]
  rfl

theorem flatten_words (cs : List Char) : (words cs).flatten = cs.filter fun c => !isBlank c := by
  induction cs with
  | nil => rfl
  | cons c cs ih =>
    cases hc : isBlank c with
    | true => rw [words_cons_blank hc, ih, List.filter_cons_of_neg (by simp [hc])]
    | false =>
      rw [List.filter_cons_of_pos (by simp [hc]), ← ih]
      cases cs with
      | nil => rw [words_singleton hc]; rfl
      | cons d cs =>
        cases hd : isBlank d with
        | true => rw [words_cons_of_blank_after hc hd]; rfl
        | false =>
          obtain ⟨w, ws, hw⟩ := words_ne_nil hd cs
          rw [words_cons_of_word hc hd hw, hw]
          rfl

theorem filter_of_isWord {w : List Char} (hw : IsWord w) : (w.filter fun c => !isBlank c) = w :=
  List.filter_eq_self.mpr fun c hc => by simp [hw.2 c hc]

theorem filter_intercalate {ws : List (List Char)} (h : ∀ w ∈ ws, IsWord w) :
    (([' '].intercalate ws).filter fun c => !isBlank c) = ws.flatten := by
  induction ws with
  | nil => rfl
  | cons w ws ih =>
    have hw := filter_of_isWord (h w List.mem_cons_self)
    have hws := ih fun v hv => h v (List.mem_cons_of_mem _ hv)
    cases ws with
    | nil => simpa using hw
    | cons v ws =>
      have hspace : ([' '].filter fun c => !isBlank c) = [] := rfl
      rw [List.intercalate_cons_cons, List.filter_append, List.filter_append, hw, hws, hspace, List.append_nil]
      rfl

/-- **Collapsing a text moves blanks only.** -/
theorem unblanked_collapse (s : String) : unblanked (collapse s) = unblanked s := by
  rw [unblanked, collapse, String.toList_ofList, filter_intercalate fun w hw => isWord_of_mem_words hw, flatten_words]
  rfl

/-! ## Characters in their places -/

/-- A character of a text, with the byte position where it starts. -/
structure PlacedChar where
  pos : Nat
  char : Char
deriving DecidableEq, Repr

/-- Characters in their places, the first one at `pos`. -/
def placed (pos : Nat) : List Char → List PlacedChar
  | [] => []
  | c :: rest => ⟨pos, c⟩ :: placed (pos + c.utf8Size) rest

/-- The characters of a text that start between two positions. -/
def between (text : String) (first last : Nat) : List PlacedChar :=
  (placed 0 text.toList).filter fun c => first ≤ c.pos && c.pos < last

theorem mem_between {text : String} {first last : Nat} {c : PlacedChar} :
    c ∈ between text first last ↔ c ∈ placed 0 text.toList ∧ first ≤ c.pos ∧ c.pos < last := by
  simp [between]

theorem utf8ByteSize_cons (c : Char) (cs : List Char) :
    (String.ofList (c :: cs)).utf8ByteSize = c.utf8Size + (String.ofList cs).utf8ByteSize := by
  rw [← List.singleton_append, String.ofList_append, String.utf8ByteSize_append, ← String.singleton_eq_ofList,
    String.utf8ByteSize_singleton]

theorem map_char_placed (pos : Nat) (cs : List Char) : (placed pos cs).map PlacedChar.char = cs := by
  induction cs generalizing pos with
  | nil => rfl
  | cons c cs ih => rw [placed, List.map_cons, ih]

theorem placed_append (pos : Nat) (cs ds : List Char) :
    placed pos (cs ++ ds) = placed pos cs ++ placed (pos + (String.ofList cs).utf8ByteSize) ds := by
  induction cs generalizing pos with
  | nil => rfl
  | cons c cs ih =>
    rw [List.cons_append, placed, placed, ih, utf8ByteSize_cons, Nat.add_assoc]
    rfl

theorem pos_of_mem_placed {pos : Nat} {cs : List Char} {c : PlacedChar} (h : c ∈ placed pos cs) :
    pos ≤ c.pos ∧ c.pos < pos + (String.ofList cs).utf8ByteSize := by
  induction cs generalizing pos with
  | nil => cases h
  | cons d cs ih =>
    have hsize := d.utf8Size_pos
    rw [utf8ByteSize_cons]
    rcases List.mem_cons.mp h with rfl | h
    · exact ⟨Nat.le_refl pos, by dsimp only; omega⟩
    · have := ih h
      omega

theorem filter_placed_split {first mid last : Nat} (h : first ≤ mid) (h' : mid ≤ last) (pos : Nat) (cs : List Char) :
    ((placed pos cs).filter fun c => first ≤ c.pos && c.pos < mid) ++
        ((placed pos cs).filter fun c => mid ≤ c.pos && c.pos < last) =
      (placed pos cs).filter fun c => first ≤ c.pos && c.pos < last := by
  induction cs generalizing pos with
  | nil => rfl
  | cons c cs ih =>
    by_cases hpos : pos < mid
    · have hnot : ¬ mid ≤ pos := Nat.not_le.mpr hpos
      have hlast : pos < last := Nat.lt_of_lt_of_le hpos h'
      rw [placed, List.filter_cons, List.filter_cons, List.filter_cons, ← ih]
      simp only [hpos, hnot, hlast, decide_true, decide_false, Bool.and_true, Bool.false_eq_true, ↓reduceIte]
      split
      · rfl
      · rfl
    · -- from here on nothing starts in front of the middle
      have hempty : ((placed pos (c :: cs)).filter fun c => first ≤ c.pos && c.pos < mid) = [] := by
        refine List.filter_eq_nil_iff.mpr fun d hd => ?_
        have := (pos_of_mem_placed hd).1
        simp only [Bool.and_eq_true, decide_eq_true_eq]
        omega
      rw [hempty, List.nil_append]
      refine List.filter_congr fun d hd => ?_
      have hle := (pos_of_mem_placed hd).1
      have hfirst : first ≤ d.pos := by omega
      have hmid : mid ≤ d.pos := by omega
      simp [hfirst, hmid]

theorem between_append {text : String} {first mid last : Nat} (h : first ≤ mid) (h' : mid ≤ last) :
    between text first mid ++ between text mid last = between text first last :=
  filter_placed_split h h' 0 text.toList

theorem between_self (text : String) (pos : Nat) : between text pos pos = [] :=
  List.filter_eq_nil_iff.mpr fun c _ => by simp

/-- The characters of the middle part of a text. -/
theorem map_char_between (front mid back : String) :
    (between (front ++ mid ++ back) front.utf8ByteSize (front.utf8ByteSize + mid.utf8ByteSize)).map PlacedChar.char =
      mid.toList := by
  have hplaced : placed 0 (front ++ mid ++ back).toList = placed 0 front.toList ++
      placed front.utf8ByteSize mid.toList ++ placed (front.utf8ByteSize + mid.utf8ByteSize) back.toList := by
    rw [String.toList_append, String.toList_append, placed_append, placed_append, ← String.toList_append,
      String.ofList_toList, String.ofList_toList, String.utf8ByteSize_append, Nat.zero_add, Nat.zero_add]
  have hfront : ((placed 0 front.toList).filter fun c =>
      front.utf8ByteSize ≤ c.pos && c.pos < front.utf8ByteSize + mid.utf8ByteSize) = [] := by
    refine List.filter_eq_nil_iff.mpr fun c hc => ?_
    have := (pos_of_mem_placed hc).2
    rw [String.ofList_toList] at this
    simp only [Bool.and_eq_true, decide_eq_true_eq]
    omega
  have hmid : ((placed front.utf8ByteSize mid.toList).filter fun c =>
      front.utf8ByteSize ≤ c.pos && c.pos < front.utf8ByteSize + mid.utf8ByteSize) =
        placed front.utf8ByteSize mid.toList := by
    refine List.filter_eq_self.mpr fun c hc => ?_
    have := pos_of_mem_placed hc
    rw [String.ofList_toList] at this
    simpa using this
  have hback : ((placed (front.utf8ByteSize + mid.utf8ByteSize) back.toList).filter fun c =>
      front.utf8ByteSize ≤ c.pos && c.pos < front.utf8ByteSize + mid.utf8ByteSize) = [] := by
    refine List.filter_eq_nil_iff.mpr fun c hc => ?_
    have := (pos_of_mem_placed hc).1
    simp only [Bool.and_eq_true, decide_eq_true_eq]
    omega
  rw [between, hplaced, List.filter_append, List.filter_append, hfront, hmid, hback, List.nil_append, List.append_nil,
    map_char_placed]

end Text

namespace Source

open Text

variable {text : String}

/-- **A slice between characters has the characters that start in it.** -/
theorem toList_slice {p q : Nat} (hpq : p ≤ q) (hp : String.Pos.Raw.IsValid text ⟨p⟩)
    (hq : String.Pos.Raw.IsValid text ⟨q⟩) :
    ((ofString text).slice p q).toList = (between text p q).map PlacedChar.char := by
  have hend : String.Pos.Raw.IsValid text ⟨text.utf8ByteSize⟩ := String.Pos.Raw.isValid_rawEndPos
  have hle : q ≤ text.utf8ByteSize := hq.le_rawEndPos
  have hsize {p q : Nat} (hpq : p ≤ q) (hp : String.Pos.Raw.IsValid text ⟨p⟩)
      (hq : String.Pos.Raw.IsValid text ⟨q⟩) : ((ofString text).slice p q).utf8ByteSize = q - p := by
    have hle : q ≤ text.utf8ByteSize := hq.le_rawEndPos
    rw [← String.size_toByteArray, toByteArray_slice hpq hp hq, ByteArray.size_extract, String.size_toByteArray,
      Nat.min_eq_left hle]
  have htext : (ofString text).slice 0 p ++ (ofString text).slice p q ++
      (ofString text).slice q text.utf8ByteSize = text := by
    rw [slice_append_slice (Nat.zero_le p) hpq String.Pos.Raw.isValid_zero hp hq,
      slice_append_slice (Nat.zero_le q) hle String.Pos.Raw.isValid_zero hq hend]
    apply String.toByteArray_inj.mp
    rw [toByteArray_slice (Nat.zero_le _) String.Pos.Raw.isValid_zero hend]
    exact ByteArray.extract_zero_size
  have hchars := map_char_between ((ofString text).slice 0 p) ((ofString text).slice p q)
    ((ofString text).slice q text.utf8ByteSize)
  rw [htext, hsize (Nat.zero_le p) String.Pos.Raw.isValid_zero hp, hsize hpq hp hq, Nat.sub_zero,
    Nat.add_sub_cancel' hpq] at hchars
  exact hchars.symm

/-- The character at the place of an ASCII byte is that byte. -/
theorem char_of_byte? {c : Char} {p : PlacedChar} (hsize : c.utf8Size = 1) (hascii : c.toUInt8 < 0x80)
    (hp : p ∈ placed 0 text.toList) (h : (ofString text).byte? p.pos = some c.toUInt8) : p.char = c := by
  obtain ⟨front, back, htext, hfront⟩ := split_of_byte? hsize hascii h
  rw [htext, placed_append, hfront, Nat.zero_add, placed] at hp
  rcases List.mem_append.mp hp with hp | hp
  · have := (pos_of_mem_placed hp).2
    omega
  · rcases List.mem_cons.mp hp with heq | hp
    · exact congrArg PlacedChar.char heq
    · have := (pos_of_mem_placed hp).1
      omega

theorem isBlank_of_byte? {b : UInt8} {p : PlacedChar} (hp : p ∈ placed 0 text.toList)
    (h : (ofString text).byte? p.pos = some b) (hb : isAsciiBlank b = true) : isBlank p.char = true := by
  obtain ⟨c, hsize, hascii, hblank, rfl⟩ := exists_char_of_isAsciiBlank hb
  rw [char_of_byte? hsize hascii hp h]
  exact hblank

end Source
end VarCensus
