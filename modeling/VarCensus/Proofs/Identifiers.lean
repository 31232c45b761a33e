import Mathlib.Data.Nat.Bitwise
import VarCensus.Proofs.Lexing

/-!
# Identifiers as text

Sources are read byte by byte, and a slice that cuts a character in two is empty. An identifier never is:
every byte of a character outside ASCII counts as an identifier byte, so a maximal run of identifier bytes is
bounded by ASCII bytes or by the ends of the source, and both bounds lie between characters.
-/

namespace VarCensus
namespace Source

/-! ## Positions between characters -/

theorem ofString_byte? {text : String} {pos : Nat} {b : UInt8} (h : (ofString text).byte? pos = some b) :
    ∃ hp : pos < text.toByteArray.size, text.toByteArray[pos] = b :=
  Array.getElem?_eq_some_iff.mp h

theorem and_128_eq_zero {b : UInt8} (h : b < 0x80) : b &&& 128 = 0 := by
  have hlt : b.toNat < 2 ^ 7 := h
  apply UInt8.toNat_inj.mp
  have hand : b.toNat &&& 2 ^ 7 = 0 := by
    rw [Nat.and_two_pow, Nat.testBit_lt_two_pow hlt]
    rfl
  simpa using hand

/-- An ASCII byte is a character of its own: a character starts at it. -/
theorem isValid_of_ascii {text : String} {pos : Nat} {b : UInt8} (h : (ofString text).byte? pos = some b)
    (hb : b < 0x80) : String.Pos.Raw.IsValid text ⟨pos⟩ := by
  obtain ⟨hp, rfl⟩ := ofString_byte? h
  exact String.Pos.Raw.isValid_iff_isUTF8FirstByte.mpr (Or.inr ⟨hp, Or.inl (and_128_eq_zero hb)⟩)

theorem isValidUTF8_ascii {b : UInt8} (hb : b < 0x80) : (ByteArray.empty.push b).IsValidUTF8 := by
  have hsize : (Char.ofUInt8 b).utf8Size = 1 := by
    rw [Char.utf8Size_eq_one_iff]
    exact Nat.le_of_lt_succ hb
  have hb' : (Char.ofUInt8 b).toUInt8 = b := UInt8.toUInt8_toUInt32 b
  have := ByteArray.IsValidUTF8.push ByteArray.isValidUTF8_empty hsize
  rwa [hb'] at this

theorem extract_byte {text : String} {pos : Nat} {b : UInt8} (h : (ofString text).byte? pos = some b) :
    text.toByteArray.extract pos (pos + 1) = ByteArray.empty.push b := by
  obtain ⟨hp, rfl⟩ := ofString_byte? h
  apply ByteArray.ext
  rw [ByteArray.data_extract, Array.extract_succ_right (Nat.lt_succ_self pos) hp,
    Array.extract_eq_empty_of_le (Nat.min_le_left _ _)]
  rfl

/-- And one starts right after it. -/
theorem isValid_succ_of_ascii {text : String} {pos : Nat} {b : UInt8}
    (h : (ofString text).byte? pos = some b) (hb : b < 0x80) : String.Pos.Raw.IsValid text ⟨pos + 1⟩ := by
  have hp := byte?_eq_some_lt h
  have hvalid : (text.toByteArray.extract pos (pos + 1)).IsValidUTF8 := by
    rw [extract_byte h]
    exact isValidUTF8_ascii hb
  have hiff := String.Pos.Raw.isValidUTF8_extract_iff (s := text) ⟨pos⟩ ⟨pos + 1⟩ (Nat.le_succ pos) hp
  rcases hiff.mp hvalid with heq | hboth
  · simp at heq
  · exact hboth.2

/-- **An ASCII byte is a character of the text.** The text is cut before and after the byte; both parts are
texts again, and so is the byte. -/
theorem split_of_byte? {text : String} {pos : Nat} {c : Char} (hsize : c.utf8Size = 1)
    (hascii : c.toUInt8 < 0x80) (h : (ofString text).byte? pos = some c.toUInt8) :
    ∃ front back, text.toList = front ++ c :: back ∧ (String.ofList front).utf8ByteSize = pos := by
  have hp : pos + 1 ≤ text.rawEndPos.byteIdx := byte?_eq_some_lt h
  have hafter := isValid_succ_of_ascii h hascii
  have hfront := (isValid_of_ascii h hascii).isValidUTF8_extract_zero
  dsimp only at hfront
  obtain ⟨front, hfront⟩ := hfront
  obtain ⟨back, hback⟩ := (String.Pos.Raw.isValidUTF8_extract_iff (s := text) ⟨pos + 1⟩ text.rawEndPos
    hafter.le_rawEndPos (Nat.le_refl _)).mpr (Or.inr ⟨hafter, String.Pos.Raw.isValid_rawEndPos⟩)
  have hone : text.toByteArray.extract pos (pos + 1) = [c].utf8Encode := by
    rw [extract_byte h, List.utf8Encode_singleton, String.utf8EncodeChar_eq_singleton hsize]
    rfl
  have htext : text = String.ofList (front ++ ([c] ++ back)) := by
    apply String.toByteArray_inj.mp
    rw [String.toByteArray_ofList, List.utf8Encode_append, List.utf8Encode_append, ← hfront, ← hone, ← hback,
      ByteArray.extract_append_extract, Nat.min_eq_left (Nat.le_succ pos), Nat.max_eq_right hp,
      ByteArray.extract_append_extract, Nat.zero_min, Nat.max_eq_right (Nat.le_of_succ_le hp)]
    exact ByteArray.extract_zero_size.symm
  refine ⟨front, back, by rw [htext, String.toList_ofList]; rfl, ?_⟩
  have hlength := congrArg ByteArray.size hfront
  have hle : pos ≤ text.toByteArray.size := Nat.le_of_succ_le hp
  rw [ByteArray.size_extract, Nat.sub_zero, Nat.min_eq_left hle] at hlength
  rw [← String.size_toByteArray, String.toByteArray_ofList, hlength]

theorem head?_of_byte? {text : String} {c : Char} (hsize : c.utf8Size = 1) (hascii : c.toUInt8 < 0x80)
    (h : (ofString text).byte? 0 = some c.toUInt8) : text.toList.head? = some c := by
  obtain ⟨front, back, htext, hfront⟩ := split_of_byte? hsize hascii h
  rw [String.utf8ByteSize_eq_zero_iff, String.ofList_eq_empty_iff] at hfront
  rw [htext, hfront]
  rfl

theorem getLast?_of_byte? {text : String} {c : Char} (hsize : c.utf8Size = 1) (hascii : c.toUInt8 < 0x80)
    (h : (ofString text).byte? (text.utf8ByteSize - 1) = some c.toUInt8) : text.toList.getLast? = some c := by
  obtain ⟨front, back, htext, hfront⟩ := split_of_byte? hsize hascii h
  -- nothing is left for the characters behind it
  have hback : back = [] := by
    have hsum : text = String.ofList front ++ (String.ofList [c] ++ String.ofList back) := by
      rw [← String.ofList_append, ← String.ofList_append, List.singleton_append, ← htext, String.ofList_toList]
    have hlength := congrArg String.utf8ByteSize hsum
    have hone : (String.ofList [c]).utf8ByteSize = 1 := by simp [hsize]
    rw [String.utf8ByteSize_append, String.utf8ByteSize_append, hone, hfront] at hlength
    rw [← String.ofList_eq_empty_iff, ← String.utf8ByteSize_eq_zero_iff]
    omega
  rw [htext, hback, List.getLast?_append]
  rfl

theorem mem_toList_of_byte? {text : String} {pos : Nat} {c : Char} (hsize : c.utf8Size = 1)
    (hascii : c.toUInt8 < 0x80) (h : (ofString text).byte? pos = some c.toUInt8) : c ∈ text.toList := by
  obtain ⟨front, back, htext, -⟩ := split_of_byte? hsize hascii h
  simp [htext]

theorem ascii_of_isIdentByte_eq_false {b : UInt8} (h : isIdentByte b = false) : b < 0x80 := by
  simp only [isIdentByte, isIdentStart, Bool.or_eq_false_iff, decide_eq_false_iff_not] at h
  exact Nat.lt_of_not_le h.1.2

/-- The start of a word that nothing runs into lies between characters. -/
theorem isValid_of_edge {text : String} {pos : Nat} {b : UInt8} (hedge : (ofString text).Edge pos)
    (h : (ofString text).byte? pos = some b) (hb : isIdentByte b = true) :
    String.Pos.Raw.IsValid text ⟨pos⟩ := by
  cases pos with
  | zero => exact String.Pos.Raw.isValid_zero
  | succ pos =>
    have hlt := byte?_eq_some_lt h
    obtain ⟨c, hc⟩ := Option.isSome_iff_exists.mp
      (byte?_isSome_iff.mpr (Nat.lt_of_succ_lt hlt) : ((ofString text).byte? pos).isSome)
    have hident : isIdentByte c = false := by
      simpa [Edge, byteBefore?, hc, h, hb] using hedge
    exact isValid_succ_of_ascii hc (ascii_of_isIdentByte_eq_false hident)

/-! ## The text of a word -/

/-- A slice between characters is the text there. -/
theorem toByteArray_slice {text : String} {p q : Nat} (hpq : p ≤ q) (hp : String.Pos.Raw.IsValid text ⟨p⟩)
    (hq : String.Pos.Raw.IsValid text ⟨q⟩) :
    ((ofString text).slice p q).toByteArray = text.toByteArray.extract p q := by
  have hle : q ≤ text.utf8ByteSize := hq.le_rawEndPos
  have hvalid : (text.toByteArray.extract p q).IsValidUTF8 :=
    (String.Pos.Raw.isValidUTF8_extract_iff ⟨p⟩ ⟨q⟩ hpq hle).mpr (Or.inr ⟨hp, hq⟩)
  have hbytes : (⟨(ofString text).bytes.extract p q⟩ : ByteArray) = text.toByteArray.extract p q := by
    apply ByteArray.ext
    rw [ByteArray.data_extract]
    rfl
  rw [slice, if_pos ⟨hpq, hle⟩, hbytes, String.fromUTF8?, dif_pos hvalid]
  rfl

/-- Slices that touch between two characters are one slice. -/
theorem slice_append_slice {text : String} {p q r : Nat} (hpq : p ≤ q) (hqr : q ≤ r)
    (hp : String.Pos.Raw.IsValid text ⟨p⟩) (hq : String.Pos.Raw.IsValid text ⟨q⟩)
    (hr : String.Pos.Raw.IsValid text ⟨r⟩) :
    (ofString text).slice p q ++ (ofString text).slice q r = (ofString text).slice p r := by
  apply String.toByteArray_inj.mp
  rw [String.toByteArray_append, toByteArray_slice hpq hp hq, toByteArray_slice hqr hq hr,
    toByteArray_slice (Nat.le_trans hpq hqr) hp hr, ByteArray.extract_append_extract, Nat.min_eq_left hpq,
    Nat.max_eq_right hqr]

/-- The bytes of the word at a position. -/
structure IsWord (src : Source) (pos stop : Nat) : Prop where
  lt : pos < stop
  le_size : stop ≤ src.size
  bytes : ∀ i, pos ≤ i → i < stop → (src.byte? i).any isIdentByte = true
  closed : (src.byte? stop).any isIdentByte = false

theorem any_byte?_of_lt_skipWhile {src : Source} {test : UInt8 → Bool} {pos i : Nat} (hle : pos ≤ i)
    (h : i < src.skipWhile test pos) : (src.byte? i).any test = true := by
  fun_induction skipWhile src test pos with
  | case1 pos hlt ht ih =>
    rcases Nat.eq_or_lt_of_le hle with rfl | hle
    · simp [byte?, Array.getElem?_eq_getElem hlt, ht]
    · exact ih hle h
  | case2 => exact absurd h (Nat.not_lt.mpr hle)
  | case3 => exact absurd h (Nat.not_lt.mpr hle)

theorem isWord_of_identEnd? {src : Source} {pos e : Nat} (h : src.identEnd? pos = some e) :
    src.IsWord pos e := by
  have hbounds := identEnd?_bounds h
  unfold identEnd? at h
  split at h
  · next b hb =>
    split at h
    · next hs =>
      cases h
      refine ⟨hbounds.1, hbounds.2, fun i hi hlt => ?_, ?_⟩
      · rcases Nat.eq_or_lt_of_le hi with rfl | hi
        · simp [hb, isIdentByte, hs]
        · exact any_byte?_of_lt_skipWhile hi hlt
      · cases hc : src.byte? (src.skipWhile isIdentByte (pos + 1)) with
        | none => rfl
        | some c => exact byte?_skipWhile hc
    · cases h
  · cases h

/-- **A word is its text.** At an edge the identifier that is read has as many bytes as the run it was read
from, and is the text there. -/
theorem identAt?_text {text : String} {pos e : Nat} {name : String} (hedge : (ofString text).Edge pos)
    (h : (ofString text).identAt? pos = some (name, e)) :
    (ofString text).IsWord pos e ∧ name = (ofString text).slice pos e ∧ e = pos + name.utf8ByteSize := by
  obtain ⟨e', he, heq⟩ := Option.map_eq_some_iff.mp h
  cases heq
  have hword := isWord_of_identEnd? he
  obtain ⟨b, hb, hident⟩ := (Option.any_eq_true _ _).mp (hword.bytes pos (Nat.le_refl _) hword.lt)
  have hp := isValid_of_edge hedge hb hident
  -- the run ends with the text or at an ASCII byte, and both are boundaries between characters
  have hq : String.Pos.Raw.IsValid text ⟨e⟩ := by
    cases hc : (ofString text).byte? e with
    | none =>
      have hsize : e = text.utf8ByteSize :=
        Nat.le_antisymm hword.le_size (Array.getElem?_eq_none_iff.mp hc)
      rw [hsize]
      exact String.Pos.Raw.isValid_rawEndPos
    | some c =>
      have hclosed := hword.closed
      rw [hc] at hclosed
      exact isValid_of_ascii hc (ascii_of_isIdentByte_eq_false hclosed)
  refine ⟨hword, rfl, ?_⟩
  have hsize := congrArg ByteArray.size (toByteArray_slice (Nat.le_of_lt hword.lt) hp hq)
  rw [ByteArray.size_extract, String.size_toByteArray, String.size_toByteArray] at hsize
  have hle : e ≤ text.utf8ByteSize := hword.le_size
  have hlt := hword.lt
  omega

end Source
end VarCensus
