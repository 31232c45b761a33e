import VarCensus.Proofs.Identifiers

/-!
# What stands from a position on

A text that was put together from parts can be read back part by part. `after` is all that a source holds from
a position on, and `after_add` takes a part away from it. The lemmas below say what the elementary searches
find when a given part stands in front of them: a run of bytes that pass a test, a pattern, the bytes of a
text, a name.
-/

namespace VarCensus

/-! ## Bytes of texts -/

/-- The bytes of a text. -/
def Text.bytes (s : String) : List UInt8 :=
  s.toUTF8.data.toList

@[simp]
theorem Text.bytes_append (s t : String) : bytes (s ++ t) = bytes s ++ bytes t := by
  simp [bytes, String.toUTF8]

@[simp]
theorem Text.length_bytes (s : String) : (bytes s).length = s.utf8ByteSize := by
  simp [bytes, String.toUTF8]

theorem Text.bytes_eq_nil {s : String} : bytes s = [] ↔ s = "" := by
  rw [← List.length_eq_zero_iff, length_bytes, String.utf8ByteSize_eq_zero_iff]

theorem toList_loop_eq (bytes : ByteArray) (i : Nat) (r : List UInt8) :
    ByteArray.toList.loop bytes i r = r.reverse ++ bytes.data.toList.drop i := by
  fun_induction ByteArray.toList.loop bytes i r with
  | case1 i r h ih =>
    have hi : i < bytes.data.toList.length := h
    rw [ih, List.drop_eq_getElem_cons hi]
    simp [ByteArray.get!, getElem!_pos, h]
  | case2 i r h =>
    have hi : bytes.data.toList.length ≤ i := Nat.le_of_not_lt h
    simp [List.drop_eq_nil_of_le hi]

theorem Text.toList_toUTF8 (s : String) : s.toUTF8.toList = bytes s := by
  simp [ByteArray.toList, toList_loop_eq, bytes]

/-- An ASCII byte of a text is a character of it. -/
theorem Text.mem_toList_of_mem_bytes {s : String} {c : Char} (hsize : c.utf8Size = 1) (hascii : c.toUInt8 < 0x80)
    (h : c.toUInt8 ∈ bytes s) : c ∈ s.toList := by
  obtain ⟨i, hi⟩ := List.mem_iff_getElem?.mp h
  refine Source.mem_toList_of_byte? hsize hascii (show (Source.ofString s).byte? i = some c.toUInt8 from ?_)
  simpa [Source.byte?, Source.ofString, bytes] using hi

theorem Text.bytes_singleton {c : Char} (hsize : c.utf8Size = 1) : bytes (String.ofList [c]) = [c.toUInt8] := by
  simp [bytes, String.toUTF8, List.utf8Encode_singleton, String.utf8EncodeChar_eq_singleton hsize]

/-- And a character of it that takes one byte is a byte of it. -/
theorem Text.mem_bytes_of_mem_toList {s : String} {c : Char} (hsize : c.utf8Size = 1) (h : c ∈ s.toList) :
    c.toUInt8 ∈ bytes s := by
  obtain ⟨front, back, hs⟩ := List.append_of_mem h
  have htext : s = String.ofList front ++ (String.ofList [c] ++ String.ofList back) := by
    rw [← String.ofList_append, ← String.ofList_append, List.singleton_append, ← hs, String.ofList_toList]
  rw [htext, bytes_append, bytes_append, bytes_singleton hsize]
  simp

theorem Text.exists_char_of_isAsciiBlank {b : UInt8} (h : isAsciiBlank b = true) :
    ∃ c : Char, c.utf8Size = 1 ∧ c.toUInt8 < 0x80 ∧ isBlank c = true ∧ c.toUInt8 = b := by
  simp only [isAsciiBlank, Bool.or_eq_true, beq_iff_eq] at h
  rcases h with (((rfl | rfl) | rfl) | rfl) | rfl
  · exact ⟨'\t', by decide⟩
  · exact ⟨'\n', by decide⟩
  · exact ⟨'\x0c', by decide⟩
  · exact ⟨'\r', by decide⟩
  · exact ⟨' ', by decide⟩

theorem Text.exists_isBlank_of_mem_bytes {s : String} {b : UInt8} (hb : isAsciiBlank b = true)
    (h : b ∈ bytes s) : ∃ c ∈ s.toList, isBlank c = true := by
  obtain ⟨c, hsize, hascii, hblank, rfl⟩ := exists_char_of_isAsciiBlank hb
  exact ⟨c, mem_toList_of_mem_bytes hsize hascii h, hblank⟩

/-- Whether a text is an identifier: word bytes, of which the first is no digit. -/
def Text.isIdent (s : String) : Bool :=
  match bytes s with
  | [] => false
  | b :: rest => isIdentStart b && rest.all isIdentByte

theorem Text.exists_of_isIdent {s : String} (h : isIdent s = true) :
    ∃ b rest, bytes s = b :: rest ∧ isIdentStart b = true ∧ ∀ c ∈ bytes s, isIdentByte c = true := by
  unfold isIdent at h
  split at h
  · cases h
  · next b rest hb =>
    simp only [Bool.and_eq_true, List.all_eq_true] at h
    refine ⟨b, rest, hb, h.1, fun c hc => ?_⟩
    rw [hb] at hc
    rcases List.mem_cons.mp hc with rfl | hc
    · simp [isIdentByte, h.1]
    · exact h.2 c hc

theorem size_ofString (a : String) : (Source.ofString a).size = a.utf8ByteSize := by
  rw [← Text.length_bytes]
  rfl

theorem byte?_ofString (a : String) (pos : Nat) : (Source.ofString a).byte? pos = (Text.bytes a)[pos]? := by
  simp [Source.byte?, Source.ofString, Text.bytes]

namespace Source

variable {src : Source} {pos : Nat}

/-! ## The rest of a source -/

/-- All bytes from a position on. -/
def after (src : Source) (pos : Nat) : List UInt8 :=
  src.bytes.toList.drop pos

theorem after_ofString (text : String) : (ofString text).after 0 = Text.bytes text := rfl

theorem after_ofString_append (s t : String) : (ofString (s ++ t)).after s.utf8ByteSize = Text.bytes t := by
  have hall : (ofString (s ++ t)).bytes.toList = Text.bytes s ++ Text.bytes t := Text.bytes_append s t
  rw [after, hall, ← Text.length_bytes, List.drop_left]

theorem head?_after (src : Source) (pos : Nat) : (src.after pos).head? = src.byte? pos := by
  simp [after, byte?]

theorem after_add {a b : List UInt8} (h : src.after pos = a ++ b) : src.after (pos + a.length) = b := by
  have : src.after (pos + a.length) = (src.after pos).drop a.length := by simp [after]
  rw [this, h, List.drop_left]

theorem after_succ {b : UInt8} {rest : List UInt8} (h : src.after pos = b :: rest) :
    src.after (pos + 1) = rest :=
  after_add (a := [b]) h

theorem byte?_of_after {b : UInt8} {rest : List UInt8} (h : src.after pos = b :: rest) :
    src.byte? pos = some b := by
  rw [← head?_after, h, List.head?_cons]

theorem after_eq_cons {b : UInt8} (h : src.byte? pos = some b) : src.after pos = b :: src.after (pos + 1) := by
  rw [← head?_after] at h
  obtain ⟨rest, hrest⟩ := List.head?_eq_some_iff.mp h
  rw [hrest, after_succ hrest]

theorem add_length_le_size {a b : List UInt8} (h : src.after pos = a ++ b) (ha : a ≠ []) :
    pos + a.length ≤ src.size := by
  have hlen := congrArg List.length h
  have hpos := List.length_pos_iff.mpr ha
  simp only [after, List.length_drop, Array.length_toList, List.length_append] at hlen
  unfold size
  omega

theorem byteBefore?_add {a b : List UInt8} {c : UInt8} (h : src.after pos = a ++ b)
    (hc : a.getLast? = some c) : src.byteBefore? (pos + a.length) = some c := by
  obtain ⟨init, rfl⟩ := List.getLast?_eq_some_iff.mp hc
  rw [List.append_assoc] at h
  rw [List.length_append, List.length_singleton, ← Nat.add_assoc, byteBefore?]
  exact byte?_of_after (after_add h)

theorem byte?_of_isLoneEquals (h : src.isLoneEquals pos = true) : src.byte? pos = some '='.toUInt8 := by
  simp only [isLoneEquals, Bool.and_eq_true, beq_iff_eq] at h
  exact h.1.1

theorem edge_of_byteBefore? {b : UInt8} (h : src.byteBefore? pos = some b) (hb : isIdentByte b = false) :
    src.Edge pos := by
  simp [Edge, h, hb]

/-- A pattern stands at a position when the rest of the source opens with it. -/
theorem startsWith_iff {pattern : List UInt8} (hne : pattern ≠ []) :
    src.startsWith pos pattern = true ↔ pattern <+: src.after pos := by
  induction pattern generalizing pos with
  | nil => exact absurd rfl hne
  | cons b rest ih =>
    simp only [startsWith, Bool.and_eq_true, beq_iff_eq]
    cases hafter : src.after pos with
    | nil =>
      rw [← head?_after, hafter]
      simp
    | cons c more =>
      have hmore := after_succ hafter
      rw [byte?_of_after hafter, List.cons_prefix_cons, Option.some.injEq, eq_comm (a := c)]
      refine and_congr_right fun _ => ?_
      cases rest with
      | nil =>
        have hle := add_length_le_size (a := [c]) hafter (by simp)
        simpa [startsWith] using hle
      | cons d rest => rw [ih (by simp), hmore]

/-! ## Runs of bytes -/

theorem skipWhile_cons {test : UInt8 → Bool} {b : UInt8} {rest : List UInt8} (h : src.after pos = b :: rest) :
    src.skipWhile test pos = if test b then src.skipWhile test (pos + 1) else pos := by
  obtain ⟨hlt, hb⟩ := Array.getElem?_eq_some_iff.mp (byte?_of_after h)
  rw [skipWhile, dif_pos hlt, hb]

theorem skipWhile_of_after {test : UInt8 → Bool} {a b : List UInt8} (h : src.after pos = a ++ b)
    (ha : ∀ c ∈ a, test c = true) (hb : b.head?.any test = false) :
    src.skipWhile test pos = pos + a.length := by
  induction a generalizing pos with
  | nil =>
    cases b with
    | nil =>
      rw [skipWhile]
      split
      · next hlt =>
        have hnone : src.byte? pos = none := by rw [← head?_after, h]; rfl
        rw [byte?, Array.getElem?_eq_none_iff] at hnone
        exact absurd hlt (Nat.not_lt.mpr hnone)
      · rfl
    | cons c rest =>
      have hc : test c = false := hb
      rw [skipWhile_cons h, hc]
      rfl
  | cons c a ih =>
    rw [skipWhile_cons h, if_pos (ha c List.mem_cons_self),
      ih (after_succ h) fun d hd => ha d (List.mem_cons_of_mem _ hd)]
    simp only [List.length_cons]
    omega

theorem skipInlineSpace_eq_self (h : (src.after pos).head?.any isInlineSpace = false) :
    src.skipInlineSpace pos = pos :=
  skipWhile_of_after (a := []) rfl (by simp) h

/-- What a forward search passes is a run of bytes that pass the test. -/
theorem after_skipWhile (src : Source) (test : UInt8 → Bool) (pos : Nat) :
    ∃ run, src.after pos = run ++ src.after (src.skipWhile test pos) ∧ ∀ c ∈ run, test c = true := by
  fun_induction skipWhile src test pos with
  | case1 pos hlt ht ih =>
    obtain ⟨run, hrun, htest⟩ := ih
    refine ⟨src.bytes[pos] :: run, ?_, ?_⟩
    · rw [after_eq_cons (Array.getElem?_eq_getElem hlt), hrun, List.cons_append]
    · intro c hc
      rcases List.mem_cons.mp hc with rfl | hc
      · exact ht
      · exact htest c hc
  | case2 => exact ⟨[], rfl, by simp⟩
  | case3 => exact ⟨[], rfl, by simp⟩

/-! ## Texts and names -/

theorem slice_self (src : Source) (pos : Nat) : src.slice pos pos = "" := by
  have hnone : src.bytes.extract pos pos = #[] := Array.extract_eq_empty_iff.mpr (Nat.min_le_left _ _)
  unfold slice
  split
  · rw [hnone]
    decide +kernel
  · rfl

/-- A text that stands at a position is the slice there. -/
theorem slice_of_after {s : String} {rest : List UInt8} (h : src.after pos = Text.bytes s ++ rest)
    (hle : pos ≤ src.size) : src.slice pos (pos + s.utf8ByteSize) = s := by
  have hsize : pos + s.utf8ByteSize ≤ src.size := by
    by_cases hs : Text.bytes s = []
    · rw [← Text.length_bytes, hs]
      exact hle
    · rw [← Text.length_bytes]
      exact add_length_le_size h hs
  have hbytes : (⟨src.bytes.extract pos (pos + s.utf8ByteSize)⟩ : ByteArray) = s.toByteArray := by
    apply ByteArray.ext
    apply Array.toList_inj.mp
    rw [Array.toList_extract, List.extract_eq_take_drop, Nat.add_sub_cancel_left]
    change (src.after pos).take _ = _
    rw [h, ← Text.length_bytes, List.take_left]
    rfl
  rw [slice, if_pos ⟨Nat.le_add_right _ _, hsize⟩, hbytes, String.fromUTF8?, dif_pos s.isValidUTF8]
  rfl

/-- A slice between characters holds the bytes there. -/
theorem bytes_slice {text : String} {p q : Nat} (hpq : p ≤ q) (hp : String.Pos.Raw.IsValid text ⟨p⟩)
    (hq : String.Pos.Raw.IsValid text ⟨q⟩) :
    Text.bytes ((ofString text).slice p q) = ((ofString text).after p).take (q - p) := by
  have hslice := congrArg (·.data.toList) (toByteArray_slice hpq hp hq)
  simpa [Text.bytes, String.toUTF8, after, ofString, List.extract_eq_take_drop] using hslice

/-- And a slice that is not empty stands where it was taken. -/
theorem after_slice {p q : Nat} (h : src.slice p q ≠ "") :
    src.after p = Text.bytes (src.slice p q) ++ src.after q := by
  unfold slice at h ⊢
  split
  · next hle =>
    rw [if_pos hle] at h
    cases hutf : String.fromUTF8? ⟨src.bytes.extract p q⟩ with
    | none =>
      rw [hutf] at h
      exact absurd rfl h
    | some s =>
      have hbytes : Text.bytes s = (src.after p).take (q - p) := by
        unfold String.fromUTF8? at hutf
        split at hutf
        · cases hutf
          simp [Text.bytes, String.toUTF8, String.fromUTF8, after, List.extract_eq_take_drop]
        · cases hutf
      have hq : src.after q = (src.after p).drop (q - p) := by
        rw [after, after, List.drop_drop, Nat.add_sub_cancel' hle.1]
      rw [Option.getD_some, hbytes, hq, List.take_append_drop]
  · next hle =>
    rw [if_neg hle] at h
    exact absurd rfl h

/-- A name that stands at a position, and not as a part of a longer word, is read there. -/
theorem identEnd?_of_after {s : String} {rest : List UInt8} (hname : Text.isIdent s = true)
    (h : src.after pos = Text.bytes s ++ rest) (hrest : rest.head?.any isIdentByte = false) :
    src.identEnd? pos = some (pos + s.utf8ByteSize) := by
  obtain ⟨b, more, hb, hstart, hall⟩ := Text.exists_of_isIdent hname
  rw [hb] at h hall
  have hmore := after_succ h
  have hlength : s.utf8ByteSize = 1 + more.length := by
    rw [← Text.length_bytes, hb, List.length_cons, Nat.add_comm]
  rw [identEnd?, byte?_of_after h]
  dsimp only
  rw [if_pos hstart, skipWhile_of_after hmore (fun c hc => hall c (List.mem_cons_of_mem _ hc)) hrest, hlength,
    Nat.add_assoc]

theorem identAt?_of_after {s : String} {rest : List UInt8} (hname : Text.isIdent s = true)
    (h : src.after pos = Text.bytes s ++ rest) (hrest : rest.head?.any isIdentByte = false) :
    src.identAt? pos = some (s, pos + s.utf8ByteSize) := by
  have hend := identEnd?_of_after hname h hrest
  have hbounds := identEnd?_bounds hend
  rw [identAt?, hend, Option.map_some, slice_of_after h (by omega)]

theorem identEnd?_of_identAt? {name : String} {e : Nat} (h : src.identAt? pos = some (name, e)) :
    src.identEnd? pos = some e := by
  obtain ⟨e', he, heq⟩ := Option.map_eq_some_iff.mp h
  rw [he, (Prod.mk.inj heq).2]

/-- What is read as an identifier at an edge is a name that stands there. -/
theorem after_of_identAt? {text : String} {e : Nat} {name : String} (hedge : (ofString text).Edge pos)
    (h : (ofString text).identAt? pos = some (name, e)) :
    (ofString text).after pos = Text.bytes name ++ (ofString text).after e ∧ Text.isIdent name = true := by
  obtain ⟨hword, hname, hend⟩ := identAt?_text hedge h
  have hne : (ofString text).slice pos e ≠ "" := by
    intro hempty
    have hlt := hword.lt
    rw [hend, hname, hempty] at hlt
    exact Nat.lt_irrefl _ hlt
  have hafter := after_slice hne
  rw [← hname] at hafter
  refine ⟨hafter, ?_⟩
  obtain ⟨e', he, heq⟩ := Option.map_eq_some_iff.mp h
  cases heq
  unfold identEnd? at he
  split at he
  · next b hb =>
    split at he
    · next hstart =>
      cases he
      -- the bytes of the name are those that the search has passed
      obtain ⟨run, hrun, htest⟩ := after_skipWhile (ofString text) isIdentByte (pos + 1)
      rw [after_eq_cons hb, hrun, ← List.cons_append] at hafter
      rw [Text.isIdent, ← List.append_cancel_right hafter]
      simpa [hstart] using htest
    · cases he
  · cases he

end Source
end VarCensus
