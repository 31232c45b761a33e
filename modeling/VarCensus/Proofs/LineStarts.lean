import VarCensus.Location

/-!
# Two ways to a location

The table of line starts and the text in front of a position give the same line and column, for every offset
up to the end of the source. Both sides are followed byte by byte: a step from one offset to the next adds a
line start exactly when it passes a line feed (`takeWhile_startsFrom_succ`).
-/

namespace VarCensus
namespace LineIndex

/-- Line starts lie after the position from which they are collected. -/
theorem lt_of_mem_startsFrom {pos start : Nat} :
    ∀ {bytes : List UInt8}, start ∈ startsFrom pos bytes → pos < start := by
  intro bytes
  induction bytes generalizing pos with
  | nil =>
    intro h
    cases h
  | cons b rest ih =>
    intro h
    rw [startsFrom] at h
    split at h
    · rcases List.mem_cons.mp h with rfl | h
      · exact Nat.lt_succ_self pos
      · exact Nat.lt_of_succ_lt (ih h)
    · exact Nat.lt_of_succ_lt (ih h)

/-- No line starts up to the position from which they are collected. -/
theorem takeWhile_startsFrom_eq_nil {pos offset : Nat} (h : offset ≤ pos) (bytes : List UInt8) :
    (startsFrom pos bytes).takeWhile (· ≤ offset) = [] := by
  cases hs : startsFrom pos bytes with
  | nil => rfl
  | cons start rest =>
    have hlt : pos < start := lt_of_mem_startsFrom (hs ▸ List.mem_cons_self)
    rw [List.takeWhile_cons_of_neg]
    simp only [decide_eq_true_eq]
    omega

/-- **One byte further** there is one more line start if the byte is a line feed. -/
theorem takeWhile_startsFrom_succ (offset : Nat) : ∀ (bytes : List UInt8) (pos : Nat), pos ≤ offset →
    (startsFrom pos bytes).takeWhile (· ≤ offset + 1) =
      (startsFrom pos bytes).takeWhile (· ≤ offset) ++
        if bytes[offset - pos]? == some '\n'.toUInt8 then [offset + 1] else [] := by
  intro bytes
  induction bytes with
  | nil =>
    intro pos _
    rfl
  | cons b rest ih =>
    intro pos hle
    rcases Nat.eq_or_lt_of_le hle with rfl | hlt
    · -- the byte that is passed is the first one
      have hnone := takeWhile_startsFrom_eq_nil (Nat.le_refl (pos + 1)) rest
      have hnone' := takeWhile_startsFrom_eq_nil (Nat.le_succ pos) rest
      by_cases hb : b = '\n'.toUInt8
      · simp [startsFrom, hb, hnone]
      · simp [startsFrom, hb, hnone, hnone']
    · have hget : (b :: rest)[offset - pos]? = rest[offset - (pos + 1)]? := by
        rw [show offset - pos = offset - (pos + 1) + 1 by omega, List.getElem?_cons_succ]
      rw [hget, startsFrom]
      split
      · have hin : decide (pos + 1 ≤ offset) = true := decide_eq_true hlt
        have hin' : decide (pos + 1 ≤ offset + 1) = true := decide_eq_true (Nat.le_succ_of_le hlt)
        rw [List.takeWhile_cons, List.takeWhile_cons, if_pos hin, if_pos hin', ih (pos + 1) hlt,
          List.cons_append]
      · exact ih (pos + 1) hlt

theorem takeWhile_starts_succ (src : Source) (offset : Nat) :
    (ofSource src).starts.takeWhile (· ≤ offset + 1) =
      (ofSource src).starts.takeWhile (· ≤ offset) ++
        if src.byte? offset == some '\n'.toUInt8 then [offset + 1] else [] := by
  simp only [ofSource, List.takeWhile_cons, Nat.zero_le, decide_true, ↓reduceIte]
  rw [takeWhile_startsFrom_succ offset src.bytes.toList 0 (Nat.zero_le _), List.cons_append]
  simp only [Nat.sub_zero, Array.getElem?_toList, Source.byte?]
  rfl

theorem takeWhile_starts_zero (src : Source) : (ofSource src).starts.takeWhile (· ≤ 0) = [0] := by
  simp only [ofSource, List.takeWhile_cons, Nat.le_refl, decide_true, ↓reduceIte]
  rw [takeWhile_startsFrom_eq_nil (Nat.le_refl 0)]

theorem length_takeWhile_starts (src : Source) :
    ∀ {offset : Nat}, offset ≤ src.size →
      ((ofSource src).starts.takeWhile (· ≤ offset)).length =
        ((src.bytes.extract 0 offset).filter (· == '\n'.toUInt8)).size + 1 := by
  intro offset
  induction offset with
  | zero =>
    intro _
    rw [takeWhile_starts_zero]
    simp
  | succ offset ih =>
    intro h
    have hlt : offset < src.bytes.size := h
    rw [takeWhile_starts_succ, List.length_append, ih (Nat.le_of_lt h),
      Array.extract_succ_right (Nat.zero_lt_succ offset) hlt, Array.filter_push]
    rw [Source.byte?, Array.getElem?_eq_getElem hlt]
    by_cases hb : src.bytes[offset] = '\n'.toUInt8
    · simp [hb]
    · simp [hb]

theorem getLastD_takeWhile_starts (src : Source) (offset : Nat) :
    ((ofSource src).starts.takeWhile (· ≤ offset)).getLastD 0 = src.lineStartBelow offset := by
  induction offset with
  | zero =>
    rw [takeWhile_starts_zero]
    rfl
  | succ offset ih =>
    rw [takeWhile_starts_succ, Source.lineStartBelow]
    split
    · simp
    · rw [List.append_nil]
      exact ih

/-- **The table and the text agree** on the location of every offset in a source. -/
theorem location_ofSource {src : Source} {offset : Nat} (h : offset ≤ src.size) :
    (ofSource src).location offset = Location.atOffset src offset := by
  simp only [location, Location.atOffset, Source.lineStart, Nat.min_eq_left h]
  rw [length_takeWhile_starts src h, getLastD_takeWhile_starts]

end LineIndex
end VarCensus
