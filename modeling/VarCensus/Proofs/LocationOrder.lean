import VarCensus.Proofs.LineStarts
import VarCensus.Proofs.SourceParts

/-!
# Locations in the order of their offsets

A step from one offset to the next leads to the next column, or behind a line feed to the start of the next line
(`location_succ`). Either way it leads on, by line and column alone, and so does every run of such steps. So the
three numbers of a location say the same thing twice: of two offsets the larger one has the larger location, and
the line and the column already tell which offset it is.

The table is searched for the last line that starts at or before an offset. It has its line starts in increasing
order, so there is one place where it parts into those and the ones behind the offset (`partsAt_location`), and
however it is searched, that is the place that is found.
-/

namespace VarCensus

namespace Location

/-- A location comes before another one by line and column alone. -/
def Precedes (a b : Location) : Prop :=
  a.line < b.line ∨ a.line = b.line ∧ a.column < b.column

theorem Precedes.trans {a b c : Location} (h : a.Precedes b) (h' : b.Precedes c) : a.Precedes c := by
  unfold Precedes at *
  omega

theorem Precedes.lt {a b : Location} (h : a.Precedes b) : a < b :=
  h.imp id fun hline => ⟨hline.1, Or.inl hline.2⟩

theorem Precedes.not_lt {a b : Location} (h : a.Precedes b) : ¬ b < a := by
  change ¬ Location.lt b a
  unfold Location.lt
  unfold Precedes at h
  omega

theorem Precedes.not_same {a b : Location} (h : a.Precedes b) : ¬ (a.line = b.line ∧ a.column = b.column) := by
  unfold Precedes at h
  omega

theorem not_lt_self (a : Location) : ¬ a < a := by
  change ¬ Location.lt a a
  unfold Location.lt
  omega

end Location

namespace LineIndex

/-! ## The table is in order -/

theorem pairwise_startsFrom (pos : Nat) (bytes : List UInt8) : (startsFrom pos bytes).Pairwise (· < ·) := by
  induction bytes generalizing pos with
  | nil => exact .nil
  | cons b rest ih =>
    rw [startsFrom]
    split
    · exact .cons (fun start hstart => lt_of_mem_startsFrom hstart) (ih (pos + 1))
    · exact ih (pos + 1)

theorem pairwise_starts (src : Source) : (ofSource src).starts.Pairwise (· < ·) :=
  .cons (fun _ hstart => lt_of_mem_startsFrom hstart) (pairwise_startsFrom 0 _)

/-- So many lines of a table start at or before an offset, and all other lines start behind it. -/
structure PartsAt (index : LineIndex) (offset count : Nat) : Prop where
  inside : count ≤ index.starts.length
  before : ∀ start ∈ index.starts.take count, start ≤ offset
  behind : ∀ start ∈ index.starts.drop count, offset < start

/-- In a list in order, what stands behind the first start that is too large is too large as well. -/
theorem lt_of_mem_dropWhile {starts : List Nat} {offset start : Nat} (h : starts.Pairwise (· < ·))
    (hstart : start ∈ starts.dropWhile (· ≤ offset)) : offset < start := by
  induction starts with
  | nil => cases hstart
  | cons first rest ih =>
    rw [List.dropWhile_cons] at hstart
    split at hstart
    · exact ih h.of_cons hstart
    · next hfirst =>
      have hlt : offset < first := by simpa using hfirst
      rcases List.mem_cons.mp hstart with rfl | hlater
      · exact hlt
      · exact Nat.lt_trans hlt (List.rel_of_pairwise_cons h hlater)

theorem partsAt_of_pairwise {index : LineIndex} (h : index.starts.Pairwise (· < ·)) (offset : Nat) :
    index.PartsAt offset (index.starts.takeWhile (· ≤ offset)).length := by
  have hsplit : index.starts.takeWhile (· ≤ offset) ++ index.starts.dropWhile (· ≤ offset) = index.starts :=
    List.takeWhile_append_dropWhile
  have hdrop : index.starts.drop (index.starts.takeWhile (· ≤ offset)).length =
      index.starts.dropWhile (· ≤ offset) := by
    calc index.starts.drop (index.starts.takeWhile (· ≤ offset)).length
      _ = (index.starts.takeWhile (· ≤ offset) ++ index.starts.dropWhile (· ≤ offset)).drop
            (index.starts.takeWhile (· ≤ offset)).length := by rw [hsplit]
      _ = index.starts.dropWhile (· ≤ offset) := List.drop_left
  refine ⟨(List.takeWhile_sublist _).length_le, fun start hstart => ?_, fun start hstart => ?_⟩
  · rw [← List.prefix_iff_eq_take.mp (List.takeWhile_prefix _)] at hstart
    exact of_decide_eq_true (List.all_eq_true.mp List.all_takeWhile start hstart)
  · rw [hdrop] at hstart
    exact lt_of_mem_dropWhile h hstart

/-- The line of an offset is where the table parts. -/
theorem partsAt_location (src : Source) (offset : Nat) :
    (ofSource src).PartsAt offset ((ofSource src).location offset).line :=
  partsAt_of_pairwise (pairwise_starts src) offset

/-! ## From one offset to the next -/

/-- **One byte further** is the next column, and behind a line feed the start of the next line. -/
theorem location_succ (src : Source) (offset : Nat) :
    (ofSource src).location (offset + 1) =
      if src.byte? offset == some '\n'.toUInt8 then ⟨((ofSource src).location offset).line + 1, 1, offset + 1⟩
      else ⟨((ofSource src).location offset).line, ((ofSource src).location offset).column + 1, offset + 1⟩ := by
  simp only [location, getLastD_takeWhile_starts]
  rw [takeWhile_starts_succ, Source.lineStartBelow]
  have hle := src.lineStartBelow_le offset
  split
  · simp
  · simp only [List.append_nil, Location.mk.injEq, true_and, and_true]
    omega

theorem precedes_location_succ (src : Source) (offset : Nat) :
    ((ofSource src).location offset).Precedes ((ofSource src).location (offset + 1)) := by
  rw [location_succ]
  split
  · exact Or.inl (Nat.lt_succ_self _)
  · exact Or.inr ⟨rfl, Nat.lt_succ_self _⟩

/-- **A larger offset has a location that comes later**, by line and column alone. -/
theorem precedes_location (src : Source) {first later : Nat} (h : first < later) :
    ((ofSource src).location first).Precedes ((ofSource src).location later) := by
  induction h with
  | refl => exact precedes_location_succ src first
  | step _ ih => exact ih.trans (precedes_location_succ src _)

theorem lt_iff_location_lt (src : Source) (o₁ o₂ : Nat) :
    o₁ < o₂ ↔ (ofSource src).location o₁ < (ofSource src).location o₂ := by
  refine ⟨fun h => (precedes_location src h).lt, fun h => ?_⟩
  rcases Nat.lt_trichotomy o₁ o₂ with hlt | rfl | hgt
  · exact hlt
  · exact absurd h (Location.not_lt_self _)
  · exact absurd h (precedes_location src hgt).not_lt

theorem eq_of_line_of_column {src : Source} {o₁ o₂ : Nat}
    (hline : ((ofSource src).location o₁).line = ((ofSource src).location o₂).line)
    (hcolumn : ((ofSource src).location o₁).column = ((ofSource src).location o₂).column) : o₁ = o₂ := by
  rcases Nat.lt_trichotomy o₁ o₂ with hlt | heq | hgt
  · exact absurd ⟨hline, hcolumn⟩ (precedes_location src hlt).not_same
  · exact heq
  · exact absurd ⟨hline.symm, hcolumn.symm⟩ (precedes_location src hgt).not_same

/-- **The table and the text give one location, and locations are in the order of their offsets.** For all offsets
up to the end of a source, the table and the text agree, and the line is where the table parts; of two offsets the
smaller one has the smaller location; and two offsets on one line and in one column are the same. -/
theorem location_ordered (src : Source) {o₁ o₂ : Nat} (h₁ : o₁ ≤ src.size) (h₂ : o₂ ≤ src.size) :
    (ofSource src).location o₁ = Location.atOffset src o₁ ∧
    (ofSource src).PartsAt o₁ (Location.atOffset src o₁).line ∧
    (o₁ < o₂ ↔ Location.atOffset src o₁ < Location.atOffset src o₂) ∧
    ((Location.atOffset src o₁).line = (Location.atOffset src o₂).line →
      (Location.atOffset src o₁).column = (Location.atOffset src o₂).column → o₁ = o₂) := by
  rw [← location_ofSource h₁, ← location_ofSource h₂]
  exact ⟨rfl, partsAt_location src o₁, lt_iff_location_lt src o₁ o₂, eq_of_line_of_column⟩

/-- At the start of an empty line, and at the end of a text whose last line is empty. -/
theorem location_ordered_emptyLines :
    Location.atOffset (.ofString "ä\n\nb\n") 3 = ⟨2, 1, 3⟩ ∧ Location.atOffset (.ofString "ä\n\nb\n") 6 = ⟨4, 1, 6⟩ ∧
    (ofSource (.ofString "ä\n\nb\n")).location 3 = ⟨2, 1, 3⟩ ∧ (ofSource (.ofString "ä\n\nb\n")).PartsAt 3 2 ∧
    (⟨2, 1, 3⟩ : Location) < ⟨4, 1, 6⟩ := by
  have h₁ : Location.atOffset (.ofString "ä\n\nb\n") 3 = ⟨2, 1, 3⟩ := by decide +kernel
  have h₂ : Location.atOffset (.ofString "ä\n\nb\n") 6 = ⟨4, 1, 6⟩ := by decide +kernel
  have hfirst : 3 ≤ (Source.ofString "ä\n\nb\n").size := by decide +kernel
  have hlast : 6 ≤ (Source.ofString "ä\n\nb\n").size := by decide +kernel
  obtain ⟨hsame, hparts, hlt, -⟩ := location_ordered (.ofString "ä\n\nb\n") hfirst hlast
  rw [h₁] at hsame hparts hlt
  rw [h₂] at hlt
  exact ⟨h₁, h₂, hsame, hparts, hlt.mp (by decide)⟩

end LineIndex
end VarCensus
