import VarCensus.Text.Blank

/-!
# Trimmed texts

A text is trimmed exactly if it neither begins nor ends with a blank, and trimming leaves such a text as it is.
-/

namespace VarCensus
namespace Text

theorem trimStart_eq_self_iff {cs : List Char} :
    trimStart cs = cs ↔ ∀ c, cs.head? = some c → isBlank c = false := by
  cases cs with
  | nil => simp [trimStart]
  | cons c cs =>
    rw [trimStart, List.dropWhile_cons]
    cases hc : isBlank c with
    | false => simp [hc]
    | true =>
      have hlength := (List.dropWhile_suffix isBlank (l := cs)).length_le
      simp only [↓reduceIte, List.head?_cons, Option.some.injEq, forall_eq', hc, Bool.true_eq_false, iff_false]
      intro heq
      rw [heq, List.length_cons] at hlength
      exact Nat.not_succ_le_self _ hlength

theorem trimEnd_eq_self_iff {cs : List Char} :
    trimEnd cs = cs ↔ ∀ c, cs.getLast? = some c → isBlank c = false := by
  rw [trimEnd, List.reverse_eq_iff, ← List.head?_reverse]
  exact trimStart_eq_self_iff

theorem head?_trimStart {cs : List Char} {c : Char} (h : (trimStart cs).head? = some c) : isBlank c = false := by
  have hnot := List.head?_dropWhile_not isBlank cs
  rw [trimStart] at h
  rw [h] at hnot
  exact hnot

theorem getLast?_trimEnd {cs : List Char} {c : Char} (h : (trimEnd cs).getLast? = some c) : isBlank c = false := by
  rw [trimEnd, List.getLast?_reverse] at h
  exact head?_trimStart h

/-- Taking blanks off the end leaves a front of the text. -/
theorem trimEnd_isPrefix (cs : List Char) : trimEnd cs <+: cs := by
  rw [trimEnd, ← List.reverse_suffix, List.reverse_reverse]
  exact List.dropWhile_suffix isBlank

theorem trim_eq_self_iff {s : String} : trim s = s ↔
    ∀ c, s.toList.head? = some c ∨ s.toList.getLast? = some c → isBlank c = false := by
  have hboth : trim s = s ↔ trimStart s.toList = s.toList ∧ trimEnd s.toList = s.toList := by
    rw [trim, ← String.toList_inj, String.toList_ofList]
    constructor
    · intro heq
      -- either side can only take characters away, so none is taken
      have hstart : trimStart s.toList <:+ s.toList := List.dropWhile_suffix _
      have hend := (trimEnd_isPrefix (trimStart s.toList)).length_le
      rw [heq] at hend
      have hsame := hstart.eq_of_length (Nat.le_antisymm hstart.length_le hend)
      rw [hsame] at heq
      exact ⟨hsame, heq⟩
    · rintro ⟨hstart, hend⟩
      rw [hstart, hend]
  rw [hboth, trimStart_eq_self_iff, trimEnd_eq_self_iff]
  constructor
  · rintro ⟨hhead, hlast⟩ c (hc | hc)
    · exact hhead c hc
    · exact hlast c hc
  · exact fun h => ⟨fun c hc => h c (Or.inl hc), fun c hc => h c (Or.inr hc)⟩

/-- A trimmed text is trimmed. -/
theorem trim_trim (s : String) : trim (trim s) = trim s := by
  refine trim_eq_self_iff.mpr fun c hc => ?_
  rw [trim, String.toList_ofList] at hc
  rcases hc with hc | hc
  · obtain ⟨behind, hbehind⟩ := trimEnd_isPrefix (trimStart s.toList)
    have hhead : (trimStart s.toList).head? = some c := by rw [← hbehind, List.head?_append, hc, Option.some_or]
    exact head?_trimStart hhead
  · exact getLast?_trimEnd hc

end Text
end VarCensus
