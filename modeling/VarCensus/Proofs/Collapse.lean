import VarCensus.Text.Blank

/-!
# Collapsed texts

`Text.collapse` puts the words of a text one space apart. The words of the result are the words that went
in, so a collapsed text is left as it is by collapsing it again.
-/

namespace VarCensus
namespace Text

/-- A run of characters that are not blank, at least one. -/
def IsWord (w : List Char) : Prop :=
  w ≠ [] ∧ ∀ c ∈ w, isBlank c = false

theorem words_cons (c : Char) (cs : List Char) : words (c :: cs) =
    if isBlank c then words cs
    else match cs, words cs with
      | d :: _, w :: ws => if isBlank d then [c] :: w :: ws else (c :: w) :: ws
      | _, ws => [c] :: ws := rfl

theorem words_singleton {c : Char} (hc : isBlank c = false) : words [c] = [[c]] := by
  rw [words_cons, if_neg (by simp [hc])]
  rfl

theorem words_cons_blank {c : Char} (h : isBlank c = true) (cs : List Char) :
    words (c :: cs) = words cs := by
  rw [words_cons, if_pos h]

theorem words_cons_of_blank_after {c d : Char} (hc : isBlank c = false) (hd : isBlank d = true)
    (cs : List Char) : words (c :: d :: cs) = [c] :: words (d :: cs) := by
  rw [words_cons, if_neg (by simp [hc])]
  cases words (d :: cs) with
  | nil => rfl
  | cons w ws => simp [hd]

theorem words_cons_of_word {c d : Char} {cs w : List Char} {ws : List (List Char)} (hc : isBlank c = false)
    (hd : isBlank d = false) (h : words (d :: cs) = w :: ws) : words (c :: d :: cs) = (c :: w) :: ws := by
  rw [words_cons, if_neg (by simp [hc]), h]
  simp [hd]

theorem words_ne_nil {c : Char} (hc : isBlank c = false) (cs : List Char) :
    ∃ w ws, words (c :: cs) = w :: ws := by
  rw [words_cons, if_neg (by simp [hc])]
  split
  · split
    · exact ⟨_, _, rfl⟩
    · exact ⟨_, _, rfl⟩
  · exact ⟨_, _, rfl⟩

/-- The words of a text are words. -/
theorem isWord_of_mem_words {w : List Char} : ∀ {cs : List Char}, w ∈ words cs → IsWord w := by
  intro cs
  induction cs generalizing w with
  | nil =>
    intro h
    cases h
  | cons c cs ih =>
    intro h
    cases hc : isBlank c with
    | true =>
      rw [words_cons_blank hc] at h
      exact ih h
    | false =>
      have hsingle : IsWord [c] := ⟨by simp, by simpa using hc⟩
      cases cs with
      | nil =>
        rw [words_singleton hc, List.mem_singleton] at h
        exact h ▸ hsingle
      | cons d cs =>
        cases hd : isBlank d with
        | true =>
          rw [words_cons_of_blank_after hc hd, List.mem_cons] at h
          rcases h with rfl | h
          · exact hsingle
          · exact ih h
        | false =>
          -- the character goes in front of the first word of the rest
          obtain ⟨v, ws, hv⟩ := words_ne_nil hd cs
          rw [words_cons_of_word hc hd hv, List.mem_cons] at h
          rcases h with rfl | h
          · have hword := ih (w := v) (by rw [hv]; exact List.mem_cons_self)
            refine ⟨by simp, fun x hx => ?_⟩
            rcases List.mem_cons.mp hx with rfl | hx
            · exact hc
            · exact hword.2 x hx
          · exact ih (by rw [hv]; exact List.mem_cons_of_mem _ h)

/-- A word and what comes after a blank are read one after the other. -/
theorem words_append_blank {d : Char} (hd : isBlank d = true) {w : List Char} (hw : IsWord w)
    (cs : List Char) : words (w ++ d :: cs) = w :: words cs := by
  obtain ⟨hne, hw⟩ := hw
  induction w with
  | nil => exact absurd rfl hne
  | cons c w ih =>
    have hc := hw c List.mem_cons_self
    cases w with
    | nil =>
      rw [List.singleton_append, words_cons_of_blank_after hc hd, words_cons_blank hd]
    | cons b w =>
      have hb := hw b (List.mem_cons_of_mem _ List.mem_cons_self)
      exact words_cons_of_word hc hb (ih (by simp) fun x hx => hw x (List.mem_cons_of_mem _ hx))

theorem words_eq_singleton {w : List Char} (hw : IsWord w) : words w = [w] := by
  obtain ⟨hne, hw⟩ := hw
  induction w with
  | nil => exact absurd rfl hne
  | cons c w ih =>
    have hc := hw c List.mem_cons_self
    cases w with
    | nil => exact words_singleton hc
    | cons b w =>
      have hb := hw b (List.mem_cons_of_mem _ List.mem_cons_self)
      exact words_cons_of_word hc hb (ih (by simp) fun x hx => hw x (List.mem_cons_of_mem _ hx))

/-- A text that is one word is collapsed. -/
theorem collapse_of_isWord {s : String} (h : IsWord s.toList) : collapse s = s := by
  rw [collapse, words_eq_singleton h]
  simp

/-- Words that are put one space apart are the words of the result. -/
theorem words_intercalate {ws : List (List Char)} (h : ∀ w ∈ ws, IsWord w) :
    words ([' '].intercalate ws) = ws := by
  induction ws with
  | nil => rfl
  | cons w ws ih =>
    have hw := h w List.mem_cons_self
    have hws := ih fun v hv => h v (List.mem_cons_of_mem _ hv)
    cases ws with
    | nil => simpa using words_eq_singleton hw
    | cons v ws =>
      rw [List.intercalate_cons_cons, List.append_assoc, List.singleton_append,
        words_append_blank rfl hw, hws]

/-- **Collapsing twice is collapsing once.** -/
theorem collapse_collapse (s : String) : collapse (collapse s) = collapse s := by
  unfold collapse
  rw [String.toList_ofList, words_intercalate fun w hw => isWord_of_mem_words hw]

/-! ## Blanks of a collapsed text -/

theorem eq_space_of_mem_intercalate {ws : List (List Char)} (h : ∀ w ∈ ws, IsWord w) {c : Char}
    (hc : c ∈ [' '].intercalate ws) (hblank : isBlank c = true) : c = ' ' := by
  induction ws with
  | nil => cases hc
  | cons w ws ih =>
    have hw : c ∉ w := fun hmem => by simp [(h w List.mem_cons_self).2 c hmem] at hblank
    cases ws with
    | nil => exact absurd (by simpa using hc) hw
    | cons v ws =>
      rw [List.intercalate_cons_cons, List.append_assoc, List.mem_append, List.mem_append,
        List.mem_singleton] at hc
      rcases hc with hc | hc | hc
      · exact absurd hc hw
      · exact hc
      · exact ih (fun u hu => h u (List.mem_cons_of_mem _ hu)) hc

theorem isBlank_head_intercalate {ws : List (List Char)} (h : ∀ w ∈ ws, IsWord w) {c : Char}
    (hc : ([' '].intercalate ws).head? = some c) : isBlank c = false := by
  cases ws with
  | nil => cases hc
  | cons w ws =>
    obtain ⟨hne, hw⟩ := h w List.mem_cons_self
    cases w with
    | nil => exact absurd rfl hne
    | cons d w =>
      have hd := hw d List.mem_cons_self
      cases ws with
      | nil =>
        obtain rfl : d = c := by simpa using hc
        exact hd
      | cons v ws =>
        rw [List.intercalate_cons_cons] at hc
        obtain rfl : d = c := by simpa using hc
        exact hd

theorem isBlank_getLast_intercalate {ws : List (List Char)} (h : ∀ w ∈ ws, IsWord w) {c : Char}
    (hc : ([' '].intercalate ws).getLast? = some c) : isBlank c = false := by
  induction ws with
  | nil => cases hc
  | cons w ws ih =>
    cases ws with
    | nil =>
      have hc : w.getLast? = some c := by simpa using hc
      exact (h w List.mem_cons_self).2 c (List.mem_of_getLast? hc)
    | cons v ws =>
      have hws : ∀ u ∈ v :: ws, IsWord u := fun u hu => h u (List.mem_cons_of_mem _ hu)
      have hne : [' '].intercalate (v :: ws) ≠ [] := by
        intro hnil
        have hwords := words_intercalate hws
        rw [hnil] at hwords
        cases hwords
      rw [List.intercalate_cons_cons, List.getLast?_append, Option.or_of_isSome (by simpa using hne)] at hc
      exact ih hws hc

/-- A text with a character that is not blank does not collapse to nothing. -/
theorem collapse_ne_empty {s : String} {c : Char} (hc : c ∈ s.toList) (hblank : isBlank c = false) :
    collapse s ≠ "" := by
  have hwords : ∀ {cs : List Char}, c ∈ cs → words cs ≠ [] := by
    intro cs
    induction cs with
    | nil =>
      intro hmem
      cases hmem
    | cons d cs ih =>
      intro hmem
      cases hd : isBlank d with
      | false =>
        obtain ⟨w, ws, hw⟩ := words_ne_nil hd cs
        simp [hw]
      | true =>
        rw [words_cons_blank hd]
        rcases List.mem_cons.mp hmem with rfl | hmem
        · rw [hblank] at hd
          cases hd
        · exact ih hmem
  intro hempty
  rw [collapse, String.ofList_eq_empty_iff] at hempty
  have hall : ∀ w ∈ words s.toList, IsWord w := fun w hw => isWord_of_mem_words hw
  have hagain := words_intercalate hall
  rw [hempty] at hagain
  exact hwords hc hagain.symm

/-- The only blanks of a collapsed text are spaces, and it neither starts nor ends with one. -/
structure IsCollapsed (cs : List Char) : Prop where
  spaces : ∀ c ∈ cs, isBlank c = true → c = ' '
  head : ∀ c, cs.head? = some c → isBlank c = false
  last : ∀ c, cs.getLast? = some c → isBlank c = false

theorem isCollapsed_of_collapse {s : String} (h : collapse s = s) : IsCollapsed s.toList := by
  have hwords : ∀ w ∈ words s.toList, IsWord w := fun w hw => isWord_of_mem_words hw
  rw [← h, collapse, String.toList_ofList]
  exact ⟨fun c hc => eq_space_of_mem_intercalate hwords hc, fun c => isBlank_head_intercalate hwords,
    fun c => isBlank_getLast_intercalate hwords⟩

end Text
end VarCensus
