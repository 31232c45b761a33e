import VarCensus.Toml.Reader
import VarCensus.Toml.Writer

/-!
# Written strings are read back

A string is written in one of four forms, and which of them depends on the characters in it. Whichever it is, reading
gives the string back, with what stands behind it, as long as that does not start with a quote (`string?_writeString`).

Two things need care. Inside three quotes up to two of them may stand in a row without a backslash, so what a quote
means depends on the quotes behind it, up to the closing ones. And a line end behind three opening quotes is dropped,
so one is written where the text has line ends, and the first character must be none where it has not.
-/

namespace VarCensus
namespace Toml

/-! ## Characters behind backslashes -/

/-- What stands for a character between double quotes: a backslash with a letter, a backslash with a code, or the
character itself. -/
inductive Escape (c : Char) : List Char → Prop where
  | letter (e : Char) (hu : e ≠ 'u') (hU : e ≠ 'U') (h : escaped? e = some c) : Escape c ['\\', e]
  | code (d₁ d₂ d₃ d₄ : Char) (h : unicode? [d₁, d₂, d₃, d₄] = some c) : Escape c ['\\', 'u', d₁, d₂, d₃, d₄]
  | plain (hquote : c ≠ '"') (hslash : c ≠ '\\') (hline : c ≠ '\n') (h : isTextChar c = true) : Escape c [c]

theorem toNat_lt_of_needsCode {c : Char} (h : needsCode c = true) : c.toNat < 128 := by
  simp only [needsCode, Bool.or_eq_true, Bool.and_eq_true, decide_eq_true_eq, beq_iff_eq] at h
  omega

theorem isTextChar_of_not_needsCode {c : Char} (h : needsCode c = false) (hline : c ≠ '\n') : isTextChar c = true := by
  by_cases htab : c = '\t'
  · simp [isTextChar, htab]
  · simp [needsCode, htab, hline] at h
    simpa [isTextChar, htab] using h

/-- The code of a control character has four digits and names the character. -/
theorem exists_codeDigits {c : Char} (h : needsCode c = true) :
    ∃ d₁ d₂ d₃ d₄, codeDigits c = [d₁, d₂, d₃, d₄] ∧ unicode? [d₁, d₂, d₃, d₄] = some c := by
  have hall : ∀ n < 128, (codeDigits (Char.ofNat n)).length = 4 ∧
      unicode? (codeDigits (Char.ofNat n)) = some (Char.ofNat n) := by decide
  obtain ⟨hlength, hcode⟩ := hall c.toNat (toNat_lt_of_needsCode h)
  rw [Char.ofNat_toNat] at hlength hcode
  rcases hdigits : codeDigits c with _ | ⟨d₁, _ | ⟨d₂, _ | ⟨d₃, _ | ⟨d₄, _ | _⟩⟩⟩⟩ <;> simp [hdigits] at hlength
  exact ⟨d₁, d₂, d₃, d₄, rfl, hdigits ▸ hcode⟩

theorem escape_escapedChar {c : Char} (hquote : c ≠ '"') (hline : c ≠ '\n') : Escape c (escapedChar c) := by
  have hcode {n : Nat} (h : (c.toNat == n) = true) : c = Char.ofNat n := by
    rw [← Char.ofNat_toNat c, eq_of_beq h]
  unfold escapedChar
  split
  · exact .letter 't' (by decide) (by decide) rfl
  · exact .letter 'r' (by decide) (by decide) rfl
  · exact .letter '\\' (by decide) (by decide) rfl
  · next hslash =>
    split
    · next h => exact .letter 'b' (by decide) (by decide) (by rw [hcode h]; rfl)
    · split
      · next h => exact .letter 'f' (by decide) (by decide) (by rw [hcode h]; rfl)
      · split
        · next h =>
          obtain ⟨d₁, d₂, d₃, d₄, hdigits, hc⟩ := exists_codeDigits h
          rw [hdigits]
          exact .code d₁ d₂ d₃ d₄ hc
        · next h =>
          exact .plain hquote hslash hline (isTextChar_of_not_needsCode (by simpa using h) hline)

/-- What stands for a character starts neither with a quote nor with a line end. -/
theorem Escape.head_ne {c : Char} {cs : List Char} (h : Escape c cs) :
    ∃ d ds, cs = d :: ds ∧ d ≠ '"' ∧ d ≠ '\n' ∧ d ≠ '\r' := by
  cases h with
  | letter e => exact ⟨'\\', _, rfl, by decide⟩
  | code d₁ d₂ d₃ d₄ => exact ⟨'\\', _, rfl, by decide⟩
  | plain hquote _ hline h =>
    refine ⟨c, _, rfl, hquote, hline, ?_⟩
    rintro rfl
    cases h

/-! ## One line between double quotes -/

theorem basicBody_escape {c : Char} {cs : List Char} (h : Escape c cs) (more : List Char) :
    basicBody (cs ++ more) = before c (basicBody more) := by
  cases h with
  | letter e hu hU h => simp [basicBody, hu, hU, h]
  | code d₁ d₂ d₃ d₄ h => simp [basicBody, h]
  | plain hquote hslash hline h => simp [basicBody, hslash, h]

/-- What stands between double quotes on one line is read back. -/
theorem basicBody_basicText (text : List Char) (run : Nat) (rest : List Char) :
    basicBody (basicText false run text ++ '"' :: rest) = some (text, rest) := by
  induction text generalizing run with
  | nil => simp [basicText, basicBody]
  | cons c text ih =>
    by_cases hquote : c = '"'
    · subst hquote
      simp [basicText, basicBody, escaped?, ih, before]
    · by_cases hline : c = '\n'
      · subst hline
        simp [basicText, basicBody, escaped?, ih, before]
      · have htext : basicText false run (c :: text) = escapedChar c ++ basicText false 0 text := by
          simp [basicText]
        rw [htext, List.append_assoc, basicBody_escape (escape_escapedChar hquote hline), ih, before, Option.map_some]

/-! ## Between three double quotes -/

theorem longBasicBody_escape {c : Char} {cs : List Char} (h : Escape c cs) (more : List Char) :
    longBasicBody false (cs ++ more) = before c (longBasicBody false more) := by
  cases h with
  | letter e hu hU h => simp [longBasicBody, hu, hU, h]
  | code d₁ d₂ d₃ d₄ h => simp [longBasicBody, h]
  | plain hquote hslash hline h =>
    have hreturn : c ≠ '\r' := by
      rintro rfl
      cases h
    simp [longBasicBody, hquote, hslash, hreturn, h]

theorem basicText_cons_ne_quote {c : Char} (hc : c ≠ '"') (run : Nat) (text more cs : List Char) :
    basicText true run (c :: text) ++ more ≠ '"' :: cs := by
  by_cases hline : c = '\n'
  · simp [basicText, hline]
  · obtain ⟨d, ds, hescape, hd, -⟩ := (escape_escapedChar hc hline).head_ne
    simp [basicText, hescape, hd]

/-- After two quotes comes a backslash or something else, but no quote. -/
theorem basicText_two_ne_quote (text more cs : List Char) (hne : text ≠ []) :
    basicText true 2 text ++ more ≠ '"' :: cs := by
  obtain ⟨c, text, rfl⟩ := List.exists_cons_of_ne_nil hne
  by_cases hquote : c = '"'
  · simp [basicText, hquote]
  · exact basicText_cons_ne_quote hquote 2 text more cs

/-- A quote that is not followed by two more stands for itself. -/
theorem longBasicBody_quote {more : List Char} (h : ∀ cs, more ≠ '"' :: '"' :: cs) :
    longBasicBody false ('"' :: more) = before '"' (longBasicBody false more) := by
  simp [longBasicBody, h]

/-- The closing quotes, and up to two quotes of the text in front of them. -/
theorem longBasicBody_closing {rest : List Char} (h : ∀ cs, rest ≠ '"' :: cs) :
    longBasicBody false ('"' :: '"' :: '"' :: rest) = some ([], rest) ∧
      longBasicBody false ('"' :: '"' :: '"' :: '"' :: rest) = some (['"'], rest) ∧
      longBasicBody false ('"' :: '"' :: '"' :: '"' :: '"' :: rest) = some (['"', '"'], rest) := by
  refine ⟨?_, ?_, ?_⟩ <;> simp [longBasicBody, h]

/-- What stands between three double quotes is read back. -/
theorem longBasicBody_basicText (text : List Char) {run : Nat} (hrun : run ≤ 2) {rest : List Char}
    (hrest : ∀ cs, rest ≠ '"' :: cs) :
    longBasicBody false (basicText true run text ++ '"' :: '"' :: '"' :: rest) = some (text, rest) := by
  induction text generalizing run with
  | nil => exact (longBasicBody_closing hrest).1
  | cons c text ih =>
    by_cases hquote : c = '"'
    · subst hquote
      rcases Nat.lt_or_ge run 2 with hrun | hrun
      · have htext : basicText true run ('"' :: text) = '"' :: basicText true (run + 1) text := by
          rw [basicText, if_neg (by simp; omega)]
        have hread (hmore : ∀ cs, basicText true (run + 1) text ++ '"' :: '"' :: '"' :: rest ≠ '"' :: '"' :: cs) :
            longBasicBody false (basicText true run ('"' :: text) ++ '"' :: '"' :: '"' :: rest) =
              some ('"' :: text, rest) := by
          rw [htext, List.cons_append, longBasicBody_quote hmore, ih (by omega), before, Option.map_some]
        rcases text with _ | ⟨d, text⟩
        · rw [htext]
          exact (longBasicBody_closing hrest).2.1
        · by_cases hd : d = '"'
          · subst hd
            by_cases hzero : run = 0
            · subst hzero
              by_cases hend : text = []
              · subst hend
                simpa [basicText] using (longBasicBody_closing hrest).2.2
              · refine hread fun cs heq => basicText_two_ne_quote text ('"' :: '"' :: '"' :: rest) cs hend ?_
                simpa [basicText] using heq
            · obtain rfl : run = 1 := by omega
              exact hread fun cs => basicText_two_ne_quote _ _ _ (by simp)
          · exact hread fun cs => basicText_cons_ne_quote hd _ _ _ _
      · obtain rfl : run = 2 := by omega
        simp [basicText, longBasicBody, escaped?, ih, before]
    · by_cases hline : c = '\n'
      · subst hline
        simp [basicText, longBasicBody, ih, before]
      · have htext : basicText true run (c :: text) = escapedChar c ++ basicText true 0 text := by
          simp [basicText]
        rw [htext, List.append_assoc, longBasicBody_escape (escape_escapedChar hquote hline), ih (Nat.zero_le 2),
          before, Option.map_some]

/-! ## Between single quotes -/

/-- What stands between single quotes is read back. -/
theorem literalBody_append {text : List Char} (h : isLiteral text = true) (rest : List Char) :
    literalBody (text ++ '\'' :: rest) = some (text, rest) := by
  induction text with
  | nil => rfl
  | cons c text ih =>
    simp only [isLiteral, List.any_cons, Bool.not_or, Bool.and_eq_true, Bool.not_eq_true', beq_eq_false_iff_ne] at h
    obtain ⟨⟨⟨hcode, hquote⟩, hline⟩, htext⟩ := h
    have hread := ih (by simpa [isLiteral] using htext)
    simp [literalBody, isTextChar_of_not_needsCode hcode hline, hread, before]

theorem longLiteralBody_quote {more : List Char} (h : ∀ cs, more ≠ '\'' :: '\'' :: cs) :
    longLiteralBody ('\'' :: more) = before '\'' (longLiteralBody more) := by
  simp [longLiteralBody, h, isTextChar]

theorem longLiteralBody_closing {rest : List Char} (h : ∀ cs, rest ≠ '\'' :: cs) :
    longLiteralBody ('\'' :: '\'' :: '\'' :: rest) = some ([], rest) ∧
      longLiteralBody ('\'' :: '\'' :: '\'' :: '\'' :: rest) = some (['\''], rest) ∧
      longLiteralBody ('\'' :: '\'' :: '\'' :: '\'' :: '\'' :: rest) = some (['\'', '\''], rest) := by
  refine ⟨?_, ?_, ?_⟩ <;> simp [longLiteralBody, h]

theorem le_longestRun (c : Char) (run : Nat) (text : List Char) : run ≤ longestRun c run text := by
  induction text generalizing run with
  | nil => exact Nat.le_refl run
  | cons d text ih =>
    rw [longestRun]
    split
    · exact Nat.le_trans (Nat.le_succ run) (ih (run + 1))
    · exact Nat.le_max_left ..

/-- What stands between three single quotes is read back, if there are no three of them in a row in it. -/
theorem longLiteralBody_append {text : List Char} (hcodes : text.any needsCode = false) {run : Nat}
    (hrun : longestRun '\'' run text ≤ 2) {rest : List Char} (hrest : ∀ cs, rest ≠ '\'' :: cs) :
    longLiteralBody (text ++ '\'' :: '\'' :: '\'' :: rest) = some (text, rest) := by
  induction text generalizing run with
  | nil => exact (longLiteralBody_closing hrest).1
  | cons c text ih =>
    rw [List.any_cons, Bool.or_eq_false_iff] at hcodes
    by_cases hquote : c = '\''
    · subst hquote
      rw [longestRun, if_pos (by simp)] at hrun
      have hread (hmore : ∀ cs, text ++ '\'' :: '\'' :: '\'' :: rest ≠ '\'' :: '\'' :: cs) :
          longLiteralBody ('\'' :: text ++ '\'' :: '\'' :: '\'' :: rest) = some ('\'' :: text, rest) := by
        rw [List.cons_append, longLiteralBody_quote hmore, ih hcodes.2 hrun, before, Option.map_some]
      rcases text with _ | ⟨d, text⟩
      · exact (longLiteralBody_closing hrest).2.1
      · by_cases hd : d = '\''
        · subst hd
          rcases text with _ | ⟨e, text⟩
          · exact (longLiteralBody_closing hrest).2.2
          · refine hread fun cs heq => ?_
            -- a third quote would make the run too long
            obtain rfl : e = '\'' := (List.cons.inj (List.cons.inj heq).2).1
            rw [longestRun, if_pos (by simp), longestRun, if_pos (by simp)] at hrun
            have := le_longestRun '\'' (run + 1 + 1 + 1) text
            omega
        · exact hread fun cs heq => hd (List.cons.inj heq).1
    · rw [longestRun, if_neg (by simpa using hquote)] at hrun
      have hread := ih hcodes.2 (show longestRun '\'' 0 text ≤ 2 by omega)
      by_cases hline : c = '\n'
      · subst hline
        simp [longLiteralBody, hread, before]
      · have hreturn : c ≠ '\r' := by
          rintro rfl
          cases hcodes.1
        simp [longLiteralBody, hquote, hreturn, isTextChar_of_not_needsCode hcodes.1 hline, hread, before]

/-! ## Strings of any form -/

/-- Whether a text cannot go on with a quote, so that a string in front of it ends there. -/
def EndsString (rest : List Char) : Prop :=
  (∀ cs, rest ≠ '"' :: cs) ∧ ∀ cs, rest ≠ '\'' :: cs

variable {text rest : List Char}

theorem shortString?_basic (text rest : List Char) : shortString? (basic text ++ rest) = some (text, rest) := by
  have hread := basicBody_basicText text 0 rest
  simpa [basic, enclosed, shortString?] using hread

theorem shortString?_literal (h : isLiteral text = true) (rest : List Char) :
    shortString? (literal text ++ rest) = some (text, rest) := by
  have hread := literalBody_append h rest
  simpa [literal, enclosed, shortString?] using hread

/-- One line between double quotes does not look like the start of a text between three. -/
theorem string?_basic (hrest : EndsString rest) : string? (basic text ++ rest) = some (text, rest) := by
  have hshort : ∀ cs, basicText false 0 text ++ '"' :: rest ≠ '"' :: '"' :: cs := by
    intro cs
    rcases text with _ | ⟨c, text⟩
    · simpa [basicText] using hrest.1 cs
    · by_cases hquote : c = '"'
      · simp [basicText, hquote]
      · by_cases hline : c = '\n'
        · simp [basicText, hline]
        · obtain ⟨d, ds, hescape, hd, -⟩ := (escape_escapedChar hquote hline).head_ne
          simp [basicText, hescape, hd]
  rw [← shortString?_basic text rest]
  simp [basic, enclosed, string?, hshort]

theorem string?_literal (h : isLiteral text = true) (hrest : EndsString rest) :
    string? (literal text ++ rest) = some (text, rest) := by
  have hshort : ∀ cs, text ++ '\'' :: rest ≠ '\'' :: '\'' :: cs := by
    intro cs
    rcases text with _ | ⟨c, text⟩
    · simpa using hrest.2 cs
    · rintro heq
      simp [isLiteral, (List.cons.inj heq).1] at h
  rw [← shortString?_literal h rest]
  simp [literal, enclosed, string?, hshort]

theorem dropLineEnd_of_ne {cs : List Char} (hline : ∀ ds, cs ≠ '\n' :: ds) (hreturn : ∀ ds, cs ≠ '\r' :: ds) :
    dropLineEnd cs = cs := by
  unfold dropLineEnd
  split
  · exact absurd rfl (hline _)
  · exact absurd rfl (hreturn _)
  · rfl

/-- Behind three opening quotes a line end is dropped, and there is one exactly if the text has line ends. -/
theorem dropLineEnd_append {inside : List Char}
    (h : text.contains '\n' = false → (∀ cs, inside ≠ '\n' :: cs) ∧ ∀ cs, inside ≠ '\r' :: cs) :
    dropLineEnd ((if text.contains '\n' then ['\n'] else []) ++ inside) = inside := by
  cases hlines : text.contains '\n' with
  | true => rfl
  | false => exact dropLineEnd_of_ne (h hlines).1 (h hlines).2

theorem string?_longBasic (hrest : EndsString rest) : string? (longBasic text ++ rest) = some (text, rest) := by
  have hinside : text.contains '\n' = false →
      (∀ cs, basicText true 0 text ++ '"' :: '"' :: '"' :: rest ≠ '\n' :: cs) ∧
        ∀ cs, basicText true 0 text ++ '"' :: '"' :: '"' :: rest ≠ '\r' :: cs := by
    intro hlines
    rcases text with _ | ⟨c, text⟩
    · simp [basicText]
    · have hline : c ≠ '\n' := by
        rintro rfl
        simp at hlines
      by_cases hquote : c = '"'
      · simp [basicText, hquote]
      · obtain ⟨d, ds, hescape, -, hd⟩ := (escape_escapedChar hquote hline).head_ne
        simp [basicText, hescape, hd]
  have hread := longBasicBody_basicText text (Nat.zero_le 2) hrest.1
  rw [← dropLineEnd_append hinside] at hread
  simpa [longBasic, enclosed, string?] using hread

theorem string?_longLiteral (hcodes : text.any needsCode = false) (hrun : longestRun '\'' 0 text ≤ 2)
    (hrest : EndsString rest) : string? (longLiteral text ++ rest) = some (text, rest) := by
  have hinside : text.contains '\n' = false →
      (∀ cs, text ++ '\'' :: '\'' :: '\'' :: rest ≠ '\n' :: cs) ∧
        ∀ cs, text ++ '\'' :: '\'' :: '\'' :: rest ≠ '\r' :: cs := by
    intro hlines
    rcases text with _ | ⟨c, text⟩
    · simp
    · refine ⟨fun cs heq => ?_, fun cs heq => ?_⟩
      · simp [(List.cons.inj heq).1] at hlines
      · simp [(List.cons.inj heq).1, needsCode] at hcodes
  have hread := longLiteralBody_append hcodes hrun hrest.2
  rw [← dropLineEnd_append hinside] at hread
  simpa [longLiteral, enclosed, string?] using hread

/-- The forms in which a text may be written as a string. -/
inductive StringForm (text : List Char) : List Char → Prop where
  | basic : StringForm text (basic text)
  | literal (h : isLiteral text = true) : StringForm text (literal text)
  | longBasic : StringForm text (longBasic text)
  | longLiteral (hcodes : text.any needsCode = false) (hrun : longestRun '\'' 0 text ≤ 2) :
    StringForm text (longLiteral text)

theorem StringForm.read {written : List Char} (h : StringForm text written) (hrest : EndsString rest) :
    string? (written ++ rest) = some (text, rest) := by
  cases h with
  | basic => exact string?_basic hrest
  | literal h => exact string?_literal h hrest
  | longBasic => exact string?_longBasic hrest
  | longLiteral hcodes hrun => exact string?_longLiteral hcodes hrun hrest

theorem StringForm.cons {written : List Char} (h : StringForm text written) :
    ∃ c cs, written = c :: cs ∧ (c = '"' ∨ c = '\'') := by
  cases h with
  | basic | longBasic => exact ⟨_, _, rfl, .inl rfl⟩
  | literal | longLiteral => exact ⟨_, _, rfl, .inr rfl⟩

/-- The forms in which a text may be written as a key. -/
inductive KeyForm (text : List Char) : List Char → Prop where
  | bare (c : Char) (cs : List Char) (htext : text = c :: cs) (h : ∀ d ∈ text, isBareKeyChar d = true) :
    KeyForm text text
  | basic : KeyForm text (basic text)
  | literal (h : isLiteral text = true) : KeyForm text (literal text)

theorem keyForm_writeKey (s : String) : KeyForm s.toList (writeKey s).toList := by
  rw [writeKey]
  simp only [String.toList_ofList]
  split
  · next h =>
    rw [isBareKey, Bool.and_eq_true, Bool.not_eq_true', List.isEmpty_eq_false_iff, List.all_eq_true] at h
    obtain ⟨c, cs, htext⟩ := List.exists_cons_of_ne_nil h.1
    exact .bare c cs htext h.2
  split
  · exact .basic
  split
  · next h => exact .literal h
  · exact .basic

/-- A key starts with a character of a key that needs no quotes, or with a quote. -/
theorem KeyForm.cons {written : List Char} (h : KeyForm text written) :
    ∃ c cs, written = c :: cs ∧ (isBareKeyChar c = true ∨ c = '"' ∨ c = '\'') := by
  cases h with
  | bare c cs htext h => exact ⟨c, cs, htext, .inl (h c (by simp [htext]))⟩
  | basic => exact ⟨_, _, rfl, .inr (.inl rfl)⟩
  | literal => exact ⟨_, _, rfl, .inr (.inr rfl)⟩

theorem simpleKey?_of_quote {c : Char} {cs : List Char} (hc : isBareKeyChar c = false)
    (h : shortString? (c :: cs) = some (text, rest)) : simpleKey? (c :: cs) = some (String.ofList text, rest) := by
  simp [simpleKey?, hc, h]

theorem KeyForm.read {written : List Char} {c : Char} (h : KeyForm text written) (hc : isBareKeyChar c = false) :
    simpleKey? (written ++ c :: rest) = some (String.ofList text, c :: rest) := by
  cases h with
  | bare d ds htext h =>
    have hd : isBareKeyChar d = true := h d (by simp [htext])
    have htake : (text ++ c :: rest).takeWhile isBareKeyChar = text := by
      rw [List.takeWhile_append_of_pos h, List.takeWhile_cons_of_neg (by simp [hc]), List.append_nil]
    have hdrop : (text ++ c :: rest).dropWhile isBareKeyChar = c :: rest := by
      rw [List.dropWhile_append_of_pos h, List.dropWhile_cons_of_neg (by simp [hc])]
    subst htext
    rw [List.cons_append] at htake hdrop ⊢
    rw [simpleKey?, if_pos hd, htake, hdrop]
  | basic => exact simpleKey?_of_quote (by decide) (shortString?_basic text (c :: rest))
  | literal h => exact simpleKey?_of_quote (by decide) (shortString?_literal h (c :: rest))

/-- **A written key is read back** where no bare key could go on behind it. -/
theorem simpleKey?_writeKey {c : Char} (s : String) (hc : isBareKeyChar c = false) :
    simpleKey? ((writeKey s).toList ++ c :: rest) = some (s, c :: rest) := by
  rw [(keyForm_writeKey s).read hc, String.ofList_toList]

end Toml
end VarCensus
