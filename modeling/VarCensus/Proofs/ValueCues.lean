import Mathlib.Data.Bool.AllAny
import Mathlib.Data.List.TakeWhile
import VarCensus.Proofs.KindTexts

/-!
# Kinds of numerals and of list displays

Two questions about the shapes by which the kind of a Python value is told.

Is every numeral a number? The grammar of decimal numerals is written down as data (`Numeral`), so that every
numeral is a value of a type and the question is about all of them. The answer is no, for two spellings: a point
with no digits behind it, and an exponent with an underscore in it (`kindOf_numeral`). Everything else that the
grammar allows is read, part by part, by the function that is named after the part.

Is every list display an array? A capture list is looked for before brackets are, and it is told by the *first*
closing bracket of the text, whether or not that bracket closes the first opening one. So a display is taken for a
function as soon as its first closing bracket has a call or a brace behind it (`kindOf_listDisplay`).
-/

namespace VarCensus
namespace Cue

/-- Where nothing is trimmed away, the kind is that of the text as it stands. -/
theorem kindOf_eq_kindOfTrimmed {spelling : Spelling} {value : String}
    (h : ∀ c, value.toList.head? = some c ∨ value.toList.getLast? = some c → Text.isBlank c = false) :
    kindOf spelling value = kindOfTrimmed spelling value.toList := by
  rw [kindOf, Text.trimStart_eq_self_iff.mpr fun c hc => h c (Or.inl hc),
    Text.trimEnd_eq_self_iff.mpr fun c hc => h c (Or.inr hc)]

theorem truthValues_contains_eq_false {c : Char} {cs : List Char} (h : c ∉ "TF".toList) :
    Spelling.python.truthValues.contains (String.ofList (c :: cs)) = false := by
  by_contra htrue
  refine h ?_
  rw [Bool.not_eq_false, List.contains_iff_mem] at htrue
  rcases List.mem_cons.mp htrue with htrue | htrue
  · rw [(List.cons.inj (String.ofList_inj.mp htrue)).1]
    decide
  · rw [(List.cons.inj (String.ofList_inj.mp (List.mem_singleton.mp htrue))).1]
    decide

/-! ## Numerals -/

/-- A digit part: digits, of which any but the last may have an underscore behind it. -/
inductive DigitPart where
  | last (digit : Fin 10)
  | digit (digit : Fin 10) (more : DigitPart)
  | grouped (digit : Fin 10) (more : DigitPart)
deriving DecidableEq, Repr

/-- What stands in front of the exponent. -/
inductive Mantissa where
  | whole (digits : DigitPart)
  /-- With a point, behind which there may be nothing. -/
  | pointed (digits : DigitPart) (decimals : Option DigitPart)
  | fraction (decimals : DigitPart)
deriving DecidableEq, Repr

/-- The power of ten that a mantissa is multiplied by. -/
structure Exponent where
  letter : Char
  sign : List Char
  digits : DigitPart
  isLetter : letter = 'e' ∨ letter = 'E'
  isSign : sign = [] ∨ sign = ['+'] ∨ sign = ['-']

/-- A decimal numeral of Python. -/
structure Numeral where
  mantissa : Mantissa
  exponent : Option Exponent
  /-- The letter of an imaginary number, if it is one. -/
  suffix : List Char
  isSuffix : suffix = [] ∨ suffix = ['j'] ∨ suffix = ['J']

def DigitPart.chars : DigitPart → List Char
  | .last d => [d.val.digitChar]
  | .digit d more => d.val.digitChar :: more.chars
  | .grouped d more => d.val.digitChar :: '_' :: more.chars

def Mantissa.chars : Mantissa → List Char
  | .whole digits => digits.chars
  | .pointed digits none => digits.chars ++ ['.']
  | .pointed digits (some decimals) => digits.chars ++ '.' :: decimals.chars
  | .fraction decimals => '.' :: decimals.chars

def Exponent.chars (exponent : Exponent) : List Char :=
  exponent.letter :: (exponent.sign ++ exponent.digits.chars)

/-- What stands behind the mantissa of a numeral. -/
def Numeral.tail (n : Numeral) : List Char :=
  n.exponent.elim [] Exponent.chars ++ n.suffix

def Numeral.chars (n : Numeral) : List Char :=
  n.mantissa.chars ++ n.tail

/-- The text of a numeral. -/
def Numeral.text (n : Numeral) : String :=
  String.ofList n.chars

/-- A digit part with an underscore in it. -/
def DigitPart.isGrouped : DigitPart → Bool
  | .last _ => false
  | .digit _ more => more.isGrouped
  | .grouped _ _ => true

/-- A mantissa that ends with its point. -/
def Mantissa.endsInPoint : Mantissa → Bool
  | .pointed _ none => true
  | _ => false

/-- The two spellings that are not known: a point without digits behind it, and an exponent in groups. -/
def Numeral.isUnread (n : Numeral) : Bool :=
  n.mantissa.endsInPoint || n.exponent.any (·.digits.isGrouped)

/-! ### Digit parts -/

/-- The characters of digit parts. -/
def digitPartChars : List Char :=
  "0123456789_".toList

theorem isDigitPart_of_mem : ∀ c ∈ digitPartChars, isDigitPart c = true :=
  List.all_eq_true.mp (by decide)

theorem digitChar_facts : ∀ d : Fin 10, Text.isDigit d.val.digitChar = true ∧ d.val.digitChar ∈ digitPartChars := by
  decide

/-- A digit part is a digit with digits and underscores behind it. -/
theorem DigitPart.exists_chars (part : DigitPart) :
    ∃ (d : Fin 10) (more : List Char), part.chars = d.val.digitChar :: more ∧ ∀ c ∈ more, c ∈ digitPartChars := by
  induction part with
  | last d => exact ⟨d, [], rfl, by simp⟩
  | digit d part ih =>
    obtain ⟨d', more, hchars, hmore⟩ := ih
    refine ⟨d, part.chars, rfl, ?_⟩
    rw [hchars]
    exact List.forall_mem_cons.mpr ⟨(digitChar_facts d').2, hmore⟩
  | grouped d part ih =>
    obtain ⟨d', more, hchars, hmore⟩ := ih
    refine ⟨d, '_' :: part.chars, rfl, ?_⟩
    rw [hchars]
    exact List.forall_mem_cons.mpr ⟨by decide, List.forall_mem_cons.mpr ⟨(digitChar_facts d').2, hmore⟩⟩

theorem DigitPart.mem_digitPartChars {part : DigitPart} {c : Char} (h : c ∈ part.chars) : c ∈ digitPartChars := by
  obtain ⟨d, more, hchars, hmore⟩ := part.exists_chars
  rw [hchars] at h
  rcases List.mem_cons.mp h with rfl | h
  · exact (digitChar_facts d).2
  · exact hmore c h

theorem dropWhile_of_head {test : Char → Bool} {cs : List Char} (h : cs.head?.any test = false) :
    cs.dropWhile test = cs := by
  cases cs with
  | nil => rfl
  | cons c cs => rw [List.dropWhile_cons, if_neg (by simpa using h)]

/-- **A digit part is read to its end.** -/
theorem afterDigits?_chars (part : DigitPart) {rest : List Char} (h : rest.head?.any isDigitPart = false) :
    afterDigits? (part.chars ++ rest) = some rest := by
  obtain ⟨d, more, hchars, hmore⟩ := part.exists_chars
  rw [hchars, List.cons_append, afterDigits?, if_pos (digitChar_facts d).1,
    List.dropWhile_append_of_pos fun c hc => isDigitPart_of_mem c (hmore c hc), dropWhile_of_head h]

/-- The digits of an exponent are read to their end, if they are all digits. -/
theorem dropWhile_isDigit {part : DigitPart} (hpart : part.isGrouped = false) {rest : List Char}
    (h : rest.head?.any Text.isDigit = false) : (part.chars ++ rest).dropWhile Text.isDigit = rest := by
  induction part with
  | last d =>
    rw [DigitPart.chars, List.singleton_append, List.dropWhile_cons, if_pos (digitChar_facts d).1, dropWhile_of_head h]
  | digit d part ih =>
    rw [DigitPart.chars, List.cons_append, List.dropWhile_cons, if_pos (digitChar_facts d).1, ih hpart]
  | grouped => cases hpart

/-- Else reading stops at the first underscore. -/
theorem dropWhile_isDigit_of_isGrouped {part : DigitPart} (hpart : part.isGrouped = true) (rest : List Char) :
    ∃ more, (part.chars ++ rest).dropWhile Text.isDigit = '_' :: more := by
  induction part with
  | last => cases hpart
  | digit d part ih =>
    rw [DigitPart.chars, List.cons_append, List.dropWhile_cons, if_pos (digitChar_facts d).1]
    exact ih hpart
  | grouped d part =>
    refine ⟨part.chars ++ rest, ?_⟩
    rw [DigitPart.chars, List.cons_append, List.dropWhile_cons, if_pos (digitChar_facts d).1, List.cons_append]
    rfl

/-! ### Mantissas and exponents -/

/-- What may come first behind a mantissa. -/
def tailLetters : List Char :=
  ['e', 'E', 'j', 'J']

theorem tailLetters_facts : ∀ c ∈ tailLetters, isDigitPart c = false ∧ Text.isDigit c = false ∧ c ≠ '.' :=
  List.all_iff_forall_prop.mp (by decide)

/-- A rest at which a mantissa ends. -/
def EndsMantissa (rest : List Char) : Prop :=
  ∀ c, rest.head? = some c → c ∈ tailLetters

theorem EndsMantissa.facts {rest : List Char} (h : EndsMantissa rest) : rest.head?.any isDigitPart = false ∧
    rest.head?.any Text.isDigit = false ∧ rest.head? ≠ some '.' := by
  cases hc : rest.head? with
  | none => simp
  | some c =>
    obtain ⟨hpart, hdigit, hpoint⟩ := tailLetters_facts c (h c hc)
    simp [hpart, hdigit, hpoint]

theorem Numeral.endsMantissa_tail (n : Numeral) : EndsMantissa n.tail := by
  intro c hc
  unfold tail at hc
  cases he : n.exponent with
  | none =>
    rw [he, Option.elim_none, List.nil_append] at hc
    rcases n.isSuffix with hs | hs | hs <;> rw [hs] at hc <;> cases hc <;> decide
  | some e =>
    rw [he, Option.elim_some, Exponent.chars, List.cons_append, List.head?_cons, Option.some.injEq] at hc
    rcases e.isLetter with hl | hl <;> rw [← hc, hl] <;> decide

/-- Where no point comes first, digits do, and then the decimals behind a point. -/
theorem afterMantissa?_of_digits {cs left : List Char} (hcs : cs.head? ≠ some '.')
    (h : afterDigits? cs = some left) :
    afterMantissa? cs = if left.head? = some '.' then afterDigits? left.tail else some left := by
  unfold afterMantissa?
  split
  · exact absurd rfl hcs
  · rw [h]
    split
    · next rest heq =>
      cases heq
      rfl
    · next hne =>
      rw [if_neg]
      intro hhead
      obtain ⟨rest, rfl⟩ := List.head?_eq_some_iff.mp hhead
      exact hne rest rfl

/-- **A mantissa is read to its end**, unless it ends with its point. -/
theorem afterMantissa?_chars (m : Mantissa) {rest : List Char} (h : EndsMantissa rest) :
    afterMantissa? (m.chars ++ rest) = if m.endsInPoint then none else some rest := by
  obtain ⟨hpart, hdigit, hpoint⟩ := h.facts
  have hfirst (part : DigitPart) (left : List Char) : (part.chars ++ left).head? ≠ some '.' := by
    obtain ⟨d, more, hchars, -⟩ := part.exists_chars
    rw [hchars, List.cons_append, List.head?_cons]
    intro hd
    have := (digitChar_facts d).1
    rw [Option.some.inj hd] at this
    exact absurd this (by decide)
  cases m with
  | whole digits =>
    rw [Mantissa.chars, afterMantissa?_of_digits (hfirst digits rest) (afterDigits?_chars digits hpart), if_neg hpoint]
    rfl
  | pointed digits decimals =>
    cases decimals with
    | none =>
      have hnone : afterDigits? rest = none := by
        cases rest with
        | nil => rfl
        | cons c rest => rw [afterDigits?, if_neg (by simpa using hdigit)]
      rw [Mantissa.chars, List.append_assoc,
        afterMantissa?_of_digits (hfirst digits _) (afterDigits?_chars digits rfl)]
      exact hnone
    | some decimals =>
      rw [Mantissa.chars, List.append_assoc,
        afterMantissa?_of_digits (hfirst digits _) (afterDigits?_chars digits rfl)]
      exact afterDigits?_chars decimals hpart
  | fraction decimals => exact afterDigits?_chars decimals hpart

theorem dropSign_append {sign cs : List Char} (hsign : sign = [] ∨ sign = ['+'] ∨ sign = ['-'])
    (hcs : cs.head?.any Text.isDigit = true) : dropSign (sign ++ cs) = cs := by
  rcases hsign with rfl | rfl | rfl
  · rw [List.nil_append]
    unfold dropSign
    split
    · exact absurd hcs (by simp; decide)
    · exact absurd hcs (by simp; decide)
    · rfl
  · rfl
  · rfl

theorem afterExponent?_chars (e : Exponent) (rest : List Char) :
    afterExponent? (e.chars ++ rest) = some ((e.digits.chars ++ rest).dropWhile Text.isDigit) := by
  have hletter : (e.letter == 'e' || e.letter == 'E') = true := by
    rcases e.isLetter with h | h <;> rw [h] <;> decide
  have hdigit : (e.digits.chars ++ rest).head?.any Text.isDigit = true := by
    obtain ⟨d, more, hchars, -⟩ := e.digits.exists_chars
    rw [hchars]
    exact (digitChar_facts d).1
  rw [Exponent.chars, List.cons_append, afterExponent?, if_pos hletter, List.append_assoc]
  dsimp only
  rw [dropSign_append e.isSign hdigit, if_pos hdigit]

/-- What is left behind the exponent of a numeral is its suffix, or something that is none. -/
theorem all_isNumberSuffix_tail (n : Numeral) :
    (∃ left, afterExponent? n.tail = some left ∧
      left.all isNumberSuffix = !n.exponent.any (·.digits.isGrouped)) := by
  have hsuffix : n.suffix.all isNumberSuffix = true ∧ n.suffix.head?.any Text.isDigit = false ∧
      afterExponent? n.suffix = some n.suffix := by
    rcases n.isSuffix with h | h | h <;> rw [h] <;> decide
  unfold Numeral.tail
  cases n.exponent with
  | none => exact ⟨n.suffix, hsuffix.2.2, hsuffix.1⟩
  | some e =>
    refine ⟨_, afterExponent?_chars e n.suffix, ?_⟩
    rw [Option.any_some]
    cases hgrouped : e.digits.isGrouped with
    | false =>
      rw [dropWhile_isDigit hgrouped hsuffix.2.1, hsuffix.1]
      rfl
    | true =>
      obtain ⟨more, hmore⟩ := dropWhile_isDigit_of_isGrouped hgrouped n.suffix
      rw [hmore]
      rfl

/-- **A numeral is read, unless its spelling is one of two.** -/
theorem isDecimal_numeral (n : Numeral) : isDecimal n.chars = !n.isUnread := by
  obtain ⟨left, hleft, hall⟩ := all_isNumberSuffix_tail n
  unfold isDecimal Numeral.isUnread Numeral.chars
  rw [afterMantissa?_chars n.mantissa n.endsMantissa_tail]
  cases n.mantissa.endsInPoint with
  | true => rfl
  | false =>
    rw [if_neg (by decide), Option.bind_some, hleft]
    exact hall

/-! ### Their kind -/

/-- The characters of numerals. -/
def numeralChars : List Char :=
  digitPartChars ++ '.' :: '+' :: '-' :: tailLetters

theorem numeralChars_facts : ∀ c ∈ numeralChars, isQuote c = false ∧ "xXbBoO".toList.contains c = false ∧
    Text.isBlank c = false ∧ c ∉ "TF".toList :=
  List.all_iff_forall_prop.mp (by decide)

theorem Mantissa.mem_numeralChars {m : Mantissa} {c : Char} (h : c ∈ m.chars) : c ∈ numeralChars := by
  have hpart {part : DigitPart} (hc : c ∈ part.chars) : c ∈ numeralChars :=
    List.mem_append_left _ (DigitPart.mem_digitPartChars hc)
  have hpoint : '.' ∈ numeralChars := by decide
  cases m with
  | whole digits => exact hpart h
  | pointed digits decimals =>
    cases decimals with
    | none =>
      rcases List.mem_append.mp h with h | h
      · exact hpart h
      · exact List.mem_singleton.mp h ▸ hpoint
    | some decimals =>
      rcases List.mem_append.mp h with h | h
      · exact hpart h
      · rcases List.mem_cons.mp h with rfl | h
        · exact hpoint
        · exact hpart h
  | fraction decimals =>
    rcases List.mem_cons.mp h with rfl | h
    · exact hpoint
    · exact hpart h

theorem Exponent.mem_numeralChars {e : Exponent} {c : Char} (h : c ∈ e.chars) : c ∈ numeralChars := by
  rcases List.mem_cons.mp h with rfl | h
  · rcases e.isLetter with hl | hl <;> rw [hl] <;> decide
  · rcases List.mem_append.mp h with h | h
    · rcases e.isSign with hs | hs | hs <;> rw [hs] at h
      · cases h
      · exact List.mem_singleton.mp h ▸ by decide
      · exact List.mem_singleton.mp h ▸ by decide
    · exact List.mem_append_left _ (DigitPart.mem_digitPartChars h)

theorem Numeral.mem_numeralChars {n : Numeral} {c : Char} (h : c ∈ n.chars) : c ∈ numeralChars := by
  rcases List.mem_append.mp h with h | h
  · exact Mantissa.mem_numeralChars h
  · rcases List.mem_append.mp h with h | h
    · cases he : n.exponent with
      | none =>
        rw [he] at h
        cases h
      | some e =>
        rw [he] at h
        exact Exponent.mem_numeralChars h
    · rcases n.isSuffix with hs | hs | hs <;> rw [hs] at h
      · cases h
      · exact List.mem_singleton.mp h ▸ by decide
      · exact List.mem_singleton.mp h ▸ by decide

/-- What a numeral opens with. -/
def openingChars : List Char :=
  "0123456789.".toList

theorem openingChars_facts : ∀ c ∈ openingChars, c ≠ '+' ∧ c ≠ '-' ∧ c ≠ 'l' ∧ c ≠ '[' ∧ c ≠ '(' ∧ c ≠ '\x7b' ∧
    Text.isNameStart c = false :=
  List.all_iff_forall_prop.mp (by decide)

theorem Numeral.exists_chars (n : Numeral) : ∃ c more, n.chars = c :: more ∧ c ∈ openingChars := by
  have hpart (part : DigitPart) (rest : List Char) :
      ∃ c more, part.chars ++ rest = c :: more ∧ c ∈ openingChars := by
    obtain ⟨d, more, hchars, -⟩ := part.exists_chars
    exact ⟨_, _, by rw [hchars, List.cons_append], (by decide : ∀ d : Fin 10, d.val.digitChar ∈ openingChars) d⟩
  unfold chars
  cases n.mantissa with
  | whole digits => exact hpart digits n.tail
  | pointed digits decimals =>
    cases decimals with
    | none => rw [Mantissa.chars, List.append_assoc]; exact hpart digits _
    | some decimals => rw [Mantissa.chars, List.append_assoc]; exact hpart digits _
  | fraction decimals => exact ⟨'.', _, rfl, by decide⟩

theorem quoteMark?_eq_none_of_no_quote {spelling : Spelling} {cs : List Char} (h : ∀ c ∈ cs, isQuote c = false) :
    quoteMark? spelling cs = none := by
  have hall : cs.takeWhile (!isQuote ·) = cs := List.takeWhile_eq_self_iff.mpr fun c hc => by simp [h c hc]
  simp [quoteMark?, hall]

theorem isBased_eq_false {cs : List Char} (h : ∀ c ∈ cs, "xXbBoO".toList.contains c = false) :
    isBased cs = false := by
  unfold isBased
  split
  · next base digits => rw [h base (by simp)]; rfl
  · rfl

theorem opensFunction_eq_false {c : Char} {cs : List Char} (h : c ∈ openingChars) :
    opensFunction (c :: cs) = false := by
  obtain ⟨-, -, hl, hbracket, hparen, -, hname⟩ := openingChars_facts c h
  have hword : opensWithWord "lambda".toList (c :: cs) = false := by
    have hl' : ('l' == c) = false := by simpa using hl.symm
    simp [opensWithWord, List.isPrefixOf, hl']
  unfold opensFunction
  rw [hword, Bool.false_or]
  split
  · next heq => exact absurd (List.cons.inj heq).1 hbracket
  · next heq => exact absurd (List.cons.inj heq).1 hparen
  · simp [isSingleParameter, hname]

/-- The kind of a text that has the characters of a numeral: a number, if it is read as one. -/
theorem kindOfTrimmed_of_numeralChars {c : Char} {cs : List Char} (hopen : c ∈ openingChars)
    (hchars : ∀ c' ∈ c :: cs, c' ∈ numeralChars) :
    kindOfTrimmed .python (c :: cs) = if isDecimal (c :: cs) then .number else .unknown := by
  obtain ⟨hplus, hminus, -, hbracket, -, hbrace, hname⟩ := openingChars_facts c hopen
  have hsign : dropSign (c :: cs) = c :: cs := by
    unfold dropSign
    split
    · next heq => exact absurd (List.cons.inj heq).1 hplus
    · next heq => exact absurd (List.cons.inj heq).1 hminus
    · rfl
  have hnumber : isNumber (c :: cs) = isDecimal (c :: cs) := by
    rw [isNumber, hsign, isBased_eq_false fun d hd => (numeralChars_facts d (hchars d hd)).2.1, Bool.false_or]
  have htruth : Spelling.python.truthValues.contains (String.ofList (c :: cs)) = false :=
    truthValues_contains_eq_false (numeralChars_facts c (hchars c List.mem_cons_self)).2.2.2
  have hlist : isBetween '[' ']' (c :: cs) = false := by simp [isBetween, hbracket]
  have hobject : isBetween '\x7b' '\x7d' (c :: cs) = false := by simp [isBetween, hbrace]
  have hnamed : Text.isName (c :: cs) = false := by simp [Text.isName, hname]
  unfold kindOfTrimmed
  rw [quoteMark?_eq_none_of_no_quote fun d hd => (numeralChars_facts d (hchars d hd)).1]
  simp only [List.isEmpty_cons, hnumber, htruth, opensFunction_eq_false hopen, hlist, hobject, hnamed]
  rfl

/-- A numeral has the characters of one, so only its reading decides its kind. -/
theorem kindOf_text (n : Numeral) : kindOf .python n.text = if isDecimal n.chars then .number else .unknown := by
  have htext : n.text.toList = n.chars := String.toList_ofList
  obtain ⟨c, cs, hchars, hopen⟩ := n.exists_chars
  have hmem : ∀ d ∈ c :: cs, d ∈ numeralChars := by
    rw [← hchars]
    exact fun d => Numeral.mem_numeralChars
  have htrim : ∀ d, n.text.toList.head? = some d ∨ n.text.toList.getLast? = some d → Text.isBlank d = false := by
    intro d hd
    rw [htext] at hd
    have hd' : d ∈ n.chars := by
      rcases hd with hd | hd
      · exact List.mem_of_mem_head? hd
      · exact List.mem_of_getLast? hd
    exact (numeralChars_facts d (Numeral.mem_numeralChars hd')).2.2.1
  rw [kindOf_eq_kindOfTrimmed htrim, htext, hchars, kindOfTrimmed_of_numeralChars hopen hmem]

/-- **The kind of a numeral.** Every decimal numeral of Python is a number, except that a point with no digits
behind it and an underscore in an exponent are not known: a numeral that has one of these is of unknown kind. -/
theorem kindOf_numeral (n : Numeral) :
    kindOf .python n.text = if n.isUnread then .unknown else .number := by
  rw [kindOf_text, isDecimal_numeral]
  cases n.isUnread <;> rfl

/-- The numeral `1.`. -/
def onePoint : Numeral :=
  ⟨.pointed (.last 1) none, none, [], Or.inl rfl⟩

/-- The numeral `1e1_0`. -/
def groupedExponent : Numeral :=
  ⟨.whole (.last 1), some ⟨'e', [], .grouped 1 (.last 0), Or.inl rfl, Or.inl rfl⟩, [], Or.inl rfl⟩

theorem numerals_not_number : onePoint.text = "1." ∧ kindOf .python "1." = .unknown ∧
    groupedExponent.text = "1e1_0" ∧ kindOf .python "1e1_0" = .unknown := by
  decide

/-! ## List displays -/

/-- A text that is one list display: the bracket that it opens with is closed by its last byte. -/
def IsListDisplay (v : String) : Prop :=
  ∃ limit, (Source.ofString v).groupEnd? .python '['.toUInt8 ']'.toUInt8 limit 0 = some v.utf8ByteSize

theorem IsListDisplay.ends {v : String} (h : IsListDisplay v) :
    v.toList.head? = some '[' ∧ v.toList.getLast? = some ']' := by
  obtain ⟨limit, h⟩ := h
  unfold Source.groupEnd? at h
  split at h
  · next hopen =>
    obtain ⟨q, hq, -, hclose⟩ := Source.byte?_groupEndFrom? h
    refine ⟨Source.head?_of_byte? (by decide) (by decide) (beq_iff_eq.mp hopen),
      Source.getLast?_of_byte? (by decide) (by decide) ?_⟩
    rw [hq, Nat.add_sub_cancel]
    exact hclose
  · cases h

/-- What makes brackets a capture list: parameters, a body or the word `mutable`. -/
def FollowsCaptures (rest : List Char) : Prop :=
  rest.head? = some '(' ∨ rest.head? = some '\x7b' ∨
    ∃ more, rest = "mutable".toList ++ more ∧ Text.atWordEnd more = true

/-- A text opens like a capture list: behind its first closing bracket, and blanks, comes what follows captures. -/
def OpensLikeCaptures (cs : List Char) : Prop :=
  ∃ inner blanks rest, cs = '[' :: (inner ++ ']' :: (blanks ++ rest)) ∧ ']' ∉ inner ∧
    (∀ c ∈ blanks, Text.isBlank c = true) ∧ FollowsCaptures rest

theorem opensWithWord_iff {word cs : List Char} :
    opensWithWord word cs = true ↔ ∃ more, cs = word ++ more ∧ Text.atWordEnd more = true := by
  rw [opensWithWord, Bool.and_eq_true, List.isPrefixOf_iff_prefix]
  constructor
  · rintro ⟨⟨more, rfl⟩, hend⟩
    rw [List.drop_left] at hend
    exact ⟨more, rfl, hend⟩
  · rintro ⟨more, rfl, hend⟩
    rw [List.drop_left]
    exact ⟨List.prefix_append _ _, hend⟩

theorem followsCaptures_iff {rest : List Char} : FollowsCaptures rest ↔
    (rest.head? == some '(' || rest.head? == some '\x7b' || opensWithWord "mutable".toList rest) = true := by
  rw [Bool.or_eq_true, Bool.or_eq_true, beq_iff_eq, beq_iff_eq, opensWithWord_iff, or_assoc]
  rfl

theorem FollowsCaptures.isBlank_head {rest : List Char} (h : FollowsCaptures rest) :
    rest.head?.any Text.isBlank = false := by
  rcases h with h | h | ⟨more, rfl, -⟩
  · rw [h]; rfl
  · rw [h]; rfl
  · rfl

theorem isCaptureList_iff {cs : List Char} : isCaptureList cs = true ↔ OpensLikeCaptures ('[' :: cs) := by
  unfold isCaptureList afterCloser?
  constructor
  · intro h
    cases hdrop : cs.dropWhile (· != ']') with
    | nil => simp [hdrop] at h
    | cons c rest =>
      obtain rfl : c = ']' := by
        have hhead := List.head?_dropWhile_not (· != ']') cs
        rw [hdrop] at hhead
        simpa using hhead
      rw [hdrop] at h
      refine ⟨cs.takeWhile (· != ']'), rest.takeWhile Text.isBlank, rest.dropWhile Text.isBlank, ?_, ?_, ?_,
        followsCaptures_iff.mpr h⟩
      · rw [List.takeWhile_append_dropWhile, ← hdrop, List.takeWhile_append_dropWhile]
      · intro hmem
        exact absurd (List.mem_takeWhile_imp hmem) (by decide)
      · exact fun c hc => List.mem_takeWhile_imp hc
  · rintro ⟨inner, blanks, rest, hcs, hinner, hblanks, hrest⟩
    have hopen : ∀ c ∈ inner, (c != ']') = true := by
      intro c hc
      rw [bne_iff_ne]
      rintro rfl
      exact hinner hc
    have hdrop : cs.dropWhile (· != ']') = ']' :: (blanks ++ rest) := by
      rw [(List.cons.inj hcs).2, List.dropWhile_append_of_pos hopen]
      rfl
    rw [hdrop]
    dsimp only
    rw [List.dropWhile_append_of_pos hblanks, dropWhile_of_head hrest.isBlank_head]
    exact followsCaptures_iff.mp hrest

/-- **The kind of a list display.** A Python list display is an array exactly if it does not open like a capture
list, and else it is taken for a function. -/
theorem kindOf_listDisplay {v : String} (h : IsListDisplay v) :
    (kindOf .python v = .array ↔ ¬ OpensLikeCaptures v.toList) ∧
      (kindOf .python v = .function ↔ OpensLikeCaptures v.toList) := by
  obtain ⟨hhead, hlast⟩ := h.ends
  have htrim : ∀ c, v.toList.head? = some c ∨ v.toList.getLast? = some c → Text.isBlank c = false := by
    rintro c (hc | hc)
    · rw [← Option.some.inj (hhead.symm.trans hc)]
      rfl
    · rw [← Option.some.inj (hlast.symm.trans hc)]
      rfl
  have hbetween : isBetween '[' ']' v.toList = true := by simp [isBetween, hhead, hlast]
  obtain ⟨cs, hcs⟩ := List.head?_eq_some_iff.mp hhead
  rw [hcs] at hbetween
  have hmark : quoteMark? .python ('[' :: cs) = none := by
    have hbracket : isQuote '[' = false ∧ "rbuf".toList.contains '['.toLower = false := by decide
    simp only [quoteMark?, Spelling.isQuoteMark, List.takeWhile_cons, hbracket, Bool.not_false, ↓reduceIte,
      List.all_cons, Bool.false_and, Bool.and_false, Bool.false_eq_true]
  have htruth : Spelling.python.truthValues.contains (String.ofList ('[' :: cs)) = false :=
    truthValues_contains_eq_false (by decide)
  have hnumber : isNumber ('[' :: cs) = false := rfl
  have hfunction : opensFunction ('[' :: cs) = isCaptureList cs := rfl
  have hkind : kindOf .python v = if isCaptureList cs then .function else .array := by
    rw [kindOf_eq_kindOfTrimmed htrim, hcs, kindOfTrimmed, hmark]
    simp only [List.isEmpty_cons, hnumber, htruth, hfunction, hbetween]
    rfl
  rw [hkind, hcs, ← isCaptureList_iff]
  cases isCaptureList cs <;> simp

theorem kindOf_listDisplay_nested :
    IsListDisplay "[[1], ']', (2)]" ∧ ¬ OpensLikeCaptures "[[1], ']', (2)]".toList ∧
      kindOf .python "[[1], ']', (2)]" = .array := by
  have hdisplay : IsListDisplay "[[1], ']', (2)]" := ⟨100, by decide +kernel⟩
  have hnot : ¬ OpensLikeCaptures "[[1], ']', (2)]".toList := mt isCaptureList_iff.mpr (by decide)
  exact ⟨hdisplay, hnot, (kindOf_listDisplay hdisplay).1.mpr hnot⟩

/-- A display of one call of something indexed. -/
theorem listDisplay_not_array :
    IsListDisplay "[f[0](1)]" ∧ Text.trim "[f[0](1)]" = "[f[0](1)]" ∧ kindOf .python "[f[0](1)]" = .function :=
  ⟨⟨100, by decide +kernel⟩, by decide, by decide⟩

end Cue
end VarCensus
