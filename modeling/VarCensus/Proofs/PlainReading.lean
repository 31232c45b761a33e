import VarCensus.Proofs.ScannedRecords

/-!
# Declarations stand outside comments and literals

A source can be read once, from its start to its end, with each comment and each literal taken whole: a plain
reading. The search for declarations reads the same bytes many times over and from many places, and still
every place that it records is one at which the plain reading stands (`declaredAt_visited`). It follows that
no declaration is taken out of a comment or a literal.

Two things can lead a search astray. A directive is skipped line by line, whatever quotes it holds; and a
scan that runs into its bound is given up at the end of a line. Both are asked not to happen.
-/

namespace VarCensus
namespace Source

variable {lex : Lexicon} {src : Source}

/-- One step of the plain reading. -/
def Reads (lex : Lexicon) (src : Source) (p q : Nat) : Prop :=
  p < src.size ∧ q = src.lexNext lex p

/-- The plain reading from the start stands at a position. -/
def Visits (lex : Lexicon) (src : Source) (pos : Nat) : Prop :=
  Relation.ReflTransGen (Reads lex src) 0 pos

theorem reads_rightUnique : Relator.RightUnique (Reads lex src) := by
  intro p q q' h h'
  rw [h.2, h'.2]

theorem le_of_reads {p q : Nat} (h : Relation.ReflTransGen (Reads lex src) p q) : p ≤ q := by
  induction h with
  | refl => exact Nat.le_refl p
  | tail _ hs ih =>
    rw [hs.2]
    exact Nat.le_trans ih (Nat.le_of_lt (lexNext_bounds lex hs.1).1)

/-- **The plain reading steps over what it encloses.** Of two positions at which it stands the later one lies
at or after the end of the step from the earlier one. -/
theorem Visits.lexNext_le {p q : Nat} (hp : src.Visits lex p) (hq : src.Visits lex q) (hlt : q < p) :
    src.lexNext lex q ≤ p := by
  rcases Relation.ReflTransGen.total_of_right_unique reads_rightUnique hq hp with h | h
  · rcases Relation.ReflTransGen.cases_head h with rfl | ⟨r, hr, hrest⟩
    · exact absurd hlt (Nat.lt_irrefl _)
    · rw [← hr.2]
      exact le_of_reads hrest
  · exact absurd (le_of_reads h) (Nat.not_le.mpr hlt)

/-- A position at which the plain reading stands and nothing enclosed starts lies outside everything that
the plain reading encloses. -/
theorem Visits.outside {p q e : Nat} (hp : src.Visits lex p) (hnone : src.enclosedEnd? lex p = none)
    (hq : src.Visits lex q) (he : src.enclosedEnd? lex q = some e) : p < q ∨ e ≤ p := by
  rcases Nat.lt_trichotomy p q with h | rfl | h
  · exact Or.inl h
  · rw [hnone] at he
    cases he
  · have hle := hp.lexNext_le hq h
    rw [lexNext, he] at hle
    exact Or.inr hle

/-- Without directives a search goes where the plain reading goes. -/
theorem Goes.visits (hdir : ∀ pos, src.startsDirective lex pos = false) {pos : Nat}
    (h : src.Goes lex 0 pos) : src.Visits lex pos := by
  refine Relation.ReflTransGen.mono (fun p q (hs : Step lex src p q) => ?_) _ _ h
  cases hs with
  | next hlt => exact ⟨hlt, rfl⟩
  | directive hd =>
    rw [hdir p] at hd
    cases hd

theorem startsDirective_eq_false_of_lexicon (h : lex.directives = false) (src : Source) (pos : Nat) :
    src.startsDirective lex pos = false := by
  simp [startsDirective, h]

/-- A text without the sign that opens directives has none. -/
theorem startsDirective_eq_false_of_text (lex : Lexicon) {text : String} (h : '#' ∉ text.toList) (pos : Nat) :
    (ofString text).startsDirective lex pos = false := by
  have hbyte : (ofString text).byte? pos ≠ some '#'.toUInt8 :=
    fun hb => h (mem_toList_of_byte? (by decide) (by decide) hb)
  simp [startsDirective, hbyte]

end Source

/-- No directive starts in a text of a language that is read without a grammar, if it is no C++ or has no
number sign. -/
theorem Language.startsDirective_eq_false {language : Language} {lex : Lexicon}
    (hlex : language.lexicon? = some lex) {text : String} (hsign : language = .cpp → '#' ∉ text.toList)
    (pos : Nat) : (Source.ofString text).startsDirective lex pos = false := by
  cases language with
  | python => cases hlex; exact Source.startsDirective_eq_false_of_lexicon rfl _ pos
  | java => cases hlex; exact Source.startsDirective_eq_false_of_lexicon rfl _ pos
  | cpp => exact Source.startsDirective_eq_false_of_text lex (hsign rfl) pos
  | javascript => cases hlex
  | typescript => cases hlex
  | tsx => cases hlex

/-- A bound as long as the source is reached by no scan. -/
theorem Language.unlimited_scans {src : Source} {limit : Nat} (h : src.size ≤ limit) (language : Language) :
    Unlimited (language.scans limit src) := by
  cases language with
  | python => exact Python.unlimited_scansFrom h _ 0
  | java => exact Dialect.unlimited_scansFrom h .java _ 0
  | cpp => exact Dialect.unlimited_scansFrom h .cpp _ 0
  | javascript => exact .nil
  | typescript => exact .nil
  | tsx => exact .nil

/-- **No declaration out of a comment or a literal.** Take a text of a language that is read without a
grammar, in C++ one without number signs, and a bound that none of the scans made runs into. Then the plain
reading stands at the place of every record, and that place lies outside each comment and each literal that
the plain reading meets. -/
theorem declaredAt_visited {language : Language} {lex : Lexicon} (hlex : language.lexicon? = some lex)
    (limit : Nat) (document : Document) (hsign : language = .cpp → '#' ∉ document.text.toList)
    (hlimit : Unlimited (language.scans limit (.ofString document.text))) :
    ∃ records, language.extract limit document = .ok records ∧
      ∀ r ∈ records, (Source.ofString document.text).Visits lex r.declaredAt.offset ∧
        ∀ q e, (Source.ofString document.text).Visits lex q →
          (Source.ofString document.text).enclosedEnd? lex q = some e →
            r.declaredAt.offset < q ∨ e ≤ r.declaredAt.offset := by
  obtain ⟨records, next, hextract, hfinds⟩ := language.finds_extract hlex limit document
  refine ⟨records, hextract, fun r hr => ?_⟩
  have hvisits : (Source.ofString document.text).Visits lex r.declaredAt.offset :=
    ((hfinds.goes hlimit).2 r hr).visits (language.startsDirective_eq_false hlex hsign)
  -- a word stands there, and no comment or literal opens with a word
  obtain ⟨stop, hid⟩ := (hfinds.stands r hr).word
  obtain ⟨e, he, -⟩ := Option.map_eq_some_iff.mp hid
  have hfirst := (Source.isWord_of_identEnd? he).bytes _ (Nat.le_refl _) (Source.identEnd?_bounds he).1
  obtain ⟨b, hb, hident⟩ := (Option.any_eq_true _ _).mp hfirst
  have hnone : (Source.ofString document.text).enclosedEnd? lex r.declaredAt.offset = none :=
    Source.enclosedEnd?_eq_none hb (isPlain_of_isIdentByte hident)
  exact ⟨hvisits, fun q e hq he => hvisits.outside hnone hq he⟩

/-- A text with declarations in a literal and in a comment. -/
def quotedDeclarations : Document :=
  ⟨"auto s = \"; int x = 1;\"; // int y = 2;\nint z = 3;", none⟩

theorem declaredAt_visited_quotedDeclarations :
    Language.cpp.lexicon? = some .cpp ∧
    (Language.cpp = .cpp → '#' ∉ quotedDeclarations.text.toList) ∧
    Unlimited (Language.cpp.scans 60 (.ofString quotedDeclarations.text)) ∧
    ∃ records, Language.cpp.extract 60 quotedDeclarations = .ok records ∧
      ∀ r ∈ records, (Source.ofString quotedDeclarations.text).Visits .cpp r.declaredAt.offset ∧
        ∀ q e, (Source.ofString quotedDeclarations.text).Visits .cpp q →
          (Source.ofString quotedDeclarations.text).enclosedEnd? .cpp q = some e →
            r.declaredAt.offset < q ∨ e ≤ r.declaredAt.offset :=
  have hsign : Language.cpp = .cpp → '#' ∉ quotedDeclarations.text.toList := by decide
  have hsize : (Source.ofString quotedDeclarations.text).size ≤ 60 := by decide
  have hlimit := Language.unlimited_scans hsize .cpp
  ⟨rfl, hsign, hlimit, declaredAt_visited rfl 60 quotedDeclarations hsign hlimit⟩

end VarCensus
