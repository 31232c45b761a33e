import VarCensus.Proofs.CommentedDeclarations
import VarCensus.Proofs.JoinedTexts
import VarCensus.Proofs.PlainReading

/-!
# Comments are inert

In a Java or C++ text the body of a comment can be changed into any other of the same length without an effect on
what is extracted: `extract_comment_inert`. What is asked is that the search comes to the comment in both texts and
nothing that it steps over reaches across the opening (`Dialect.Uncovered`). For a bound no shorter than the text,
and without directives, this is no more than that the comment stands outside literals and other comments
(`Dialect.uncovered_of_visits`). For a shorter bound it is more, since the search may start again inside a literal
(`comment_read_from_literal`).
-/

namespace VarCensus

/-- A text with a comment in it. -/
def Text.commented (before body after : String) : String :=
  before ++ ("/*" ++ (body ++ ("*/" ++ after)))

/-- A text that can be the body of a comment on one line. -/
def Text.IsCommentBody (body : String) : Prop :=
  '\n' ∉ body.toList ∧ ¬ ['*', '/'] <:+: body.toList

instance (body : String) : Decidable (Text.IsCommentBody body) :=
  inferInstanceAs (Decidable (_ ∧ _))

namespace Text

variable {before body body' after : String}

/-! ## Texts with a comment -/

theorem bytes_opening : bytes "/*" = ['/'.toUInt8, '*'.toUInt8] := by decide

theorem bytes_closing : bytes "*/" = ['*'.toUInt8, '/'.toUInt8] := by decide

/-- Two ASCII bytes in a row are two characters in a row. -/
theorem infix_of_bytes {s : String} {c c' : Char} {i : Nat} (hc : c.utf8Size = 1 ∧ c.toUInt8 < 0x80)
    (hc' : c'.utf8Size = 1 ∧ c'.toUInt8 < 0x80) (hi : (bytes s)[i]? = some c.toUInt8)
    (hi' : (bytes s)[i + 1]? = some c'.toUInt8) : [c, c'] <:+: s.toList := by
  obtain ⟨front, back, hs, hsize⟩ := Source.split_of_byte? hc.1 hc.2 ((byte?_ofString s i).trans hi)
  have htext : s = String.ofList front ++ (String.ofList [c] ++ String.ofList back) := by
    rw [← String.ofList_append, ← String.ofList_append, List.singleton_append, ← hs, String.ofList_toList]
  -- the second byte is the first one of the rest
  rw [htext, bytes_append, bytes_append, bytes_singleton hc.1, ← hsize, ← length_bytes,
    List.getElem?_append_right (by omega), Nat.add_sub_cancel_left, List.getElem?_append_right (by simp)] at hi'
  obtain ⟨front', back', hback, hzero⟩ := Source.split_of_byte? hc'.1 hc'.2 ((byte?_ofString _ 0).trans hi')
  have hnil : front' = [] := by
    have hempty := String.utf8ByteSize_eq_zero_iff.mp hzero
    simpa using congrArg String.toList hempty
  rw [String.toList_ofList, hnil, List.nil_append] at hback
  exact ⟨front, back', by rw [hs, hback]; simp⟩

theorem after_commented (before body after : String) :
    (Source.ofString (commented before body after)).after before.utf8ByteSize =
        bytes "/*" ++ (bytes body ++ (bytes "*/" ++ bytes after)) ∧
      (Source.ofString (commented before body after)).after (before.utf8ByteSize + 2) =
        bytes body ++ (bytes "*/" ++ bytes after) ∧
      (Source.ofString (commented before body after)).after (before.utf8ByteSize + 2 + body.utf8ByteSize) =
        bytes "*/" ++ bytes after := by
  have hstart : (Source.ofString (commented before body after)).after 0 =
      bytes before ++ (bytes "/*" ++ (bytes body ++ (bytes "*/" ++ bytes after))) := by
    simp only [Source.after_ofString, commented, bytes_append]
  have hopen := Source.after_add hstart
  rw [Nat.zero_add, length_bytes] at hopen
  have hbody := Source.after_add hopen
  rw [length_bytes] at hbody
  have hclose := Source.after_add hbody
  rw [length_bytes] at hclose
  exact ⟨hopen, hbody, hclose⟩

theorem hasComment_commented (hbody : IsCommentBody body) :
    (Source.ofString (commented before body after)).HasComment before.utf8ByteSize
      (before.utf8ByteSize + 2 + body.utf8ByteSize) := by
  obtain ⟨hopen, hinside, hclose⟩ := after_commented before body after
  -- a byte of the body, and the one after it
  have hbyte {i : Nat} (hi : before.utf8ByteSize + 2 ≤ i) (hi' : i < before.utf8ByteSize + 2 + body.utf8ByteSize) :
      (Source.ofString (commented before body after)).byte? i = (bytes body)[i - (before.utf8ByteSize + 2)]? := by
    have hget : (Source.ofString (commented before body after)).byte? i =
        ((Source.ofString (commented before body after)).after (before.utf8ByteSize + 2))[
          i - (before.utf8ByteSize + 2)]? := by
      simp [Source.after, Source.byte?, Nat.add_sub_cancel' hi]
    rw [hget, hinside, List.getElem?_append_left (by rw [length_bytes]; omega)]
  refine ⟨Nat.le_add_right _ _, ?_, ?_, ?_, ?_⟩
  · exact (Source.startsWith_iff (by simp)).mpr ⟨_, (bytes_opening ▸ hopen).symm⟩
  · exact (Source.startsWith_iff (by simp)).mpr ⟨_, (bytes_closing ▸ hclose).symm⟩
  · intro i hi hi' hstarts
    have hstar := Source.startsWith_cons hstarts
    rw [Source.startsWith, Bool.and_eq_true] at hstarts
    have hslash := Source.startsWith_cons hstarts.2
    rcases Nat.lt_or_ge (i + 1) (before.utf8ByteSize + 2 + body.utf8ByteSize) with hlt | hge
    · rw [hbyte hi hi'] at hstar
      rw [hbyte (by omega) hlt, show i + 1 - (before.utf8ByteSize + 2) = i - (before.utf8ByteSize + 2) + 1 by omega]
        at hslash
      exact hbody.2 (infix_of_bytes (by decide) (by decide) hstar hslash)
    · -- behind the body stands the star that closes the comment
      have hend : i + 1 = before.utf8ByteSize + 2 + body.utf8ByteSize := by omega
      rw [hend, Source.byte?_of_after (bytes_closing ▸ hclose)] at hslash
      exact absurd hslash (by decide)
  · intro i hi hi' hfeed
    rw [hbyte hi hi', ← byte?_ofString] at hfeed
    exact hbody.1 (Source.mem_toList_of_byte? (by decide) (by decide) hfeed)

theorem twins_commented {lex : Lexicon} (hlex : lex.comments = .slash) (hbody : IsCommentBody body)
    (hbody' : IsCommentBody body') (hsize : body'.utf8ByteSize = body.utf8ByteSize) (before after : String) :
    Source.Twins lex before.utf8ByteSize (before.utf8ByteSize + 2 + body.utf8ByteSize)
      (.ofString (commented before body after)) (.ofString (commented before body' after)) where
  slash := hlex
  comment := hasComment_commented hbody
  comment' := hsize ▸ hasComment_commented hbody'
  size := by simp only [size_ofString, commented, String.utf8ByteSize_append, hsize]
  same := by
    obtain ⟨front, hfront, htext⟩ : ∃ front : List UInt8, front.length = before.utf8ByteSize + 2 ∧
        ∀ body, bytes (commented before body after) = front ++ (bytes body ++ (bytes "*/" ++ bytes after)) := by
      refine ⟨bytes before ++ bytes "/*", ?_, fun body => ?_⟩
      · rw [List.length_append, length_bytes, length_bytes]
        rfl
      · simp only [commented, bytes_append, List.append_assoc]
    intro i hi
    rw [byte?_ofString, byte?_ofString, htext, htext]
    rcases hi with hi | hi
    · rw [List.getElem?_append_left (by omega), List.getElem?_append_left (by omega)]
    · have hback {body : String} (hle : before.utf8ByteSize + 2 + body.utf8ByteSize ≤ i) :
          (front ++ (bytes body ++ (bytes "*/" ++ bytes after)))[i]? =
            (bytes "*/" ++ bytes after)[i - (before.utf8ByteSize + 2) - body.utf8ByteSize]? := by
        rw [List.getElem?_append_right (by omega), List.getElem?_append_right (by rw [length_bytes]; omega), hfront,
          length_bytes]
      rw [hback hi, hback (hsize ▸ hi), hsize]

end Text

/-! ## Where a plain reading stands -/

/-- The plain reading stands at each place that its steps lead to, as long as the source goes on. -/
theorem Source.visits_of_iterate {lex : Lexicon} {src : Source} (n : Nat) {pos : Nat}
    (h : (∀ i < n, (src.lexNext lex)^[i] 0 < src.size) ∧ (src.lexNext lex)^[n] 0 = pos) : src.Visits lex pos := by
  obtain ⟨hsize, rfl⟩ := h
  induction n with
  | zero => exact .refl
  | succ n ih =>
    rw [Function.iterate_succ_apply']
    exact .tail (ih fun i hi => hsize i (Nat.lt_succ_of_lt hi)) ⟨hsize n (Nat.lt_succ_self n), rfl⟩

namespace Dialect

variable {d : Dialect} {src : Source} {limit k pos : Nat}

/-- With a bound that no value is longer than, and without directives, the search comes to nothing but what the
plain reading comes to. -/
theorem Comes.visits (hdir : ∀ pos, src.startsDirective d.lexicon pos = false) (hlimit : src.size ≤ limit)
    (h : d.Comes src limit pos) : src.Visits d.lexicon pos := by
  induction h with
  | start => exact .refl
  | step _ hs ih =>
    cases hs with
    | next hlt => exact ih.tail ⟨hlt, rfl⟩
    | directive hd => exact absurd hd (by simp [hdir])
  | dropped _ _ _ hstop => exact absurd hstop (Source.scanFrom_stop_ne_limit hlimit)

/-- Nothing reaches across a position at which the plain reading stands. -/
theorem uncovered_of_visits (hdir : ∀ pos, src.startsDirective d.lexicon pos = false) (hlimit : src.size ≤ limit)
    (hk : src.Visits d.lexicon k) : d.Uncovered src limit k := by
  intro p q hp hs hlt
  cases hs with
  | next => exact hk.lexNext_le (hp.visits hdir hlimit) hlt
  | directive hd => exact absurd hd (by simp [hdir])

end Dialect

/-! ## Extraction -/

namespace Language

/-- The dialect of a language with typed declarations. -/
def dialect? : Language → Option Dialect
  | .java => some .java
  | .cpp => some .cpp
  | .python | .javascript | .typescript | .tsx => none

variable {language : Language} {d : Dialect}

theorem comments_of_dialect? (h : language.dialect? = some d) : d.lexicon.comments = .slash := by
  cases language <;> cases h <;> rfl

theorem isPlain_of_dialect? (h : language.dialect? = some d) : d.separatorBytes.all isPlain = true := by
  cases language with
  | java => cases h; exact Dialect.isPlain_separator_java
  | cpp => cases h; exact Dialect.isPlain_separator_cpp
  | python | javascript | typescript | tsx => cases h

/-- What is extracted is what the search finds, in the order in which it finds it. -/
theorem extract_of_dialect? (h : language.dialect? = some d) (limit : Nat) (document : Document) :
    language.extract limit document =
      .ok (d.recordsFrom (.ofString document.text) (.ofSource (.ofString document.text)) limit 0) := by
  obtain ⟨next, hfinds⟩ := Dialect.finds_recordsFrom (isPlain_of_dialect? h) (.ofString document.text)
    (.ofSource (.ofString document.text)) limit 0
  have hsorted : d.records limit (.ofString document.text) = d.recordsFrom (.ofString document.text)
      (.ofSource (.ofString document.text)) limit 0 := Record.sortByPlace_of_ordered hfinds.ordered
  cases language with
  | java => cases h; exact congrArg Except.ok hsorted
  | cpp => cases h; exact congrArg Except.ok hsorted
  | python | javascript | typescript | tsx => cases h

end Language

/-- **Comments are inert.** Take a Java or C++ text with a comment on one line, and another body for the comment,
of the same length. If in both texts nothing that the search steps over reaches across the opening of the comment,
then the same is extracted from both, record by record: the names, the values, the places and the reads, and also
the kinds, of all records but one in whose array brackets the comment stands. -/
theorem extract_comment_inert {language : Language} {d : Dialect} (hd : language.dialect? = some d) (limit : Nat)
    {before body body' after : String} (hbody : Text.IsCommentBody body) (hbody' : Text.IsCommentBody body')
    (hsize : body'.utf8ByteSize = body.utf8ByteSize)
    (hopen : d.Uncovered (.ofString (Text.commented before body after)) limit before.utf8ByteSize)
    (hopen' : d.Uncovered (.ofString (Text.commented before body' after)) limit before.utf8ByteSize) :
    ∃ records records',
      language.extract limit ⟨Text.commented before body after, none⟩ = .ok records ∧
      language.extract limit ⟨Text.commented before body' after, none⟩ = .ok records' ∧
      List.Forall₂ (d.Alike (.ofString (Text.commented before body after)) limit before.utf8ByteSize)
        records records' := by
  have htwins := Text.twins_commented (Language.comments_of_dialect? hd) hbody hbody' hsize before after
  have hsearched := Dialect.Searched.mk htwins (Language.isPlain_of_dialect? hd) hopen hopen'
  refine ⟨_, _, Language.extract_of_dialect? hd limit _, Language.extract_of_dialect? hd limit _, ?_⟩
  rw [htwins.lineIndex_eq]
  exact hsearched.alike_recordsFrom _ ⟨Or.inl (Nat.zero_le _), .start, .start⟩

/-- A comment between a name and its value, which says what would end a declaration and open a literal. -/
theorem extract_comment_inert_closers :
    (Text.IsCommentBody ";\"\x7b" ∧ Text.IsCommentBody "abc" ∧
      Dialect.cpp.Uncovered (.ofString (Text.commented "int x" ";\"\x7b" " = 1;")) 40 5 ∧
      Dialect.cpp.Uncovered (.ofString (Text.commented "int x" "abc" " = 1;")) 40 5) ∧
    ∃ records records',
      Language.cpp.extract 40 ⟨Text.commented "int x" ";\"\x7b" " = 1;", none⟩ = .ok records ∧
      Language.cpp.extract 40 ⟨Text.commented "int x" "abc" " = 1;", none⟩ = .ok records' ∧
      List.Forall₂ (Dialect.cpp.Alike (.ofString (Text.commented "int x" ";\"\x7b" " = 1;")) 40 5)
        records records' :=
  have hbody : Text.IsCommentBody ";\"\x7b" := by decide
  have hbody' : Text.IsCommentBody "abc" := by decide
  have hopen : Dialect.cpp.Uncovered (.ofString (Text.commented "int x" ";\"\x7b" " = 1;")) 40 5 :=
    Dialect.uncovered_of_visits (Source.startsDirective_eq_false_of_text _ (by decide)) (by decide)
      (Source.visits_of_iterate 5 (by decide +kernel))
  have hopen' : Dialect.cpp.Uncovered (.ofString (Text.commented "int x" "abc" " = 1;")) 40 5 :=
    Dialect.uncovered_of_visits (Source.startsDirective_eq_false_of_text _ (by decide)) (by decide)
      (Source.visits_of_iterate 5 (by decide +kernel))
  ⟨⟨hbody, hbody', hopen, hopen'⟩, extract_comment_inert rfl 40 hbody hbody' (by decide) hopen hopen'⟩

/-- A text block that is longer than a bound of four bytes. -/
def textBlock : String :=
  "String s = \"\"\"\n\"\"\";\n"

/-- **A comment that is read from inside a literal.** The plain reading stands at the comment, whatever it says.
With a bound of four bytes the text block is given up, and the search goes on in the middle of it: there the
closing quotes open a literal, and three quotes in the comment close it. -/
theorem comment_read_from_literal :
    Text.IsCommentBody "\"\"\"" ∧ Text.IsCommentBody "abc" ∧
    (Source.ofString (Text.commented textBlock "\"\"\"" ";int x=1;")).Visits .java textBlock.utf8ByteSize ∧
    (Source.ofString (Text.commented textBlock "abc" ";int x=1;")).Visits .java textBlock.utf8ByteSize ∧
    Language.java.extract 4 ⟨Text.commented textBlock "\"\"\"" ";int x=1;", none⟩ =
      .ok [⟨"x", "1", .declared "int", [], ⟨3, 13, 32⟩⟩] ∧
    Language.java.extract 4 ⟨Text.commented textBlock "abc" ";int x=1;", none⟩ = .ok [] :=
  have hvisits : (Source.ofString (Text.commented textBlock "\"\"\"" ";int x=1;")).Visits .java 20 :=
    Source.visits_of_iterate 14 (by decide +kernel)
  have hvisits' : (Source.ofString (Text.commented textBlock "abc" ";int x=1;")).Visits .java 20 :=
    Source.visits_of_iterate 14 (by decide +kernel)
  ⟨by decide, by decide, hvisits, hvisits', congrArg Except.ok (by decide +kernel),
    congrArg Except.ok (by decide +kernel)⟩

end VarCensus
