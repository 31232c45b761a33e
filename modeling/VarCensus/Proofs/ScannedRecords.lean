import VarCensus.Extraction
import VarCensus.Proofs.Identifiers
import VarCensus.Proofs.LineStarts
import VarCensus.Proofs.PythonFindings
import VarCensus.Proofs.TypedFindings

/-!
# The records of scanned languages

Three languages are read without a grammar. Whatever the text and whatever the bound on a scan, extraction
gives records for them, and each record tells the truth about a word of the text: `extract_scanned_sound`.
No part of this asks for a text that makes sense in its language.
-/

namespace VarCensus

/-- The lexicon of a language that is read without a grammar. -/
def Language.lexicon? : Language → Option Lexicon
  | .python => some .python
  | .java => some .java
  | .cpp => some .cpp
  | .javascript | .typescript | .tsx => none

/-- The words that name no variable in a language that is read without a grammar. -/
def Language.reserves (language : Language) (word : String) : Bool :=
  match language with
  | .python => Python.keywords.contains word
  | .java => Dialect.java.isReserved word
  | .cpp => Dialect.cpp.isReserved word
  | .javascript | .typescript | .tsx => false

/-- The scans of values that extraction makes in a source. -/
def Language.scans (language : Language) (limit : Nat) (src : Source) : List ValueScan :=
  match language with
  | .python => Python.scansFrom src (.ofSource src) limit 0
  | .java => Dialect.java.scansFrom src (.ofSource src) limit 0
  | .cpp => Dialect.cpp.scansFrom src (.ofSource src) limit 0
  | .javascript | .typescript | .tsx => []

/-- Records that are in order stay where they are. -/
theorem Record.sortByPlace_of_ordered {records : List Record}
    (h : records.Pairwise (·.declaredAt.offset < ·.declaredAt.offset)) : sortByPlace records = records := by
  refine List.mergeSort_of_pairwise (h.imp fun hlt => ?_)
  exact decide_eq_true (Nat.le_of_lt hlt)

/-- **Extraction is one stretch of a search** through the whole source. -/
theorem Language.finds_extract {language : Language} {lex : Lexicon} (hlex : language.lexicon? = some lex)
    (limit : Nat) (document : Document) :
    ∃ records next, language.extract limit document = .ok records ∧
      Finds lex language.reserves (.ofString document.text) (.ofSource (.ofString document.text)) 0
        (language.scans limit (.ofString document.text)) records next := by
  cases language with
  | python =>
    cases hlex
    obtain ⟨next, h⟩ := Python.finds_recordsFrom (.ofString document.text) (.ofSource _) limit 0
    exact ⟨_, next, congrArg Except.ok (Record.sortByPlace_of_ordered h.ordered), h⟩
  | java =>
    cases hlex
    obtain ⟨next, h⟩ := Dialect.finds_recordsFrom Dialect.isPlain_separator_java (.ofString document.text)
      (.ofSource _) limit 0
    exact ⟨_, next, congrArg Except.ok (Record.sortByPlace_of_ordered h.ordered), h⟩
  | cpp =>
    cases hlex
    obtain ⟨next, h⟩ := Dialect.finds_recordsFrom Dialect.isPlain_separator_cpp (.ofString document.text)
      (.ofSource _) limit 0
    exact ⟨_, next, congrArg Except.ok (Record.sortByPlace_of_ordered h.ordered), h⟩
  | javascript => cases hlex
  | typescript => cases hlex
  | tsx => cases hlex

/-- What a record says is true of a text. -/
structure Record.TrueOf (reserved : String → Bool) (text : String) (r : Record) : Prop where
  named : r.name ≠ ""
  /-- The name is the text at the place of the declaration. -/
  spelled : (Source.ofString text).slice r.declaredAt.offset (r.declaredAt.offset + r.name.utf8ByteSize) = r.name
  /-- All its bytes are identifier bytes, and it is no part of a longer word. -/
  bytes : ∀ i, r.declaredAt.offset ≤ i → i < r.declaredAt.offset + r.name.utf8ByteSize →
    ((Source.ofString text).byte? i).any isIdentByte = true
  opened : ((Source.ofString text).byteBefore? r.declaredAt.offset).any isIdentByte = false
  closed : ((Source.ofString text).byte? (r.declaredAt.offset + r.name.utf8ByteSize)).any isIdentByte = false
  free : reserved r.name = false
  place : r.declaredAt = Location.atOffset (.ofString text) r.declaredAt.offset
  unread : r.reads = []
  valued : r.value ≠ ""
  collapsed : Text.collapse r.value = r.value

/-- A record that stands at an edge is true of its text. -/
theorem Record.Stands.trueOf {reserved : String → Bool} {text : String} {r : Record}
    (h : r.Stands reserved (.ofString text) (.ofSource (.ofString text)))
    (hedge : (Source.ofString text).Edge r.declaredAt.offset) : r.TrueOf reserved text := by
  obtain ⟨e, hid⟩ := h.word
  obtain ⟨hword, hname, rfl⟩ := Source.identAt?_text hedge hid
  have hfirst := hword.bytes _ (Nat.le_refl _) hword.lt
  refine ⟨?_, hname.symm, hword.bytes, ?_, hword.closed, h.free, ?_, h.unread, h.valued, h.collapsed⟩
  · intro hempty
    have hlt := hword.lt
    rw [hempty] at hlt
    exact Nat.lt_irrefl _ hlt
  · cases hb : ((Source.ofString text).byteBefore? r.declaredAt.offset).any isIdentByte with
    | true => exact absurd ⟨hb, hfirst⟩ hedge
    | false => rfl
  · have hle := Nat.le_of_lt (Nat.lt_of_lt_of_le hword.lt hword.le_size)
    exact h.place.trans (LineIndex.location_ofSource hle)

/-- **Extraction tells the truth.** For every text and every bound on scans, a language that is read without
a grammar gives records, in the order of their places and no two at one place, and each of them is true of
the text. -/
theorem extract_scanned_sound {language : Language} {lex : Lexicon} (hlex : language.lexicon? = some lex)
    (limit : Nat) (document : Document) :
    ∃ records, language.extract limit document = .ok records ∧
      records.Pairwise (·.declaredAt.offset < ·.declaredAt.offset) ∧
      ∀ r ∈ records, r.TrueOf language.reserves document.text := by
  obtain ⟨records, next, hextract, hfinds⟩ := language.finds_extract hlex limit document
  refine ⟨records, hextract, hfinds.ordered, fun r hr => ?_⟩
  exact (hfinds.stands r hr).trueOf ((hfinds.edge Source.edge_zero).2 r hr)

theorem extract_scanned_sound_umlaut :
    Language.python.lexicon? = some .python ∧
    ∃ records, Language.python.extract 40 ⟨"größe: int = 'x\n", none⟩ = .ok records ∧
      records.Pairwise (·.declaredAt.offset < ·.declaredAt.offset) ∧
      ∀ r ∈ records, r.TrueOf Language.python.reserves "größe: int = 'x\n" :=
  ⟨rfl, extract_scanned_sound rfl 40 ⟨"größe: int = 'x\n", none⟩⟩

end VarCensus
