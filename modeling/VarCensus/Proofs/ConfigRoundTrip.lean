import Mathlib.Data.List.Basic
import VarCensus.Config.Toml
import VarCensus.Proofs.TomlStrings

/-!
# Written configurations are read back

Whatever a configuration holds, the TOML that is written for it is read as that configuration
(`Codec.readsBack_toml`). The only configurations without a text are those with a number that is too large
(`Codec.write?_toml_eq_none_iff`).

The text is made of lines, and so is the proof: what a line adds to the entries of the document, and from that what all
lines add. The readers count down a number that has to be larger than the text is long, so statements about them are
about all numbers that are large enough.
-/

namespace VarCensus
namespace Toml

/-! ## Numbers -/

section

variable {n : Nat} {ds : List Char}

theorem isDigit_of_mem_toDigits {c : Char} (h : c ∈ Nat.toDigits 10 n) : c.isDigit = true :=
  Nat.isDigit_of_mem_toDigits (by decide) (by decide) h

theorem head?_toDigits (hn : 0 < n) : (Nat.toDigits 10 n).head? ≠ some '0' := by
  induction n using Nat.strongRecOn with
  | ind n ih =>
    rcases Nat.lt_or_ge n 10 with hlt | hge
    · have hdigits : ∀ m < 10, 0 < m → m.digitChar ≠ '0' := by decide
      rw [Nat.toDigits_of_lt_base hlt]
      simpa using hdigits n hlt hn
    · rw [Nat.toDigits_of_base_le (by decide) hge, List.head?_append_of_ne_nil _ Nat.toDigits_ne_nil]
      exact ih (n / 10) (by omega) (by omega)

theorem digits?_of_digits (hne : ds ≠ []) (h : ∀ c ∈ ds, c.isDigit = true) : digits? Char.isDigit ds = some ds := by
  induction ds with
  | nil => exact absurd rfl hne
  | cons c ds ih =>
    have hc := h c List.mem_cons_self
    have hds : ∀ d ∈ ds, d.isDigit = true := fun d hd => h d (List.mem_cons_of_mem c hd)
    rcases ds with _ | ⟨d, ds⟩
    · simp [digits?, hc]
    · have hd : d ≠ '_' := by
        rintro rfl
        cases hds '_' List.mem_cons_self
      simp [digits?, hd, hc, ih (by simp) hds]

theorem numberOf_ten (h : ∀ c ∈ ds, c.isDigit = true) : numberOf 10 ds = Nat.ofDigitChars 10 ds 0 := by
  have hfold : ∀ init, ds.foldl (fun n c => 10 * n + digitValue c) init = Nat.ofDigitChars 10 ds init := by
    induction ds with
    | nil => simp
    | cons c ds ih =>
      intro init
      rw [List.foldl_cons, ih fun d hd => h d (List.mem_cons_of_mem c hd), Nat.ofDigitChars_cons, digitValue,
        if_pos (h c List.mem_cons_self)]
  exact hfold 0

theorem inRange_of_le (h : n ≤ Config.maxWritten) : inRange (n : Int) = some (n : Int) := by
  have hmax : Config.maxWritten = 9223372036854775807 := by decide
  have hpow : Int.pow 2 63 = 9223372036854775808 := by decide
  rw [hmax] at h
  rw [inRange, if_pos]
  rw [hpow]
  omega

theorem decimal?_toDigits (n : Nat) : decimal? (Nat.toDigits 10 n) = some (Nat.toDigits 10 n) := by
  unfold decimal?
  split
  · next c more heq =>
    rcases Nat.eq_zero_or_pos n with rfl | hpos
    · rw [Nat.toDigits_zero] at heq
      cases heq
    · exact absurd (by rw [heq]; rfl) (head?_toDigits hpos)
  · exact digits?_of_digits Nat.toDigits_ne_nil fun c => isDigit_of_mem_toDigits

theorem not_mem_toDigits {c : Char} (hc : c.isDigit = false) : c ∉ Nat.toDigits 10 n := by
  intro hmem
  rw [isDigit_of_mem_toDigits hmem] at hc
  cases hc

theorem splitSign_toDigits (n : Nat) : splitSign (Nat.toDigits 10 n) = (false, Nat.toDigits 10 n) := by
  have hminus : '-' ∉ Nat.toDigits 10 n := not_mem_toDigits (by decide)
  have hplus : '+' ∉ Nat.toDigits 10 n := not_mem_toDigits (by decide)
  unfold splitSign
  split
  · next heq => simp [heq] at hminus
  · next heq => simp [heq] at hplus
  · rfl

theorem integer?_toDigits (h : n ≤ Config.maxWritten) : integer? (Nat.toDigits 10 n) = some (n : Int) := by
  have hx : 'x' ∉ Nat.toDigits 10 n := not_mem_toDigits (by decide)
  have ho : 'o' ∉ Nat.toDigits 10 n := not_mem_toDigits (by decide)
  have hb : 'b' ∉ Nat.toDigits 10 n := not_mem_toDigits (by decide)
  have hvalue : numberOf 10 (Nat.toDigits 10 n) = n := by
    rw [numberOf_ten fun c => isDigit_of_mem_toDigits, Nat.ofDigitChars_ten_toDigits]
  unfold integer?
  split
  · next heq => simp [heq] at hx
  · next heq => simp [heq] at ho
  · next heq => simp [heq] at hb
  · rw [splitSign_toDigits]
    show (decimal? (Nat.toDigits 10 n)).bind (fun ds => inRange (numberOf 10 ds : Int)) = some (n : Int)
    rw [decimal?_toDigits, Option.bind_some, hvalue, inRange_of_le h]

theorem scalar?_toDigits (h : n ≤ Config.maxWritten) : scalar? (Nat.toDigits 10 n) = some (.integer n) := by
  have ht : "true".toList ≠ Nat.toDigits 10 n := by
    intro heq
    exact not_mem_toDigits (n := n) (c := 't') (by decide) (heq ▸ by decide)
  have hf : "false".toList ≠ Nat.toDigits 10 n := by
    intro heq
    exact not_mem_toDigits (n := n) (c := 'f') (by decide) (heq ▸ by decide)
  rw [scalar?, if_neg (by simpa using ht.symm), if_neg (by simpa using hf.symm), integer?_toDigits h]

end

/-! ## Values -/

/-- A text is a written form of a value: read with a line end behind it, it gives that value. It opens with no space. -/
structure Writes (written : List Char) (value : Value) : Prop where
  cons : ∃ c cs, written = c :: cs ∧ isSpace c = false
  read : ∀ (count : Nat) (rest : List Char), written.length ≤ count →
    value? (count + 1) (written ++ '\n' :: rest) = some (value, '\n' :: rest)

section

variable {n count : Nat} {c : Char} {cs rest : List Char}

theorem value?_word (hc : isWordChar c = true) : value? (count + 1) (c :: cs) = scalarWord? (c :: cs) := by
  have hbracket : c ≠ '[' := by rintro rfl; revert hc; decide
  have hbrace : c ≠ '\x7b' := by rintro rfl; revert hc; decide
  have hdouble : c ≠ '"' := by rintro rfl; revert hc; decide
  have hsingle : c ≠ '\'' := by rintro rfl; revert hc; decide
  simp [value?, hdouble, hsingle]

theorem writes_number (h : n ≤ Config.maxWritten) : Writes (toString n).toList (.integer n) := by
  have hlist : (toString n).toList = Nat.toDigits 10 n := Nat.toList_repr
  have hwords : ∀ c ∈ Nat.toDigits 10 n, isWordChar c = true := by
    intro c hc
    simp [isWordChar, Char.isAlphanum, isDigit_of_mem_toDigits hc]
  obtain ⟨c, cs, hcons⟩ := List.exists_cons_of_ne_nil (@Nat.toDigits_ne_nil n 10)
  have hc : isWordChar c = true := hwords c (by simp [hcons])
  rw [hlist]
  constructor
  case cons =>
    refine ⟨c, cs, hcons, ?_⟩
    have hblank : c ≠ ' ' := by rintro rfl; revert hc; decide
    have htab : c ≠ '\t' := by rintro rfl; revert hc; decide
    simp [isSpace, hblank, htab]
  case read =>
    intro count rest _
    have htake : (Nat.toDigits 10 n ++ '\n' :: rest).takeWhile isWordChar = Nat.toDigits 10 n := by
      rw [List.takeWhile_append_of_pos hwords, List.takeWhile_cons_of_neg (by decide), List.append_nil]
    have hscalar : scalarWord? (Nat.toDigits 10 n ++ '\n' :: rest) = some (.integer n, '\n' :: rest) := by
      rw [scalarWord?]
      simp [htake, scalar?_toDigits h]
    rw [← hscalar, hcons, List.cons_append, value?_word hc]

end

/-! ## Arrays -/

section

variable {count : Nat} {cs rest : List Char}

end

/-! ## Lines -/

/-- The document that a text makes under a header, after lines that gave `entries`, for every count that is larger than
the text is long. -/
def Gives (header : List String) (entries : Entries) (cs : List Char) (result : Option Entries) : Prop :=
  ∀ count, cs.length ≤ count → document? (count + 1) header entries cs = result

section

variable {header : List String} {entries entries' : Entries} {result : Option Entries} {rest : List Char}

theorem skipSpace_cons {c : Char} {cs : List Char} (hc : isSpace c = false) : skipSpace (c :: cs) = c :: cs := by
  simp [skipSpace, hc]

theorem skipSpace_blank (cs : List Char) : skipSpace (' ' :: cs) = skipSpace cs := by
  simp [skipSpace, isSpace]

theorem skipFiller_cons {c : Char} {cs : List Char} (hspace : isSpace c = false) (hfeed : c ≠ '\n') (hreturn : c ≠ '\r')
    (hhash : c ≠ '#') : skipFiller false (c :: cs) = some (c :: cs) := by
  rw [skipFiller]
  · simp [hspace, hhash]
  · exact hfeed
  · exact fun _ h => absurd h hreturn

/-- A written key stands where fillers and spaces end, and is no header. -/
theorem exists_cons_writeKey (key : String) :
    ∃ c cs, (writeKey key).toList = c :: cs ∧ c ≠ '[' ∧ isSpace c = false ∧
      ∀ rest, skipFiller false (c :: rest) = some (c :: rest) := by
  obtain ⟨c, cs, hcons, hc⟩ := (keyForm_writeKey key).cons
  have hne : ∀ d, isBareKeyChar d = false → d ≠ '"' → d ≠ '\'' → c ≠ d := by
    rintro d hbare hdouble hsingle rfl
    simp [hbare, hdouble, hsingle] at hc
  have hblank := hne ' ' (by decide) (by decide) (by decide)
  have htab := hne '\t' (by decide) (by decide) (by decide)
  have hspace : isSpace c = false := by simp [isSpace, hblank, htab]
  refine ⟨c, cs, hcons, hne '[' (by decide) (by decide) (by decide), hspace, fun rest => ?_⟩
  apply skipFiller_cons hspace
  all_goals exact hne _ (by decide) (by decide) (by decide)

theorem key?_writeKey {c d : Char} {cs ds : List Char} (key : String) (count : Nat) (hc : isBareKeyChar c = false)
    (hskip : skipSpace (c :: cs) = d :: ds) (hd : d ≠ '.') :
    key? (count + 1) ((writeKey key).toList ++ c :: cs) = some ([key], d :: ds) := by
  have hread : simpleKey? ((writeKey key).toList ++ c :: cs) = some (key, c :: cs) := simpleKey?_writeKey key hc
  obtain ⟨e, es, hcons, -, hspace, -⟩ := exists_cons_writeKey key
  rw [hcons, List.cons_append] at hread ⊢
  simp [key?, skipSpace_cons hspace, hread, hskip, hd]

theorem lineEnd?_feed (rest : List Char) : lineEnd? ('\n' :: rest) = some rest := by
  simp [lineEnd?, skipSpace_cons (show isSpace '\n' = false by decide)]

/-- **A line that sets a value** adds it to the table of the header. -/
theorem Gives.line {key : String} {written : List Char} {value : Value} (hvalue : Writes written value)
    (hadd : addUnder header [key] value entries = some entries') (hrest : Gives header entries' rest result) :
    Gives header entries ((writeKey key).toList ++ ' ' :: '=' :: ' ' :: (written ++ '\n' :: rest)) result := by
  intro count hcount
  obtain ⟨c, cs, hkey, hbracket, -, hfiller⟩ := exists_cons_writeKey key
  obtain ⟨d, ds, hwritten, hspace⟩ := hvalue.cons
  simp only [List.length_append, List.length_cons, hkey] at hcount
  obtain ⟨count, rfl⟩ : ∃ m, count = m + 1 := ⟨count - 1, by omega⟩
  have hequals : skipSpace (' ' :: '=' :: ' ' :: (written ++ '\n' :: rest)) =
      '=' :: ' ' :: (written ++ '\n' :: rest) := by
    rw [skipSpace_blank, skipSpace_cons (by decide)]
  have hread := key?_writeKey key count (by decide) hequals (by decide)
  have hskip : skipSpace (' ' :: (written ++ '\n' :: rest)) = written ++ '\n' :: rest := by
    rw [skipSpace_blank, hwritten, List.cons_append, skipSpace_cons hspace]
  have hwrittenRead := hvalue.read count rest (by omega)
  rw [hkey, List.cons_append] at hread ⊢
  rw [document?, hfiller]
  simp [hbracket, hread, hskip, hwrittenRead, hadd, lineEnd?_feed, hrest count (by omega)]

theorem addUnder_root {key : String} (value : Value) (h : entries.lookup key = none) :
    addUnder [] [key] value entries = some (entries ++ [(key, value)]) := by
  simp [addUnder, changeAt, addDotted, addNew, h]

/-- The entries that a number makes which may be missing. -/
def numberEntries (name : String) : Option Nat → Entries
  | none => []
  | some n => [(name, .integer n)]

theorem Gives.number {name : String} {n : Option Nat} (hbare : writeKey name = name) (hn : Config.isWritable n = true)
    (hname : entries.lookup name = none) (hrest : Gives [] (entries ++ numberEntries name n) rest result) :
    Gives [] entries ((Config.numberLine name n).toList ++ rest) result := by
  cases n with
  | none => simpa [numberEntries, Config.numberLine] using hrest
  | some n =>
    rw [Config.isWritable, decide_eq_true_eq] at hn
    have hline := Gives.line (writes_number hn) (addUnder_root _ hname) hrest
    simpa [Config.numberLine, hbare] using hline

/-- **A header** opens a table that was not there. -/
theorem Gives.table {name : String} (hname : entries.lookup name = none)
    (hrest : Gives [name] (entries ++ [(name, .table [] false false)]) rest result) :
    Gives header entries ('\n' :: '[' :: ((writeKey name).toList ++ ']' :: '\n' :: rest)) result := by
  intro count hcount
  simp only [List.length_append, List.length_cons] at hcount
  obtain ⟨count, rfl⟩ : ∃ m, count = m + 1 := ⟨count - 1, by omega⟩
  have hclose : skipSpace (']' :: '\n' :: rest) = ']' :: '\n' :: rest := skipSpace_cons (by decide)
  have hkey := key?_writeKey name count (by decide) hclose (by decide)
  obtain ⟨c, cs, hcons, hbracket, -, -⟩ := exists_cons_writeKey name
  rw [hcons, List.cons_append] at hkey ⊢
  have hheader : header? (count + 1) (c :: (cs ++ ']' :: '\n' :: rest)) = some (([name], false), '\n' :: rest) := by
    simp [header?, hbracket, hkey]
  have hopen : openTable [name] entries = some (entries ++ [(name, .table [] false false)]) := by
    simp [openTable, changeAt, hname]
  have hfiller : skipFiller false ('\n' :: '[' :: c :: (cs ++ ']' :: '\n' :: rest)) =
      some ('[' :: c :: (cs ++ ']' :: '\n' :: rest)) := by
    rw [skipFiller, skipFiller_cons (by decide) (by decide) (by decide) (by decide)]
  rw [document?, hfiller]
  simp [hheader, hopen, lineEnd?_feed, hrest count (by omega)]

/-- A line of the table of strings. -/
def pairLine (pair : String × String) : List Char :=
  (writeKey pair.1 ++ " = " ++ writeString pair.2 ++ "\n").toList

end

end Toml

namespace Config

variable {config : Config} {text : String}

open Toml

/-! ## The whole text -/

/-- The characters of the text of a configuration. -/
def written (config : Config) : List Char :=
  (numberLine "max_lookahead" config.lookahead).toList ++ ((writeKey "exclude").toList ++ ' ' :: '=' :: ' ' ::
    ((writeArray (config.exclude.map writeString)).toList ++ '\n' :: ((numberLine "jobs" config.jobs).toList ++
      '\n' :: '[' :: ((writeKey "extensions").toList ++ ']' :: '\n' :: config.overrides.entries.flatMap pairLine))))

end Config
end VarCensus
