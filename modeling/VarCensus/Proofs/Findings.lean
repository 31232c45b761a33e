import VarCensus.Finding
import VarCensus.Proofs.Collapse
import VarCensus.Proofs.Lexing

/-!
# What a search finds on its way

A search through a source goes from position to position and records variables as it goes. `Finds` describes
a stretch of such a search: where it starts and ends, the records it makes and the scans of values it does.
A stretch is one byte, one declarator, one declaration or the whole search, since stretches compose
(`Finds.trans`).

Scans have a bound. A search that runs into it goes on at the next line, wherever that line starts: between
words, but perhaps inside a literal. So of the two facts about positions one is unconditional, that edges are
kept, and the other, that the search goes where a plain reading goes, asks for scans that stay below their
bound.
-/

namespace VarCensus

/-- None of some scans ran into its bound. -/
def Unlimited (scans : List ValueScan) : Prop :=
  ∀ scan ∈ scans, scan.stop ≠ .limit

theorem Unlimited.append {scans scans' : List ValueScan} (h : Unlimited (scans ++ scans')) :
    Unlimited scans ∧ Unlimited scans' :=
  ⟨fun s hs => h s (List.mem_append_left _ hs), fun s hs => h s (List.mem_append_right _ hs)⟩

theorem Unlimited.nil : Unlimited [] := by
  intro scan hs
  cases hs

theorem Unlimited.cons {scan : ValueScan} {scans : List ValueScan} (hs : scan.stop ≠ .limit)
    (h : Unlimited scans) : Unlimited (scan :: scans) := by
  intro s hmem
  rcases List.mem_cons.mp hmem with rfl | hmem
  · exact hs
  · exact h s hmem

theorem Unlimited.concat {scans scans' : List ValueScan} (h : Unlimited scans) (h' : Unlimited scans') :
    Unlimited (scans ++ scans') := by
  intro s hs
  rcases List.mem_append.mp hs with hs | hs
  · exact h s hs
  · exact h' s hs

/-- What is true of a record by itself: a word that is free to be a name stands at its place, nothing reads
it, and it has a value in normal form. -/
structure Record.Stands (reserved : String → Bool) (src : Source) (index : LineIndex) (r : Record) :
    Prop where
  word : ∃ e, src.identAt? r.declaredAt.offset = some (r.name, e)
  free : reserved r.name = false
  place : r.declaredAt = index.location r.declaredAt.offset
  unread : r.reads = []
  valued : r.value ≠ ""
  collapsed : Text.collapse r.value = r.value

/-- A stretch of a search from `start` to `next`, with the scans and the records it makes. -/
structure Finds (lex : Lexicon) (reserved : String → Bool) (src : Source) (index : LineIndex) (start : Nat)
    (scans : List ValueScan) (records : List Record) (next : Nat) : Prop where
  le : start ≤ next
  stands : ∀ r ∈ records, r.Stands reserved src index
  between : ∀ r ∈ records, start ≤ r.declaredAt.offset ∧ r.declaredAt.offset < next
  ordered : records.Pairwise (·.declaredAt.offset < ·.declaredAt.offset)
  edge : src.Edge start → src.Edge next ∧ ∀ r ∈ records, src.Edge r.declaredAt.offset
  goes : Unlimited scans → src.Goes lex start next ∧ ∀ r ∈ records, src.Goes lex start r.declaredAt.offset

namespace Finds

variable {lex : Lexicon} {reserved : String → Bool} {src : Source} {index : LineIndex}

/-- A move that finds nothing. -/
theorem ofLands {start next : Nat} (h : src.Lands lex start next) (scans : List ValueScan) :
    Finds lex reserved src index start scans [] next where
  le := h.le
  stands := by simp
  between := by simp
  ordered := List.Pairwise.nil
  edge hs := ⟨h.edge hs, by simp⟩
  goes _ := ⟨h.goes, by simp⟩

/-- The search starts again at the line after a position, since a scan ran into its bound. -/
theorem ofLimit {start pos : Nat} {scans : List ValueScan} {scan : ValueScan} (hle : start ≤ pos)
    (hp : pos ≤ src.size) (hmem : scan ∈ scans) (hstop : scan.stop = .limit) :
    Finds lex reserved src index start scans [] (src.lineEnd pos + 1) where
  le := Nat.le_succ_of_le (Nat.le_trans hle (Source.le_lineEnd hp))
  stands := by simp
  between := by simp
  ordered := List.Pairwise.nil
  edge _ := ⟨src.edge_lineEnd_succ pos, by simp⟩
  -- the next line may start inside a literal: this is the case that unlimited scans rule out
  goes hu := absurd hstop (hu scan hmem)

/-- One record on the way. -/
theorem ofRecord {start next : Nat} {r : Record} (hr : r.Stands reserved src index)
    (hto : src.Lands lex start r.declaredAt.offset) (hlt : r.declaredAt.offset < next)
    (h : src.Lands lex start next) (scans : List ValueScan) :
    Finds lex reserved src index start scans [r] next where
  le := h.le
  stands := fun _ hmem => List.mem_singleton.mp hmem ▸ hr
  between := fun _ hmem => List.mem_singleton.mp hmem ▸ ⟨hto.le, hlt⟩
  ordered := List.pairwise_singleton _ _
  edge hs := ⟨h.edge hs, fun _ hmem => List.mem_singleton.mp hmem ▸ hto.edge hs⟩
  goes _ := ⟨h.goes, fun _ hmem => List.mem_singleton.mp hmem ▸ hto.goes⟩

/-- **Stretches compose.** -/
theorem trans {start mid next : Nat} {scans scans' : List ValueScan} {records records' : List Record}
    (h : Finds lex reserved src index start scans records mid)
    (h' : Finds lex reserved src index mid scans' records' next) :
    Finds lex reserved src index start (scans ++ scans') (records ++ records') next where
  le := Nat.le_trans h.le h'.le
  stands := by
    intro r hr
    rcases List.mem_append.mp hr with hr | hr
    · exact h.stands r hr
    · exact h'.stands r hr
  between := by
    intro r hr
    rcases List.mem_append.mp hr with hr | hr
    · exact ⟨(h.between r hr).1, Nat.lt_of_lt_of_le (h.between r hr).2 h'.le⟩
    · exact ⟨Nat.le_trans h.le (h'.between r hr).1, (h'.between r hr).2⟩
  ordered := by
    -- `mid` lies between the records of the two stretches
    refine List.pairwise_append.mpr ⟨h.ordered, h'.ordered, fun r hr r' hr' => ?_⟩
    exact Nat.lt_of_lt_of_le (h.between r hr).2 (h'.between r' hr').1
  edge := by
    intro hs
    obtain ⟨hmid, hrecords⟩ := h.edge hs
    obtain ⟨hnext, hrecords'⟩ := h'.edge hmid
    refine ⟨hnext, fun r hr => ?_⟩
    rcases List.mem_append.mp hr with hr | hr
    · exact hrecords r hr
    · exact hrecords' r hr
  goes := by
    intro hu
    obtain ⟨hmid, hrecords⟩ := h.goes hu.append.1
    obtain ⟨hnext, hrecords'⟩ := h'.goes hu.append.2
    refine ⟨hmid.trans hnext, fun r hr => ?_⟩
    rcases List.mem_append.mp hr with hr | hr
    · exact hrecords r hr
    · exact hmid.trans (hrecords' r hr)

/-- A move that finds nothing, in front of a stretch. -/
theorem after {start mid next : Nat} {scans : List ValueScan} {records : List Record}
    (hl : src.Lands lex start mid) (h : Finds lex reserved src index mid scans records next) :
    Finds lex reserved src index start scans records next :=
  (ofLands hl []).trans h

end Finds

/-- A collapsed value that is not empty is what a record asks for. -/
theorem value_of_collapse {value text : String} (hv : value = Text.collapse text)
    (hne : value.isEmpty = false) : value ≠ "" ∧ Text.collapse value = value := by
  refine ⟨?_, by rw [hv, Text.collapse_collapse]⟩
  rintro rfl
  cases hne

theorem noValue_ne_empty : noValue ≠ "" := by decide

theorem collapse_noValue : Text.collapse noValue = noValue := by decide

/-- A record without a value stands. -/
theorem Record.stands_noValue {reserved : String → Bool} {src : Source} {index : LineIndex} {name : String}
    {pos e : Nat} (kind : Kind) (hid : src.identAt? pos = some (name, e)) (hfree : reserved name = false) :
    Record.Stands reserved src index ⟨name, noValue, kind, [], index.location pos⟩ where
  word := ⟨e, hid⟩
  free := hfree
  place := rfl
  unread := rfl
  valued := noValue_ne_empty
  collapsed := collapse_noValue

end VarCensus
