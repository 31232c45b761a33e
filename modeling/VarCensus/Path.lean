import VarCensus.Text.Decoding

/-!
# Paths

A path is a row of bytes with slashes in it. The bytes are those that the file system has, and they need not be a text:
`Path.text?` is the text that they are, if they are one, and `Path.shown` what is shown of any path.

What counts is the components of a path: empty ones and single dots in the middle mean nothing, so `a//b/./c/` and
`a/b/c` name the same place. The name of a path is its last component unless that is the root or a double dot, and the
extension is what follows the last dot of the name, unless the name opens with that dot.
-/

namespace VarCensus

/-- A path, or a name on one. -/
structure Path where
  bytes : List UInt8
deriving DecidableEq, Repr, Inhabited

/-- One step of a path. -/
inductive PathStep where
  | root
  /-- A single dot at the very front. -/
  | here
  | parent
  | name (name : Path)
deriving DecidableEq, Repr

namespace Path

/-! ## Paths and texts -/

/-- The path that a text spells. -/
def ofString (text : String) : Path :=
  ⟨text.toUTF8.data.toList⟩

instance : Coe String Path :=
  ⟨ofString⟩

instance : Append Path :=
  ⟨fun a b => ⟨a.bytes ++ b.bytes⟩⟩

/-- The text that a path is, if it is one. -/
def text? (path : Path) : Option String :=
  String.fromUTF8? ⟨path.bytes.toArray⟩

/-- What is shown of a path. -/
def shown (path : Path) : String :=
  path.text?.getD (String.ofList (Text.decodeLossy path.bytes))

/-- Names come in the order of their bytes. -/
instance : LT Path :=
  ⟨fun a b => a.bytes < b.bytes⟩

instance (a b : Path) : Decidable (a < b) :=
  inferInstanceAs (Decidable (a.bytes < b.bytes))

@[simp]
theorem text?_ofString (text : String) : (ofString text).text? = some text :=
  dif_pos text.isValidUTF8

@[simp]
theorem ofString_inj {text other : String} : ofString text = ofString other ↔ text = other := by
  refine ⟨fun h => Option.some.inj ?_, congrArg ofString⟩
  rw [← text?_ofString text, h, text?_ofString]

/-! ## Components -/

def slash : UInt8 := '/'.toUInt8

def dot : UInt8 := '.'.toUInt8

/-- The stretches of bytes between slashes. -/
def split : List UInt8 → List (List UInt8)
  | [] => [[]]
  | b :: rest =>
    if b = slash then [] :: split rest
    else match split rest with
      | part :: more => (b :: part) :: more
      | [] => [[b]]

/-- The step that one stretch between slashes stands for, when it stands for one in the middle of a path. -/
def step? (part : List UInt8) : Option PathStep :=
  if part = [] ∨ part = [dot] then none
  else if part = [dot, dot] then some .parent
  else some (.name ⟨part⟩)

/-- The steps of a path. -/
def steps (path : Path) : List PathStep :=
  let parts := split path.bytes
  let first : List PathStep :=
    if path.bytes.head? = some slash then [.root] else if parts.head? = some [dot] then [.here] else []
  first ++ parts.filterMap step?

/-- The path of names that follow each other. -/
def join (names : List Path) : Path :=
  ⟨[slash].intercalate (names.map bytes)⟩

/-! ## Extensions -/

/-- The last component of a path, if it is a name. -/
def fileName? (path : Path) : Option Path :=
  match path.steps.getLast? with
  | some (.name name) => some name
  | _ => none

/-- What follows the last dot of a name, when something stands before that dot. -/
def behindDot? (name : List UInt8) : Option (List UInt8) :=
  let tail := name.reverse.takeWhile (· != dot)
  match name.reverse.drop tail.length with
  | _ :: _ :: _ => some tail.reverse
  | _ => none

/-- The extension of a path, if it has one that is a text. -/
def extension? (path : Path) : Option String :=
  ((path.fileName?).bind fun name => behindDot? name.bytes).bind fun ext => text? ⟨ext⟩

end Path
end VarCensus
