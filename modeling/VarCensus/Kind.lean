import VarCensus.Text.Blank

/-!
# Kinds of values

Every language maps its values onto one shared vocabulary. A language with declared types may report the
type as it is written instead; the text of such a kind is the type, so reading a kind back takes any text
outside the vocabulary for a type.
-/

namespace VarCensus

/-- What sort of value a variable was given. -/
inductive Kind where
  | string
  | number
  | boolean
  | array
  | object
  | function
  /-- The name of another variable. -/
  | reference
  /-- A string with expressions inside. -/
  | templateString
  /-- None of the others. -/
  | unknown
  /-- Declared without a value. -/
  | uninitialized
  /-- The declared type, as written. -/
  | declared (type : String)
deriving DecidableEq, Repr, Inhabited

namespace Kind

/-- The text of a kind. -/
def text : Kind → String
  | .string => "string"
  | .number => "number"
  | .boolean => "boolean"
  | .array => "array"
  | .object => "object"
  | .function => "function"
  | .reference => "reference"
  | .templateString => "template string"
  | .unknown => "unknown"
  | .uninitialized => "uninitialized"
  | .declared type => type

/-- The shared vocabulary. -/
def shared : List Kind :=
  [.string, .number, .boolean, .array, .object, .function, .reference, .templateString, .unknown,
    .uninitialized]

/-- Whether a kind belongs to the shared vocabulary. -/
def isShared : Kind → Bool
  | .declared _ => false
  | _ => true

/-- The kind with a given text; a blank text has none. -/
def ofText? (raw : String) : Option Kind :=
  let wanted := Text.trim raw
  if wanted.isEmpty then none
  else some ((shared.find? (·.text == wanted)).getD (.declared wanted))

end Kind
end VarCensus
