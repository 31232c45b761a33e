/-!
# JSON values

Reports are written as JSON and records can be read back from it. A number here is a natural number or
something else; nothing in this library has a use for the others beyond refusing them. The fields of an
object keep their order.

`pretty` writes a value with one entry to a line and two spaces to a level.
-/

namespace VarCensus

/-- A JSON value. -/
inductive Json where
  | null
  | bool (value : Bool)
  | number (value : Nat)
  /-- A number that is negative or has a fraction. -/
  | otherNumber
  | string (value : String)
  | array (items : List Json)
  | object (fields : List (String × Json))
deriving Repr, Inhabited

namespace Json

/-- The four hexadecimal digits of a small code point. -/
def hexDigits (n : Nat) : List Char :=
  let digits := Nat.toDigits 16 n
  List.replicate (4 - digits.length) '0' ++ digits

/-- A character as it stands inside a string. -/
def escapeChar (c : Char) : List Char :=
  match c with
  | '"' => ['\\', '"']
  | '\\' => ['\\', '\\']
  | '\n' => ['\\', 'n']
  | '\r' => ['\\', 'r']
  | '\t' => ['\\', 't']
  | c =>
    if c.toNat == 0x08 then ['\\', 'b']
    else if c.toNat == 0x0C then ['\\', 'f']
    else if c.toNat < 0x20 then ['\\', 'u'] ++ hexDigits c.toNat
    else [c]

/-- A string in quotes. -/
def quoted (s : String) : String :=
  String.ofList ('"' :: s.toList.flatMap escapeChar ++ ['"'])

/-- A new line at a level. -/
def newLine (level : Nat) : String :=
  String.ofList ('\n' :: List.replicate (2 * level) ' ')

mutual

/-- A value at a level. -/
def render (level : Nat) : Json → String
  | .null => "null"
  | .bool true => "true"
  | .bool false => "false"
  | .number n => toString n
  | .otherNumber => "null"
  | .string s => quoted s
  | .array [] => "[]"
  | .array (item :: items) =>
    "[" ++ newLine (level + 1) ++ render (level + 1) item ++ renderItems (level + 1) items ++ newLine level ++ "]"
  | .object [] => "\x7b\x7d"
  | .object (field :: fields) =>
    "\x7b" ++ newLine (level + 1) ++ renderField (level + 1) field ++ renderFields (level + 1) fields ++
      newLine level ++ "\x7d"

/-- The items after the first, each with a comma in front. -/
def renderItems (level : Nat) : List Json → String
  | [] => ""
  | item :: items => "," ++ newLine level ++ render level item ++ renderItems level items

/-- A field of an object. -/
def renderField (level : Nat) : String × Json → String
  | (name, value) => quoted name ++ ": " ++ render level value

/-- The fields after the first, each with a comma in front. -/
def renderFields (level : Nat) : List (String × Json) → String
  | [] => ""
  | field :: fields => "," ++ newLine level ++ renderField level field ++ renderFields level fields

end

/-- The written form of a value. -/
def pretty (value : Json) : String :=
  render 0 value

/-! ## Reading -/

/-- The greatest number that a field may hold. -/
def maxNumber : Nat :=
  Nat.pow 2 64 - 1

/-- A natural number that a field may hold. -/
def nat? : Json → Option Nat
  | .number n => if n ≤ maxNumber then some n else none
  | _ => none

def string? : Json → Option String
  | .string s => some s
  | _ => none

/-- The items of an array, each read in the same way. -/
def list? {α : Type} (item? : Json → Option α) : Json → Option (List α)
  | .array items => items.mapM item?
  | _ => none

/-- The value of a field. -/
def field? (fields : List (String × Json)) (name : String) : Option Json :=
  fields.lookup name

/-- The values of a structure with the named fields, in their order: from an object by name, from an array
by position. A missing field is `none`; an array may not be longer than the list of names. -/
def fieldValues? (names : List String) : Json → Option (List (Option Json))
  | .object fields => some (names.map (field? fields))
  | .array items =>
    if items.length ≤ names.length then
      some (items.map some ++ List.replicate (names.length - items.length) none)
    else none
  | _ => none

end Json
end VarCensus
