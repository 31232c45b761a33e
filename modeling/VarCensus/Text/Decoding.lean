/-!
# Bytes that are no text

Bytes that are not UTF-8 can still be shown. What opens a character and is not followed by the rest of it gives way to
one mark, together with as many of the bytes behind it as would have been right; so does any byte that opens nothing.
-/

namespace VarCensus
namespace Text

/-- What is shown in the place of bytes that make no character. -/
def replacement : Char := '\uFFFD'

/-- The bounds of the bytes that follow the first one of a character. Nothing follows a byte of ASCII, nor one that
opens no character. -/
def followers (first : UInt8) : List (UInt8 × UInt8) :=
  let any : UInt8 × UInt8 := (0x80, 0xBF)
  if first < 0xC2 then []
  else if first < 0xE0 then [any]
  -- here a wider range would admit characters that have a shorter form, surrogates, or numbers beyond the last one
  else if first = 0xE0 then [(0xA0, 0xBF), any]
  else if first = 0xED then [(0x80, 0x9F), any]
  else if first < 0xF0 then [any, any]
  else if first = 0xF0 then [(0x90, 0xBF), any, any]
  else if first < 0xF4 then [any, any, any]
  else if first = 0xF4 then [(0x80, 0x8F), any, any]
  else []

/-- The bytes at the front that lie within bounds, each within its own. -/
def within : List (UInt8 × UInt8) → List UInt8 → List UInt8
  | (low, high) :: bounds, b :: rest => if low ≤ b ∧ b ≤ high then b :: within bounds rest else []
  | _, _ => []

/-- Reads bytes as characters, with a mark for those that make none. -/
def decodeLossy : List UInt8 → List Char
  | [] => []
  | first :: rest =>
    let more := within (followers first) rest
    let read := match String.fromUTF8? ⟨(first :: more).toArray⟩ with
      | some text => text.toList
      | none => [replacement]
    read ++ decodeLossy (rest.drop more.length)
termination_by bytes => bytes.length
decreasing_by
  simp only [List.length_drop, List.length_cons]
  omega

end Text
end VarCensus
