/-!
# TOML scalars

Numbers, truth values, dates and times, as whole words: a word runs as far as characters go that may stand in
one, so what follows a scalar decides nothing about it. Only integers and truth values are kept with what they
mean; a float or a date is only checked for being well formed.
-/

namespace VarCensus
namespace Toml

/-- A character that may stand in a word. -/
def isWordChar (c : Char) : Bool :=
  c.isAlphanum || c == '_' || c == '+' || c == '-' || c == '.' || c == ':'

/-! ## Digits -/

/-- Digits of some base with single underscores between them, without the underscores. -/
def digits? (isDigit : Char → Bool) : List Char → Option (List Char)
  | [] => none
  | [c] => if isDigit c then some [c] else none
  | c :: '_' :: rest =>
    if isDigit c then (digits? isDigit rest).map (c :: ·) else none
  | c :: rest => if isDigit c then (digits? isDigit rest).map (c :: ·) else none

/-- The value of a hexadecimal digit, which holds for the digits of smaller bases too. -/
def digitValue (c : Char) : Nat :=
  if c.isDigit then c.toNat - '0'.toNat else c.toLower.toNat - 'a'.toNat + 10

/-- The number that digits make in a base. -/
def numberOf (base : Nat) (digits : List Char) : Nat :=
  digits.foldl (fun n c => base * n + digitValue c) 0

def isHex (c : Char) : Bool :=
  c.isDigit || ('a' ≤ c && c ≤ 'f') || ('A' ≤ c && c ≤ 'F')

def isOctal (c : Char) : Bool :=
  '0' ≤ c && c ≤ '7'

def isBinary (c : Char) : Bool :=
  c == '0' || c == '1'

/-! ## Integers -/

/-- A text without a sign, and whether the sign was a minus. -/
def splitSign : List Char → Bool × List Char
  | '-' :: rest => (true, rest)
  | '+' :: rest => (false, rest)
  | cs => (false, cs)

/-- The digits of a decimal number, which do not open with a zero unless that is all. -/
def decimal? (cs : List Char) : Option (List Char) :=
  match cs with
  | '0' :: _ :: _ => none
  | _ => digits? Char.isDigit cs

/-- An integer that fits into sixty-four bits with a sign. -/
def inRange (n : Int) : Option Int :=
  if -(Int.pow 2 63) ≤ n ∧ n < Int.pow 2 63 then some n else none

/-- The integer that a word is. -/
def integer? (cs : List Char) : Option Int :=
  match cs with
  | '0' :: 'x' :: rest => (digits? isHex rest).bind fun ds => inRange (numberOf 16 ds)
  | '0' :: 'o' :: rest => (digits? isOctal rest).bind fun ds => inRange (numberOf 8 ds)
  | '0' :: 'b' :: rest => (digits? isBinary rest).bind fun ds => inRange (numberOf 2 ds)
  | _ =>
    let (negative, rest) := splitSign cs
    (decimal? rest).bind fun ds =>
      inRange (if negative then -(numberOf 10 ds : Int) else (numberOf 10 ds : Int))

/-! ## Floats -/

/-- Whether a text is an exponent behind its letter. -/
def isExponent (cs : List Char) : Bool :=
  (digits? Char.isDigit (splitSign cs).2).isSome

/-- A text cut at the first character that passes a test: what stands before it, and what stands behind it
if there is one. -/
def cutAt (test : Char → Bool) (cs : List Char) : List Char × Option (List Char) :=
  let before := cs.takeWhile (!test ·)
  (before, match cs.drop before.length with
    | _ :: after => some after
    | [] => none)

/-- Whether a word is a float. -/
def isFloat (cs : List Char) : Bool :=
  let rest := (splitSign cs).2
  rest == "inf".toList || rest == "nan".toList ||
    let (mantissa, power) := cutAt (fun c => c == 'e' || c == 'E') rest
    let (whole, fraction) := cutAt (· == '.') mantissa
    (decimal? whole).isSome &&
      (match fraction with
        | some ds => (digits? Char.isDigit ds).isSome
        | none => power.isSome) &&
      (match power with
        | some p => isExponent p
        | none => true)

/-! ## Dates and times -/

/-- The number that exactly so many digits are. -/
def fixedDigits? (count : Nat) (cs : List Char) : Option Nat :=
  if cs.length == count && cs.all Char.isDigit then some (numberOf 10 cs) else none

/-- The number of days of a month. -/
def daysIn (year month : Nat) : Nat :=
  if month == 2 then
    if year % 4 == 0 && (year % 100 != 0 || year % 400 == 0) then 29 else 28
  else if month == 4 || month == 6 || month == 9 || month == 11 then 30
  else 31

/-- Whether a text is a date. -/
def isDate (cs : List Char) : Bool :=
  match cs with
  | y1 :: y2 :: y3 :: y4 :: '-' :: m1 :: m2 :: '-' :: day =>
    match fixedDigits? 4 [y1, y2, y3, y4], fixedDigits? 2 [m1, m2], fixedDigits? 2 day with
    | some year, some month, some day => 1 ≤ month && month ≤ 12 && 1 ≤ day && day ≤ daysIn year month
    | _, _, _ => false
  | _ => false

/-- Whether two digits are a number of at most so much. -/
def isTwoDigits (limit : Nat) (a b : Char) : Bool :=
  (fixedDigits? 2 [a, b]).any (· ≤ limit)

/-- Whether a text is a time of day. -/
def isTime (cs : List Char) : Bool :=
  match cs with
  | h1 :: h2 :: ':' :: m1 :: m2 :: ':' :: s1 :: s2 :: rest =>
    isTwoDigits 23 h1 h2 && isTwoDigits 59 m1 m2 && isTwoDigits 60 s1 s2 &&
      match rest with
      | [] => true
      | '.' :: fraction => !fraction.isEmpty && fraction.all Char.isDigit
      | _ => false
  | _ => false

/-- Whether a text is a time of day, with an offset if it likes. -/
def isTimeWithOffset (cs : List Char) : Bool :=
  let (time, offset) := cutAt (fun c => c == 'Z' || c == 'z' || c == '+' || c == '-') cs
  isTime time &&
    match offset, cs.drop time.length with
    | none, _ => true
    | some after, sign :: _ =>
      if sign == 'Z' || sign == 'z' then after.isEmpty
      else match after with
        | [h1, h2, ':', m1, m2] => isTwoDigits 23 h1 h2 && isTwoDigits 59 m1 m2
        | _ => false
    | _, _ => false

/-- Whether a word is a date, a time or both with a letter between them. -/
def isDatetime (cs : List Char) : Bool :=
  isDate cs || isTime cs ||
    (isDate (cs.take 10) &&
      match cs.drop 10 with
      | c :: time => (c == 'T' || c == 't') && isTimeWithOffset time
      | [] => false)

end Toml
end VarCensus
