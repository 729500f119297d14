import Recast.Text.Search
import Recast.Toml.Value

/-!
# Bare values

Numbers, truth values and moments stand without quotes. An underscore may
separate two digits. A whole number has no leading zero in base ten, and a base
of two, eight or sixteen is written before its digits.
-/

namespace Recast.Toml

open Text

/-- The digits without the underscores between them. -/
def digits? (isDigit : Char → Bool) (text : List Char) : Option (List Char) :=
  let pieces := splitOn '_' text
  if pieces.all fun p => !p.isEmpty && p.all isDigit then some pieces.flatten else none

def isOctal (c : Char) : Bool := '0' ≤ c && c ≤ '7'

def isBinary (c : Char) : Bool := c == '0' || c == '1'

def isHex (c : Char) : Bool :=
  c.isDigit || ('a' ≤ c && c ≤ 'f') || ('A' ≤ c && c ≤ 'F')

def digitValue (c : Char) : Nat :=
  if c.isDigit then c.toNat - 48 else if 'a' ≤ c then c.toNat - 87 else c.toNat - 55

def valueIn (base : Nat) (ds : List Char) : Nat :=
  ds.foldl (fun n d => base * n + digitValue d) 0

/-- The digits of a whole number in base ten. -/
def wholeDigits? (text : List Char) : Option (List Char) := do
  let ds ← digits? Char.isDigit text
  if 1 < ds.length && ds.head? == some '0' then none else some ds

/-- The sign, if there is one, and the rest. -/
def cutSign : List Char → Bool × List Char
  | '-' :: r => (true, r)
  | '+' :: r => (false, r)
  | r => (false, r)

def signedInteger (negative : Bool) (n : Nat) : Int := if negative then -n else n

def integer? : List Char → Option Int
  | '0' :: 'x' :: r => (digits? isHex r).map fun ds => valueIn 16 ds
  | '0' :: 'o' :: r => (digits? isOctal r).map fun ds => valueIn 8 ds
  | '0' :: 'b' :: r => (digits? isBinary r).map fun ds => valueIn 2 ds
  | text =>
    let (negative, r) := cutSign text
    (wholeDigits? r).map fun ds => signedInteger negative (valueIn 10 ds)

/-- The digits before and after the point. -/
def mantissa? (text : List Char) : Option (List Char × List Char) :=
  match cut? text ['.'] with
  | none => (wholeDigits? text).map (·, [])
  | some (whole, fraction) => do return (← wholeDigits? whole, ← digits? Char.isDigit fraction)

/-- The power of ten. It may have leading zeros. -/
def power? (text : List Char) : Option Int :=
  let (negative, r) := cutSign text
  (digits? Char.isDigit r).map fun ds => signedInteger negative (valueIn 10 ds)

/-- A number with a fraction, a power of ten or both. -/
def fractional? (negative : Bool) (text : List Char) : Option Decimal.Numeral := do
  let mark := text.takeWhile fun c => c != 'e' && c != 'E'
  let power := text.drop (mark.length + 1)
  if mark.length == text.length && !text.contains '.' then none
  else
    let (whole, fraction) ← mantissa? mark
    let e ← if mark.length == text.length then some 0 else power? power
    return .finite negative (valueIn 10 (whole ++ fraction)) (e - fraction.length)

def float? (text : List Char) : Option Decimal.Numeral :=
  let (negative, r) := cutSign text
  if r == "inf".toList then some (.infinite negative)
  else if r == "nan".toList then some .undefined
  else fractional? negative r

def boolean? (text : List Char) : Option Bool :=
  if text == "true".toList then some true
  else if text == "false".toList then some false
  else none

/-- A number of two digits within a range. -/
def pairIn (low high : Nat) : List Char → Bool
  | [a, b] => a.isDigit && b.isDigit && low ≤ valueIn 10 [a, b] && valueIn 10 [a, b] ≤ high
  | _ => false

def isLeap (year : Nat) : Bool := (year % 4 == 0 && year % 100 != 0) || year % 400 == 0

def daysIn (year month : Nat) : Nat :=
  if month == 2 then if isLeap year then 29 else 28
  else if month == 4 || month == 6 || month == 9 || month == 11 then 30
  else 31

def isDate (text : List Char) : Bool :=
  match splitOn '-' text with
  | [year, month, day] =>
    year.length == 4 && year.all Char.isDigit && pairIn 1 12 month &&
      pairIn 1 (daysIn (valueIn 10 year) (valueIn 10 month)) day
  | _ => false

/-- Seconds with an optional fraction. -/
def isSecond (text : List Char) : Bool :=
  match cut? text ['.'] with
  | none => pairIn 0 60 text
  | some (whole, fraction) => pairIn 0 60 whole && !fraction.isEmpty && fraction.all Char.isDigit

def isTime (text : List Char) : Bool :=
  match splitOn ':' text with
  | [hour, minute] => pairIn 0 23 hour && pairIn 0 59 minute
  | [hour, minute, second] => pairIn 0 23 hour && pairIn 0 59 minute && isSecond second
  | _ => false

/-- A time and its distance from the universal time, where one is given. -/
def isTimeWithOffset (text : List Char) : Bool :=
  let time := text.takeWhile fun c => c.isDigit || c == ':' || c == '.'
  match text.drop time.length with
  | [] => isTime time
  | ['Z'] | ['z'] => isTime time
  | sign :: offset =>
    isTime time && (sign == '+' || sign == '-') &&
      match splitOn ':' offset with
      | [hour, minute] => pairIn 0 23 hour && pairIn 0 59 minute
      | _ => false

def isMoment (text : List Char) : Bool :=
  isTime text || isDate text ||
    (isDate (text.take 10) &&
      match text.drop 10 with
      | mark :: time => (mark == 'T' || mark == 't' || mark == ' ') && isTimeWithOffset time
      | [] => false)

def bareValue? (text : List Char) : Option Toml :=
  match boolean? text, integer? text, float? text with
  | some b, _, _ => some (boolean b)
  | none, some n, _ => some (integer n)
  | none, none, some x => some (float x)
  | none, none, none => if isMoment text then some (moment text) else none

def endsBare (c : Char) : Bool :=
  c == ' ' || c == '\t' || c == '\n' || c == '\r' || c == ',' || c == ']' || c == '#' ||
    c == Char.ofNat 0x7D

/-- The characters of a bare value. One blank may stand between a date and a time. -/
def bareText (text : List Char) : List Char :=
  let first := text.takeWhile fun c => !endsBare c
  match text.drop first.length with
  | ' ' :: r =>
    let second := r.takeWhile fun c => !endsBare c
    if isDate first && isTimeWithOffset second then first ++ ' ' :: second else first
  | _ => first

end Recast.Toml
