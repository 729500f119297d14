import Recast.Decimal.Shortest

/-!
# Printed floats

Three forms. The plain form has the shortest digits and no power of ten. The JSON
form keeps a fraction on whole numbers and takes a power of ten for very large
and very small ones. The fixed form rounds the exact value to a number of places,
a half to the even neighbour. Beside them stands the rounding to a whole number.
-/

namespace Recast.Decimal

def digitText (n : Nat) : List Char := Nat.toDigits 10 n

def zeros (n : Nat) : List Char := List.replicate n '0'

/-- The digits with a point before the last `places` of them. -/
def withPoint (n places : Nat) : List Char :=
  let ds := digitText n
  let ds := zeros (places + 1 - ds.length) ++ ds
  if places = 0 then ds else ds.take (ds.length - places) ++ '.' :: ds.drop (ds.length - places)

def Digits.plain (d : Digits) : List Char :=
  if 0 ≤ d.exponent then digitText d.digits ++ (if d.digits = 0 then [] else zeros d.exponent.toNat)
  else withPoint d.digits (-d.exponent).toNat

/-- Digits from 10⁻⁵ up to 10¹⁶ are written out, others with a power of ten. -/
def Digits.json (d : Digits) : List Char :=
  let ds := digitText d.digits
  let point := ds.length + d.exponent
  if d.digits = 0 then "0.0".toList
  else if 0 ≤ d.exponent && point ≤ 16 then d.plain ++ ".0".toList
  else if -5 < point && point ≤ 16 then d.plain
  else
    let power := 'e' :: (toString (point - 1)).toList
    match ds with
    | [x] => x :: power
    | x :: r => x :: '.' :: r ++ power
    | [] => power

def signed (negative : Bool) (text : List Char) : String :=
  String.ofList (if negative then '-' :: text else text)

/-- The plain form. -/
def plain (x : Float) : String :=
  match FloatValue.ofFloat x with
  | .undefined => "NaN"
  | .infinite negative => signed negative "inf".toList
  | .finite b => signed b.negative b.shortest.plain

/-- The JSON form. What is no number is null. -/
def json (x : Float) : String :=
  match FloatValue.ofFloat x with
  | .undefined | .infinite _ => "null"
  | .finite b => signed b.negative b.shortest.json

/-- The quotient rounded to a whole number, a half to the even neighbour. -/
def roundEven (num den : Nat) : Nat :=
  let q := num / den
  let r := num % den
  if 2 * r < den then q
  else if den < 2 * r then q + 1
  else if q % 2 == 0 then q else q + 1

/-- The exact value rounded to `places` places. -/
def fixed (places : Nat) (x : Float) : String :=
  match FloatValue.ofFloat x with
  | .undefined => "NaN"
  | .infinite negative => signed negative "inf".toList
  | .finite b =>
    let r := Ratio.ofScaled b.mantissa b.exponent
    signed b.negative (withPoint (roundEven (r.num * tenTo places) r.den) places)

/-- The nearest whole number, a half away from zero. Below zero it is zero, and it is
at most the largest word. -/
def toWord (x : Float) : UInt64 :=
  match FloatValue.ofFloat x with
  | .undefined => 0
  | .infinite negative => if negative then 0 else .ofNat (twoTo 64 - 1)
  | .finite b =>
    let r := Ratio.ofScaled b.mantissa b.exponent
    if b.negative then 0 else .ofNat (min ((2 * r.num + r.den) / (2 * r.den)) (twoTo 64 - 1))

end Recast.Decimal
