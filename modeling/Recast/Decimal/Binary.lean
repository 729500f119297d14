import Recast.Decimal.Grammar

/-!
# Binary values

A float is a sign and a whole number of units, each unit a power of two. Every
decimal form is worked out from these in exact arithmetic.
-/

namespace Recast.Decimal

def twoTo (n : Nat) : Nat := Nat.pow 2 n

def tenTo (n : Nat) : Nat := Nat.pow 10 n

/-- The value `mantissa * 2 ^ exponent`. -/
structure Binary where
  negative : Bool
  mantissa : Nat
  exponent : Int
  deriving DecidableEq, Repr

/-- A quotient of whole numbers. -/
structure Ratio where
  num : Nat
  den : Nat
  deriving DecidableEq, Repr

def Ratio.ofScaled (n : Nat) (e : Int) : Ratio :=
  if 0 ≤ e then ⟨n * twoTo e.toNat, 1⟩ else ⟨n, twoTo (-e).toNat⟩

inductive FloatValue
  | finite (b : Binary)
  | infinite (negative : Bool)
  | undefined
  deriving DecidableEq, Repr

/-- The sign, the exponent and the fraction of a float from its bits. -/
def FloatValue.ofBits (bits : Nat) : FloatValue :=
  let negative := bits / twoTo 63 % 2 == 1
  let e : Nat := bits / twoTo 52 % twoTo 11
  let fraction := bits % twoTo 52
  if e == twoTo 11 - 1 then if fraction == 0 then .infinite negative else .undefined
  else if e == 0 then .finite ⟨negative, fraction, -1074⟩
  else .finite ⟨negative, twoTo 52 + fraction, (e : Int) - 1075⟩

def FloatValue.ofFloat (x : Float) : FloatValue := ofBits x.toBits.toNat

/-- The float nearest to a numeral. Powers of ten far outside the range are not
computed. -/
def Numeral.toFloat : Numeral → Float
  | .undefined => 0.0 / 0.0
  | .infinite negative => if negative then -(1.0 / 0.0) else 1.0 / 0.0
  | .finite negative digits e =>
    let size := (Nat.toDigits 10 digits).length + e
    let x : Float :=
      if digits == 0 || size < -400 then 0.0
      else if 400 < size then 1.0 / 0.0
      else if 0 ≤ e then Float.ofScientific digits false e.toNat
      else Float.ofScientific digits true (-e).toNat
    if negative then -x else x

def float? (text : List Char) : Option Float := (read? text).map Numeral.toFloat

end Recast.Decimal
