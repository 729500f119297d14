import Recast.Decimal.Binary

/-!
# Shortest decimals

The fewest digits that read back as the same float, and of two such decimals the
nearer. A decimal reads back if it lies between the middles to the two
neighbouring floats; the middles count if the mantissa is even.
-/

namespace Recast.Decimal

/-- The value `digits * 10 ^ exponent`. -/
structure Digits where
  digits : Nat
  exponent : Int
  deriving DecidableEq, Repr

/-- The numbers that read back as a float, in quarters of a unit: from `low` to `high`
around `middle`. -/
structure Interval where
  low : Nat
  middle : Nat
  high : Nat
  exponent : Int
  closed : Bool
  deriving DecidableEq, Repr

/-- The gap below a power of two is half the gap above, but for the least
exponent. -/
def Binary.interval (b : Binary) : Interval :=
  let below := if b.mantissa == twoTo 52 && b.exponent != -1074 then 1 else 2
  ⟨4 * b.mantissa - below, 4 * b.mantissa, 4 * b.mantissa + 2, b.exponent - 2,
    b.mantissa % 2 == 0⟩

/-- Compares `d * 10 ^ k` with `n * 2 ^ e`. -/
def compareGrid (d : Nat) (k : Int) (n : Nat) (e : Int) : Ordering :=
  let left := d * tenTo k.toNat * twoTo (-e).toNat
  let right := n * twoTo e.toNat * tenTo (-k).toNat
  compare left right

def Interval.contains (i : Interval) (d : Nat) (k : Int) : Bool :=
  let low := compareGrid d k i.low i.exponent
  let high := compareGrid d k i.high i.exponent
  if i.closed then low != .lt && high != .gt else low == .gt && high == .lt

/-- The whole part of `n * 2 ^ e / 10 ^ k`. -/
def gridFloor (n : Nat) (e k : Int) : Nat :=
  (n * twoTo e.toNat * tenTo (-k).toNat) / (twoTo (-e).toNat * tenTo k.toNat)

/-- Whether the upper neighbour is the nearer of the two. -/
def Interval.upperNearer (i : Interval) (d : Nat) (k : Int) : Bool :=
  compareGrid (2 * d + 1) k (2 * i.middle) i.exponent == .lt

def Interval.onGrid? (i : Interval) (k : Int) : Option Digits :=
  let d := gridFloor i.middle i.exponent k
  match i.contains d k, i.contains (d + 1) k with
  | true, true => some (if i.upperNearer d k then ⟨d + 1, k⟩ else ⟨d, k⟩)
  | true, false => some ⟨d, k⟩
  | false, true => some ⟨d + 1, k⟩
  | false, false => none

/-- The least `j` with `num * 10 ^ j` no less than `den`, of those up to `fuel`. -/
def leadingZeros (num den : Nat) : Nat → Nat
  | 0 => 0
  | fuel + 1 => if den ≤ num then 0 else leadingZeros (num * 10) den fuel + 1

/-- The power of ten of the first digit of a ratio that is not zero. -/
def Ratio.magnitude (r : Ratio) : Int :=
  if r.den ≤ r.num then ((Nat.toDigits 10 (r.num / r.den)).length : Int) - 1
  else -(leadingZeros r.num r.den 400 : Int)

/-- Tries the grids from `k` downwards, `n` of them. -/
def Interval.search (i : Interval) (k : Int) : Nat → Digits
  | 0 => ⟨gridFloor i.middle i.exponent k, k⟩
  | n + 1 =>
    match i.onGrid? k with
    | some d => d
    | none => i.search (k - 1) n

/-- Moves zeros at the end of the digits into the power of ten. -/
def Digits.reduce (fuel : Nat) (d : Digits) : Digits :=
  match fuel with
  | 0 => d
  | fuel + 1 =>
    if d.digits != 0 && d.digits % 10 == 0 then reduce fuel ⟨d.digits / 10, d.exponent + 1⟩ else d

def Binary.shortest (b : Binary) : Digits :=
  if b.mantissa == 0 then ⟨0, 0⟩
  else
    (b.interval.search (Ratio.ofScaled b.mantissa b.exponent).magnitude 17).reduce 20

end Recast.Decimal
