import Recast.Text.Case
import Recast.Text.Search

/-!
# The written form of a number

A sign, then digits with an optional fraction and an optional power of ten, or the
name of an infinity or of the undefined value in any case. A point needs a
digit on one of its sides.
-/

namespace Recast.Decimal

inductive Numeral
  | finite (negative : Bool) (digits : Nat) (exponent : Int)
  | infinite (negative : Bool)
  | undefined
  deriving DecidableEq, Repr

def digitsValue (ds : List Char) : Nat := ds.foldl (fun n d => 10 * n + (d.toNat - 48)) 0

/-- The power of ten after its mark: a sign and at least one digit. -/
def readExponent? : List Char → Option Int
  | [] => none
  | c :: r =>
    let ds := if c == '+' || c == '-' then r else c :: r
    if ds.isEmpty || !ds.all Char.isDigit then none
    else some (if c == '-' then -(digitsValue ds : Int) else digitsValue ds)

/-- A number without its sign. -/
def readUnsigned? (negative : Bool) (text : List Char) : Option Numeral :=
  let word := Text.lowercase text
  if word == "inf".toList || word == "infinity".toList then some (.infinite negative)
  else if word == "nan".toList then some .undefined
  else
    let whole := text.takeWhile Char.isDigit
    let afterWhole := text.dropWhile Char.isDigit
    let (fraction, rest) :=
      match afterWhole with
      | '.' :: r => (r.takeWhile Char.isDigit, r.dropWhile Char.isDigit)
      | r => ([], r)
    let exponent? : Option Int :=
      match rest with
      | [] => some 0
      | c :: r => if c == 'e' || c == 'E' then readExponent? r else none
    if whole.isEmpty && fraction.isEmpty then none
    else exponent?.map fun e => .finite negative (digitsValue (whole ++ fraction)) (e - fraction.length)

def read? : List Char → Option Numeral
  | '-' :: r => readUnsigned? true r
  | '+' :: r => readUnsigned? false r
  | r => readUnsigned? false r

end Recast.Decimal
