/-!
# Text from bytes

Bytes are read as UTF-8. Bytes that belong to no character are replaced: the
longest start of a character that breaks off counts as one, and so does each
other byte.
-/

namespace Recast.Text

/-- The mark for bytes that are no character. -/
def replacement : Char := Char.ofNat 0xFFFD

/-- A character of which the first bytes are read: how many are missing, the range of
the next one, and the bits so far. -/
structure OpenChar where
  missing : Nat
  low : Nat
  high : Nat
  bits : Nat

/-- What the first byte of a character says. A byte is a character of its own, begins
one, or does neither. -/
def beginChar (b : Nat) : List Char × Option OpenChar :=
  if b < 0x80 then ([Char.ofNat b], none)
  else if b < 0xC2 then ([replacement], none)
  else if b < 0xE0 then ([], some ⟨1, 0x80, 0xBF, b % 32⟩)
  else if b < 0xF0 then
    ([], some ⟨2, if b = 0xE0 then 0xA0 else 0x80, if b = 0xED then 0x9F else 0xBF, b % 16⟩)
  else if b < 0xF5 then
    ([], some ⟨3, if b = 0xF0 then 0x90 else 0x80, if b = 0xF4 then 0x8F else 0xBF, b % 8⟩)
  else ([replacement], none)

/-- Reads a byte after those of an open character. -/
def readByte (open? : Option OpenChar) (b : Nat) : List Char × Option OpenChar :=
  match open? with
  | none => beginChar b
  | some o =>
    if o.low ≤ b && b ≤ o.high then
      let bits := o.bits * 64 + b % 64
      if o.missing = 1 then ([Char.ofNat bits], none)
      else ([], some ⟨o.missing - 1, 0x80, 0xBF, bits⟩)
    else
      let (cs, next?) := beginChar b
      (replacement :: cs, next?)

def decodeFrom (open? : Option OpenChar) : List UInt8 → List Char
  | [] => if open?.isSome then [replacement] else []
  | b :: r =>
    let (cs, next?) := readByte open? b.toNat
    cs ++ decodeFrom next? r

/-- The text of the bytes. -/
def decode (bytes : List UInt8) : List Char := decodeFrom none bytes

end Recast.Text
