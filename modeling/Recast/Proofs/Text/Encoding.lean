import Recast.Text.Bytes
import Recast.Text.Cut

/-!
# Bytes of a text

Reading the bytes of a text gives the text back, so a text made of bytes holds a replacement
only where the bytes are no text (`decode_utf8`). The cases are the four lengths a character
has; those of three and four bytes need the gap that UTF-8 leaves for surrogates.
-/

namespace Recast.Text

/-- The bytes of the text. -/
def utf8 (text : List Char) : List UInt8 := text.flatMap String.utf8EncodeChar

@[simp] theorem utf8_nil : utf8 [] = [] := rfl

@[simp] theorem utf8_cons (c : Char) (r : List Char) :
    utf8 (c :: r) = String.utf8EncodeChar c ++ utf8 r := rfl

/-- A first byte that begins a character says how far the next byte may range. -/
theorem beginChar_two {b : Nat} (hlow : 0xC2 ≤ b) (hhigh : b < 0xE0) :
    beginChar b = ([], some ⟨1, 0x80, 0xBF, b % 32⟩) := by
  rw [beginChar, if_neg (by omega), if_neg (by omega), if_pos hhigh]

theorem beginChar_three {b : Nat} (hlow : 0xE0 ≤ b) (hhigh : b < 0xF0) :
    beginChar b =
      ([], some ⟨2, if b = 0xE0 then 0xA0 else 0x80, if b = 0xED then 0x9F else 0xBF, b % 16⟩) := by
  rw [beginChar, if_neg (by omega), if_neg (by omega), if_neg (by omega), if_pos hhigh]

theorem beginChar_four {b : Nat} (hlow : 0xF0 ≤ b) (hhigh : b < 0xF5) :
    beginChar b =
      ([], some ⟨3, if b = 0xF0 then 0x90 else 0x80, if b = 0xF4 then 0x8F else 0xBF, b % 8⟩) := by
  rw [beginChar, if_neg (by omega), if_neg (by omega), if_neg (by omega), if_neg (by omega), if_pos hhigh]

theorem decodeFrom_begin {b : Nat} (hb : b < 256) {o : OpenChar} (h : beginChar b = ([], some o))
    (r : List UInt8) : decodeFrom none (UInt8.ofNat b :: r) = decodeFrom (some o) r := by
  rw [decodeFrom, UInt8.toNat_ofNat_of_lt' hb, readByte, h]
  rfl

theorem decodeFrom_next {n low high bits b : Nat} (hb : b < 256) (hlow : low ≤ b) (hhigh : b ≤ high)
    (r : List UInt8) :
    decodeFrom (some ⟨n + 2, low, high, bits⟩) (UInt8.ofNat b :: r) =
      decodeFrom (some ⟨n + 1, 0x80, 0xBF, bits * 64 + b % 64⟩) r := by
  rw [decodeFrom, UInt8.toNat_ofNat_of_lt' hb]
  simp [readByte, hlow, hhigh]

theorem decodeFrom_last {low high bits b : Nat} (hb : b < 256) (hlow : low ≤ b) (hhigh : b ≤ high)
    (r : List UInt8) :
    decodeFrom (some ⟨1, low, high, bits⟩) (UInt8.ofNat b :: r) =
      Char.ofNat (bits * 64 + b % 64) :: decodeFrom none r := by
  rw [decodeFrom, UInt8.toNat_ofNat_of_lt' hb]
  simp [readByte, hlow, hhigh]

theorem decodeFrom_utf8EncodeChar (c : Char) (r : List UInt8) :
    decodeFrom none (String.utf8EncodeChar c ++ r) = c :: decodeFrom none r := by
  have hvalid : c.val.toNat < 0xD800 ∨ 0xDFFF < c.val.toNat ∧ c.val.toNat < 0x110000 := c.valid
  have hc : Char.ofNat c.val.toNat = c := Char.ofNat_toNat c
  unfold String.utf8EncodeChar
  generalize c.val.toNat = v at hvalid hc
  simp only
  split
  case isTrue hone =>
    have hread : beginChar v = ([Char.ofNat v], none) := by rw [beginChar, if_pos (by omega)]
    rw [List.cons_append, decodeFrom, UInt8.toNat_ofNat_of_lt' (by omega : v < 256), readByte, hread, hc]
    rfl
  split
  case isTrue htwo =>
    have hbits : (v / 64 % 32 + 192) % 32 * 64 + (v % 64 + 128) % 64 = v := by omega
    rw [List.cons_append, List.cons_append,
      decodeFrom_begin (by omega) (beginChar_two (by omega) (by omega)),
      decodeFrom_last (by omega) (by omega) (by omega), hbits, hc]
    rfl
  split
  case isTrue hthree =>
    have hbits : ((v / 4096 % 16 + 224) % 16 * 64 + (v / 64 % 64 + 128) % 64) * 64 +
        (v % 64 + 128) % 64 = v := by
      omega
    rw [List.cons_append, List.cons_append, List.cons_append,
      decodeFrom_begin (by omega) (beginChar_three (by omega) (by omega)),
      decodeFrom_next (by omega) (by split <;> omega) (by split <;> omega),
      decodeFrom_last (by omega) (by omega) (by omega), hbits, hc]
    rfl
  case isFalse hthree =>
    have hbits : (((v / 262144 % 8 + 240) % 8 * 64 + (v / 4096 % 64 + 128) % 64) * 64 +
        (v / 64 % 64 + 128) % 64) * 64 + (v % 64 + 128) % 64 = v := by
      omega
    rw [List.cons_append, List.cons_append, List.cons_append, List.cons_append,
      decodeFrom_begin (by omega) (beginChar_four (by omega) (by omega)),
      decodeFrom_next (by omega) (by split <;> omega) (by split <;> omega),
      decodeFrom_next (by omega) (by omega) (by omega),
      decodeFrom_last (by omega) (by omega) (by omega), hbits, hc]
    rfl

theorem decode_utf8 (text : List Char) : decode (utf8 text) = text := by
  unfold decode
  induction text with
  | nil => rfl
  | cons c r ih => rw [utf8_cons, decodeFrom_utf8EncodeChar, ih]

end Recast.Text
