import Recast.Text.Cut
import Recast.Text.Statement
import Recast.Text.Word

/-!
# Byte offsets

The scans count characters. Seen from outside, a place in a text is a byte
offset into its UTF-8 form, and this file states the scans in those terms.

An offset inside a character stands for that character, which never starts a
literal, is no bracket and ends no statement.
-/

namespace Recast.Text

/-- Byte offset of the character at position `i`. -/
def byteOffset (text : List Char) (i : Nat) : Nat := byteLength (text.take i)

/-- Position of the character that holds the byte at `offset`. -/
def positionAt : List Char → Nat → Nat
  | [], _ => 0
  | c :: r, offset => if offset < c.utf8Size then 0 else positionAt r (offset - c.utf8Size) + 1

def charBefore? (text : List Char) : Nat → Option Char
  | 0 => none
  | i + 1 => text[i]?

/-- Byte offset just past the literal or comment that starts at `offset`. -/
def literalEndAt? (text : List Char) (offset : Nat) : Option Nat :=
  let i := positionAt text offset
  if byteOffset text i != offset then none
  else (literal? (charBefore? text i) (text.drop i)).map fun (_, n) => byteOffset text (i + n)

/-- Byte offset of the bracket closing the one at `offset`. -/
def partnerAt? (text : List Char) (offset : Nat) : Option Nat :=
  let i := positionAt text offset
  if byteOffset text i != offset then none
  else (partner? (text.drop i)).map fun n => byteOffset text (i + n)

/-- Byte offset of the end of the statement that starts at `offset`. -/
def statementEndAt (text : List Char) (offset : Nat) : Nat :=
  let i := positionAt text offset
  byteOffset text (i + statementLength (charBefore? text i) (text.drop i))

def topLevelWordOffsets (text word : List Char) : List Nat :=
  (topLevelWords text word).map (byteOffset text)

end Recast.Text
