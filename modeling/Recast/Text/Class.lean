/-!
# Character classes

Identifiers and statement layout are read with ASCII classes. Blankness is the
Unicode White_Space property.
-/

namespace Recast.Text

def isIdentChar (c : Char) : Bool := c.isAlphanum || c == '_' || c == '$'

def isIdentStart (c : Char) : Bool := c.isAlpha || c == '_' || c == '$'

theorem isIdentChar_of_start {c : Char} (h : isIdentStart c = true) : isIdentChar c = true := by
  simp only [isIdentStart, isIdentChar, Char.isAlphanum, Bool.or_eq_true] at h ⊢
  rcases h with (h | h) | h <;> simp [h]

/-- Tab, line feed, form feed, carriage return and space. -/
def isAsciiBlank (c : Char) : Bool :=
  c == ' ' || c == '\t' || c == '\n' || c == '\r' || c == '\x0c'

/-- Unicode White_Space. -/
def isBlank (c : Char) : Bool :=
  let n := c.toNat
  (0x9 ≤ n && n ≤ 0xD) || n == 0x20 || n == 0x85 || n == 0xA0 || n == 0x1680 ||
    (0x2000 ≤ n && n ≤ 0x200A) || n == 0x2028 || n == 0x2029 || n == 0x202F ||
    n == 0x205F || n == 0x3000

/-- The name is not empty, starts with no digit and holds ASCII name characters only. -/
def isIdentifier : List Char → Bool
  | [] => false
  | c :: r => isIdentStart c && r.all isIdentChar

def isBlankText (cs : List Char) : Bool := cs.all isBlank

def trimStart (cs : List Char) : List Char := cs.dropWhile isBlank

def trimEnd (cs : List Char) : List Char := (cs.reverse.dropWhile isBlank).reverse

def trim (cs : List Char) : List Char := trimEnd (trimStart cs)

end Recast.Text
