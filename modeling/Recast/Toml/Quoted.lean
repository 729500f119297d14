import Recast.Text.Search
import Recast.Toml.Scalar

/-!
# Quoted values

A string stands in double quotes, where a backslash begins an escape, or in single
quotes, where nothing does. Three quotes hold more than one line. A line end
right after them is dropped, and one or two quotes may stand right before the
closing ones.
-/

namespace Recast.Toml

open Text

/-- Controls other than a tab may not be written as themselves. -/
def isForbidden (c : Char) : Bool := (c.toNat < 0x20 && c != '\t') || c.toNat == 0x7F

/-- The character of a code in base sixteen. -/
def coded? (ds : List Char) : Option Char :=
  let n := valueIn 16 ds
  if ds.all isHex && n.isValidChar then some (Char.ofNat n) else none

/-- An escape of `n` digits after its mark. -/
def codeEscape? (n : Nat) (r : List Char) : Option (List Char × Nat) :=
  if (r.take n).length == n then (coded? (r.take n)).map fun c => ([c], n + 1) else none

/-- Length of the blanks and line ends at the start. -/
def layoutLength : List Char → Nat
  | ' ' :: r | '\t' :: r | '\n' :: r => layoutLength r + 1
  | '\r' :: '\n' :: r => layoutLength r + 2
  | _ => 0

def startsLine : List Char → Bool
  | '\n' :: _ | '\r' :: '\n' :: _ => true
  | _ => false

/-- What the text after a backslash stands for and how many of its characters do so.
Where lines may end, a backslash before a line end takes all layout with it. -/
def escape? (multiline : Bool) : List Char → Option (List Char × Nat)
  | 'b' :: _ => some (['\x08'], 1)
  | 't' :: _ => some (['\t'], 1)
  | 'n' :: _ => some (['\n'], 1)
  | 'f' :: _ => some (['\x0c'], 1)
  | 'r' :: _ => some (['\r'], 1)
  | 'e' :: _ => some (['\x1b'], 1)
  | '"' :: _ => some (['"'], 1)
  | '\\' :: _ => some (['\\'], 1)
  | 'x' :: r => codeEscape? 2 r
  | 'u' :: r => codeEscape? 4 r
  | 'U' :: r => codeEscape? 8 r
  | r =>
    if multiline && startsLine (r.dropWhile fun c => c == ' ' || c == '\t') then
      some ([], layoutLength r)
    else none

def keeps (multiline : Bool) (c : Char) (r : List Char) : Bool :=
  !isForbidden c || (multiline && (c == '\n' || startsLine (c :: r)))

/-- The text with its escapes replaced, after dropping `n` characters. -/
def unescape (multiline : Bool) : Nat → List Char → Option (List Char)
  | _, [] => some []
  | n + 1, _ :: r => unescape multiline n r
  | 0, c :: r =>
    if c == '\\' then
      match escape? multiline r with
      | none => none
      | some (cs, n) => (unescape multiline n r).map (cs ++ ·)
    else if keeps multiline c r then (unescape multiline 0 r).map (c :: ·)
    else none

/-- A text without escapes, if all of it may be written as itself. -/
def verbatim (multiline : Bool) : List Char → Option (List Char)
  | [] => some []
  | c :: r => if keeps multiline c r then (verbatim multiline r).map (c :: ·) else none

/-- The text up to the closing quote and the text after it. A quote after a backslash
does not close where escapes count. -/
def cutQuote (quote : Char) (escapes : Bool) : Bool → List Char → Option (List Char × List Char)
  | _, [] => none
  | true, c :: r => (cutQuote quote escapes false r).map fun (s, t) => (c :: s, t)
  | false, c :: r =>
    if c == quote then some ([], r)
    else (cutQuote quote escapes (escapes && c == '\\') r).map fun (s, t) => (c :: s, t)

/-- The same for three closing quotes. -/
def cutQuotes (quote : Char) (escapes : Bool) : Bool → List Char → Option (List Char × List Char)
  | _, [] => none
  | true, c :: r => (cutQuotes quote escapes false r).map fun (s, t) => (c :: s, t)
  | false, c :: r =>
    let run := ((c :: r).takeWhile (· == quote)).length
    if 3 ≤ run then
      let inside := min (run - 3) 2
      some (List.replicate inside quote, (c :: r).drop (inside + 3))
    else (cutQuotes quote escapes (escapes && c == '\\') r).map fun (s, t) => (c :: s, t)

def dropLineEnd : List Char → List Char
  | '\n' :: r | '\r' :: '\n' :: r => r
  | r => r

def unquote (quote : Char) (multiline : Bool) (body : List Char) : Option (List Char) :=
  if quote == '"' then unescape multiline 0 body else verbatim multiline body

/-- A string on one line, from after its opening quote. -/
def line? (quote : Char) (r : List Char) : Option (List Char × List Char) := do
  let (body, rest) ← cutQuote quote (quote == '"') false r
  return (← unquote quote false body, rest)

/-- A string of many lines, from after its three opening quotes. -/
def block? (quote : Char) (r : List Char) : Option (List Char × List Char) := do
  let (body, rest) ← cutQuotes quote (quote == '"') false (dropLineEnd r)
  return (← unquote quote true body, rest)

/-- A string, from its first quote. -/
def quoted? (quote : Char) (r : List Char) : Option (List Char × List Char) :=
  match r with
  | a :: b :: rest => if a == quote && b == quote then block? quote rest else line? quote r
  | _ => line? quote r

end Recast.Toml
