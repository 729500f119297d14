import Recast.Component.Basic
import Recast.Text.Cut
import Recast.Text.Split

/-!
# Entries of object patterns and literals

An entry is a key with an optional value: `a`, `b = 1`, `c: 2`, `d: e = 3`. The
value of a renamed entry is its default.

The value starts one separator after the first piece that is not blank, counted in
bytes from the start of the entry. Where blank pieces come first, that place may
lie inside a character, and then the entries cannot be read.
-/

namespace Recast

structure Entry where
  key : List Char
  value? : Option (List Char)
  deriving DecidableEq, Repr

namespace Entry

open Text

/-- The text past the piece and one separator. -/
def afterPiece (piece text : List Char) : Except Fault (List Char) :=
  dropBytes (byteLength piece + 1) text

/-- The key and the value of an entry, by a colon or an equals sign, whichever
comes first. -/
def cut (entry : List Char) : Except Fault (List Char × Option (List Char)) :=
  match splitTopLevel ':' entry, splitTopLevel '=' entry with
  | c :: _ :: _, e :: es =>
    if byteLength c < byteLength e then
      return (trim c, some (trim (← afterPiece c entry)))
    else if es.isEmpty then return (entry, none)
    else return (trim e, some (trim (← afterPiece e entry)))
  | _, e :: _ :: _ => return (trim e, some (trim (← afterPiece e entry)))
  | _, _ => return (entry, none)

/-- The default inside the value of a renamed entry. -/
def defaultIn (value : List Char) : Except Fault (List Char) :=
  match splitTopLevel '=' value with
  | name :: _ :: _ =>
    if isIdentifier (trim name) && !contains value "=>".toList then
      return trim (← afterPiece name value)
    else return value
  | _ => return value

def isQuote (c : Char) : Bool := c == '\'' || c == '"'

/-- The entry, unless its key is not a name. -/
def read (entry : List Char) : Except Fault (Option Entry) := do
  let (key, value?) ← cut entry
  let value? ←
    match value? with
    | none => pure none
    | some v => pure (some (← defaultIn v))
  let key := dropEndWhile isQuote (key.dropWhile isQuote)
  return if isIdentifier key then some ⟨key, value?⟩ else none

/-- The entries between the braces. Spread entries are left out. -/
def all (inner : List Char) : Except Fault (List Entry) := do
  let entries := (splitTopLevel ',' inner).map trim
  let read ← (entries.filter (!startsWith · "...".toList)).mapM read
  return read.filterMap id

end Entry

end Recast
