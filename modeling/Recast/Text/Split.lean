import Recast.Text.Bracket

/-!
# Splitting outside brackets

A list of arguments, entries or alternatives is cut at the separators that
stand outside every bracket, literal and comment.
-/

namespace Recast.Text

/-- The pieces between the separators at depth zero, blank ones included. A
bracket is never a separator. -/
def rawPieces (sep : Char) : Int → Marked → List (List Char)
  | _, [] => [[]]
  | depth, (c, l) :: r =>
    let keep (d : Int) : List (List Char) :=
      match rawPieces sep d r with
      | [] => [[c]]
      | p :: ps => (c :: p) :: ps
    if l != .code then keep depth
    else if isOpener c then keep (depth + 1)
    else if isCloser c then keep (depth - 1)
    else if c == sep && depth == 0 then [] :: rawPieces sep depth r
    else keep depth

/-- The pieces of the text that are not blank. -/
def splitTopLevel (sep : Char) (text : List Char) : List (List Char) :=
  (rawPieces sep 0 (mark text)).filter (!isBlankText ·)

end Recast.Text
