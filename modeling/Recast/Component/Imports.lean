import Recast.Component.Basic
import Recast.Pattern.Component

/-!
# Imports

Each import line gives one binding for every name in its clause. A line without a
clause is imported for its effect.
-/

namespace Recast.ImportBinding

open Text

/-- The part of an import clause before its braces, and the part inside. -/
def clauseParts (clause : List Char) : List Char × Option (List Char) :=
  match indexOf? clause ['{'] with
  | none => (clause, none)
  | some i =>
    let after := clause.drop (i + 1)
    let inside :=
      match indexOf? clause.reverse ['}'] with
      | none => after
      | some k => after.take (clause.length - 1 - k - (i + 1))
    (clause.take i, some inside)

def pieces (text : List Char) : List (List Char) :=
  ((splitOn ',' text).map trim).filter (!·.isEmpty)

def ofHeadPiece (origin : String) (piece : List Char) : ImportBinding :=
  match dropPrefix? "* as ".toList piece with
  | some name => ⟨String.ofList (trim name), origin, .wholeModule⟩
  | none => ⟨String.ofList piece, origin, .default⟩

def ofClause (origin : String) (clause : List Char) : List ImportBinding :=
  let (head, named) := clauseParts clause
  (pieces head).map (ofHeadPiece origin) ++
    ((named.map pieces).getD []).map fun p => ⟨String.ofList p, origin, .named⟩

/-- The bindings that the text imports, line by line. -/
def all (text : List Char) : List ImportBinding :=
  (Pattern.Component.importLine.matchesOf text).flatMap fun m =>
    let origin := String.ofList (m.groupText text 2)
    match m.groupText? text 1 with
    | none => [⟨origin, origin, .sideEffect⟩]
    | some clause => ofClause origin (trim clause)

end Recast.ImportBinding
