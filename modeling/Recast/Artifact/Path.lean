import Recast.Text.Lines
import Recast.Text.Search

/-!
# Paths

A path is read as a list of segments. Empty segments vanish, and so does a dot
except where the path starts with it.
-/

namespace Recast

inductive Segment
  | root
  | here
  | up
  | name (text : List Char)
  deriving DecidableEq, Repr

namespace Segment

def text : Segment → List Char
  | root => ['/']
  | here => ['.']
  | up => ['.', '.']
  | name n => n

/-- The segment that stands after a separator. -/
def inner? (piece : List Char) : Option Segment :=
  if piece.isEmpty || piece == ['.'] then none
  else if piece == ['.', '.'] then some up
  else some (name piece)

/-- The segments of a path. -/
def ofPath (path : List Char) : List Segment :=
  match path with
  | '/' :: r => root :: (Text.splitOn '/' r).filterMap inner?
  | _ =>
    match Text.splitOn '/' path with
    | [] => []
    | first :: rest =>
      (if first == ['.'] then some here else inner? first).toList ++ rest.filterMap inner?

/-- The segments of the directory that holds the path. The root has none. -/
def parent (path : List Segment) : List Segment :=
  if path.getLast? == some root then [] else path.dropLast

/-- The name of the file, if the path ends in one. -/
def fileName? (path : List Segment) : Option (List Char) :=
  match path.getLast? with
  | some (name n) => some n
  | _ => none

/-- A file name without its last extension. A dot at the start begins no extension. -/
def stemOf (fileName : List Char) : List Char :=
  match Text.indexOf? fileName.reverse ['.'] with
  | none => fileName
  | some i =>
    let stem := fileName.take (fileName.length - 1 - i)
    if stem.isEmpty then fileName else stem

def stem (path : List Segment) : List Char := ((fileName? path).map stemOf).getD []

def joinAll (path : List Segment) : List Char := Text.joinWith ['/'] (path.map text)

/-- The length of the longest common start. -/
def commonLength : List Segment → List Segment → Nat
  | a :: as, b :: bs => if a == b then commonLength as bs + 1 else 0
  | _, _ => 0

/-- The way from one directory to another: up to their common start, then down. -/
def between (source target : List Segment) : List (List Char) :=
  let common := commonLength source target
  List.replicate (source.length - common) up.text ++ (target.drop common).map text

/-- The specifier under which the file at `source` imports the module at `target`. -/
def importPath (source target : List Segment) : List Char :=
  let joined := Text.joinWith ['/'] (between (parent source) (parent target) ++ [stem target])
  if Text.startsWith joined up.text then joined else "./".toList ++ joined

end Segment

end Recast

/-!
## Paths as they are written

A path that is joined to another or shortened keeps its spelling: separators that
stand twice and dots within it stay.
-/

namespace Recast.Path

open Text

/-- Whether a piece between separators leads nowhere. -/
def isInert (piece : List Char) : Bool := piece.isEmpty || piece == ['.']

/-- The pieces before the last one that leads somewhere. -/
def init? (pieces : List (List Char)) : Option (List (List Char)) :=
  match pieces.reverse.dropWhile isInert with
  | [] => none
  | _ :: before => some (before.dropWhile isInert).reverse

/-- The directory that holds the path. The root and the empty path have none. -/
def parent? (path : List Char) : Option (List Char) :=
  match path with
  | '/' :: r => (init? (splitOn '/' r)).map fun pieces => '/' :: joinWith ['/'] pieces
  | _ =>
    let pieces := splitOn '/' path
    match init? pieces.tail with
    | some before => some (joinWith ['/'] (pieces.headD [] :: before))
    | none => if (pieces.headD []).isEmpty then none else some []

def isAbsolute (path : List Char) : Bool := path.head? == some '/'

/-- The path taken from a directory. An absolute path stands for itself. -/
def join (dir path : List Char) : List Char :=
  if isAbsolute path || dir.isEmpty then path
  else if dir.getLast? == some '/' then dir ++ path
  else dir ++ '/' :: path

end Recast.Path
