import Recast.Text.Lines
import Recast.Text.Search

/-!
# Style classes

Utility classes of the older style sheet are replaced one by one. A class first
goes through the palette, which replaces a theme color after a color word, and
then through the utilities. In both tables the longest entry that fits wins, and
a class that nothing fits stays as it is.
-/

namespace Recast.Style

open Text

def colorWords : List String := ["text", "bg", "btn", "border", "alert", "badge"]

/-- Theme colors, the longest first. -/
def palette : List (String × String) :=
  [("secondary", "gray-600"), ("primary", "blue-600"), ("success", "green-600"),
    ("warning", "amber-500"), ("danger", "red-600"), ("light", "gray-100"),
    ("muted", "gray-500"), ("white", "white"), ("info", "sky-500"), ("dark", "gray-900")]

/-- Utilities. An entry that ends in a hyphen replaces the start of a class, any
other the whole class. -/
def utilities : List (String × String) :=
  [("btn-outline-", "border border-"), ("btn-", "bg-"), ("btn", "px-4 py-2 rounded"),
    ("d-inline-block", "inline-block"), ("d-inline-flex", "inline-flex"), ("d-flex", "flex"),
    ("d-none", "hidden"), ("d-block", "block"), ("d-grid", "grid"), ("flex-column", "flex-col"),
    ("justify-content-", "justify-"), ("align-items-", "items-"), ("align-self-", "self-"),
    ("font-weight-bold", "font-bold"), ("fw-bold", "font-bold"), ("fw-normal", "font-normal"),
    ("fst-italic", "italic"), ("rounded-circle", "rounded-full"),
    ("rounded-pill", "rounded-full"), ("w-100", "w-full"), ("h-100", "h-full"),
    ("text-start", "text-left"), ("text-end", "text-right"), ("float-start", "float-left"),
    ("float-end", "float-right"), ("card-body", "p-4"),
    ("card", "rounded-lg border bg-white shadow-sm"), ("list-group-item", "px-4 py-2"),
    ("list-group", "divide-y rounded-lg border"),
    ("form-control", "block w-full rounded border px-3 py-2"), ("row", "flex flex-wrap"),
    ("col", "flex-1"), ("img-fluid", "max-w-full h-auto"), ("visually-hidden", "sr-only"),
    ("sr-only", "sr-only")]

/-- Replaces the first segment that is the color, after the first segment. -/
def replaceSegment (color shade : List Char) : List (List Char) → Option (List (List Char))
  | [] => none
  | s :: ss =>
    if s == color then some (shade :: ss) else (replaceSegment color shade ss).map (s :: ·)

def mapPalette (token : List Char) : List Char :=
  match splitOn '-' token with
  | [] => token
  | first :: rest =>
    if !colorWords.contains (String.ofList first) then token
    else
      match palette.findSome? fun (c, s) => replaceSegment c.toList s.toList rest with
      | some rest' => joinWith ['-'] (first :: rest')
      | none => token

/-- What the entry makes of a class that it fits. -/
def utilityFor? (token : List Char) (entry : String × String) : Option (List Char) :=
  let source := entry.1.toList
  if source.getLast? == some '-' then
    (dropPrefix? source token).map (entry.2.toList ++ ·)
  else if token == source then some entry.2.toList else none

/-- What the longest entry that fits makes of a class. -/
def longestUtility? (token : List Char) : Option (List Char) :=
  let found := utilities.filterMap fun e => (utilityFor? token e).map (e.1, ·)
  (found.foldl (fun acc c =>
    match acc with
    | some b => if b.1.length < c.1.length then some c else some b
    | none => some c) none).map (·.2)

def spacingSide : Char → Char
  | 's' => 'l'
  | 'e' => 'r'
  | c => c

def spacingSize : Char → List Char
  | '3' => ['4']
  | '4' => ['6']
  | '5' => ['1', '2']
  | c => [c]

def isSpacingSize (c : Char) : Bool := '0' ≤ c && c ≤ '5'

/-- Margins and paddings: a letter, a side or none, a hyphen and a size. -/
def spacing? : List Char → Option (List Char)
  | [kind, '-', size] =>
    if (kind == 'm' || kind == 'p') && isSpacingSize size then
      some ([kind, '-'] ++ spacingSize size)
    else none
  | [kind, side, '-', size] =>
    if (kind == 'm' || kind == 'p') && "tbsexy".toList.contains side && isSpacingSize size then
      some ([kind, spacingSide side, '-'] ++ spacingSize size)
    else none
  | _ => none

def mapUtility (token : List Char) : List Char :=
  ((longestUtility? token).or (spacing? token)).getD token

/-- What becomes of one class; it may be several. -/
def mapToken (token : List Char) : List Char := mapUtility (mapPalette token)

def addClasses (seen new : List (List Char)) : List (List Char) :=
  new.foldl (fun acc c => if acc.contains c then acc else acc ++ [c]) seen

/-- The new classes of a list in order, each once. -/
def mapClasses (classes : List Char) : List (List Char) :=
  addClasses [] ((blankSeparated classes).flatMap fun t => blankSeparated (mapToken t))

def mapList (classes : List Char) : List Char := joinWith [' '] (mapClasses classes)

end Recast.Style
