import Recast.Text.Class

/-!
# Lines and indentation

A line ends at a line feed, and one carriage return before it belongs to the
line break. `dedent` removes the indentation that all lines share and the blank
lines around the text.
-/

namespace Recast.Text

def lines : List Char → List (List Char)
  | [] => []
  | '\n' :: r => [] :: lines r
  | '\r' :: '\n' :: r => [] :: lines r
  | c :: r =>
    match lines r with
    | [] => [[c]]
    | l :: ls => (c :: l) :: ls

def joinWith (sep : List Char) : List (List Char) → List Char
  | [] => []
  | [l] => l
  | l :: ls => l ++ sep ++ joinWith sep ls

def joinLines (ls : List (List Char)) : List Char := joinWith ['\n'] ls

/-- Number of spaces and tabs the line starts with. -/
def indentation (line : List Char) : Nat := (line.takeWhile fun c => c == ' ' || c == '\t').length

/-- The lines from the first that is not blank to the last. -/
def trimBlankLines (ls : List (List Char)) : List (List Char) :=
  ((ls.dropWhile isBlankText).reverse.dropWhile isBlankText).reverse

/-- The indentation that all lines share, blank lines aside. -/
def margin (ls : List (List Char)) : Nat :=
  (((ls.filter (!isBlankText ·)).map indentation).min?).getD 0

def dedentLine (n : Nat) (line : List Char) : List Char :=
  if isBlankText line then [] else trimEnd (line.drop n)

/-- The lines without surrounding blank lines and without the indentation they
share. A blank line is left empty. -/
def dedent (text : List Char) : List Char :=
  let ls := trimBlankLines (lines text)
  joinLines (ls.map (dedentLine (margin ls)))

/-- The lines, each moved right by `n` spaces. An empty line stays empty. -/
def indent (n : Nat) (text : List Char) : List Char :=
  joinLines ((lines text).map fun l => if l.isEmpty then l else List.replicate n ' ' ++ l)

end Recast.Text
