import Recast.Text.Bracket
import Recast.Text.Lines

/-!
# Statements

A statement ends after its semicolon, before a bracket it did not open, or at a
line break where a value has ended and the next line does not carry on with an
operator or a member.
-/

namespace Recast.Text

/-- A line break after this character may end a statement. -/
def endsValue (c : Char) : Bool :=
  isIdentChar c || c == ')' || c == ']' || c == '}' || c == '\'' || c == '"' || c == '`'

/-- A line that starts with this character belongs to the statement before it. -/
def continuesValue (c : Char) : Bool :=
  ['.', '?', ':', '&', '|', '+', '-', '*', '/', '=', ','].contains c

def carriesOn (rest : List Char) : Bool := (rest.dropWhile isAsciiBlank).head?.any continuesValue

/-- Length of the statement inside `depth` brackets, where `last` is the last
character before it that is not blank. -/
def statementLengthFrom : Nat → Option Char → Marked → Nat
  | _, _, [] => 0
  | depth, last, (c, l) :: r =>
    if l != .code then statementLengthFrom depth (some c) r + 1
    else if isOpener c then statementLengthFrom (depth + 1) (some c) r + 1
    else if isCloser c then
      if depth == 0 then 0 else statementLengthFrom (depth - 1) (some c) r + 1
    else if c == ';' && depth == 0 then 1
    else if c == '\n' && depth == 0 && last.any endsValue && !carriesOn (r.map Prod.fst) then 0
    else statementLengthFrom depth (if isAsciiBlank c then last else some c) r + 1

/-- Length of the statement the text after `prev` starts with. -/
def statementLength (prev : Option Char) (text : List Char) : Nat :=
  statementLengthFrom 0 none (markAfter prev text)

end Recast.Text

/-!
## Blocks of code

A block of code is read as its statements in order. Blanks and semicolons between
statements are dropped, and every statement loses its indentation.
-/

namespace Recast.Statements

open Text

/-- The length of the first statement, at least one character. -/
def firstLength (prev : Option Char) (text : List Char) : Nat := max (statementLength prev text) 1

def readFrom (prev : Option Char) : List Char → List (List Char)
  | [] => []
  | c :: r =>
    if isAsciiBlank c || c == ';' then readFrom (some c) r
    else
      let n := firstLength prev (c :: r)
      let statement := dedent ((c :: r).take n)
      let rest := readFrom ((c :: r).take n).getLast? ((c :: r).drop n)
      if statement.isEmpty then rest else statement :: rest
  termination_by text => text.length
  decreasing_by
    · simp
    · simp only [List.length_drop, List.length_cons, firstLength]; omega

/-- The statements of a block of code. -/
def read (code : List Char) : List (List Char) := readFrom none code

end Recast.Statements
