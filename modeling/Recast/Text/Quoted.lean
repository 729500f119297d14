import Recast.Text.Literal

/-!
# Single-quoted text

The contents of a single-quoted literal: a backslash, a quote and a line break are
escaped. In the title of a scenario a line break becomes a space.
-/

namespace Recast.Text

def quotedChar : Char → List Char
  | '\\' => ['\\', '\\']
  | '\'' => ['\\', '\'']
  | '\n' => ['\\', 'n']
  | c => [c]

def escapeQuoted (text : List Char) : List Char := text.flatMap quotedChar

def titleChar : Char → List Char
  | '\n' => [' ']
  | c => quotedChar c

/-- The text on one line, as the title of a scenario. -/
def escapeTitle (text : List Char) : List Char := text.flatMap titleChar

end Recast.Text
