import Recast.Text.Bracket
import Recast.Text.Search

/-!
# Whole words

A word stands on its own where neither neighbour is a name character.
-/

namespace Recast.Text

/-- The text after `prev` starts with `word` and no name character touches it. -/
def startsWithWord (prev : Option Char) (text word : List Char) : Bool :=
  !prev.any isIdentChar && (dropPrefix? word text).any fun rest => !rest.head?.any isIdentChar

/-- Counts the whole words among the occurrences of `word` that do not overlap,
after skipping `n` characters. -/
def countWordFrom (word : List Char) : Option Char → Nat → List Char → Nat
  | _, _, [] => 0
  | _, n + 1, c :: r => countWordFrom word (some c) n r
  | prev, 0, c :: r =>
    let skip := if startsWith (c :: r) word then word.length - 1 else 0
    let hit := if startsWithWord prev (c :: r) word then 1 else 0
    countWordFrom word (some c) skip r + hit

/-- Occurrences of `word` as a whole word. -/
def countWord (text word : List Char) : Nat :=
  if word.isEmpty then 0 else countWordFrom word none 0 text

def hasWord (text word : List Char) : Bool := countWord text word != 0

/-- Positions of the whole word `word` outside brackets and literals, counted from
`pos`, after skipping `n` characters. -/
def topLevelWordsFrom (word : List Char) :
    Nat → Int → Option Char → Nat → List Char → List Nat
  | _, _, _, _, [] => []
  | pos, depth, _, n + 1, c :: r => topLevelWordsFrom word (pos + 1) depth (some c) n r
  | pos, depth, prev, 0, c :: r =>
    match literal? prev (c :: r) with
    | some (_, n) => topLevelWordsFrom word (pos + 1) depth (some c) (n - 1) r
    | none =>
      if isOpener c then topLevelWordsFrom word (pos + 1) (depth + 1) (some c) 0 r
      else if isCloser c then topLevelWordsFrom word (pos + 1) (depth - 1) (some c) 0 r
      else if depth == 0 && startsWithWord prev (c :: r) word then
        pos :: topLevelWordsFrom word (pos + 1) depth (some c) (word.length - 1) r
      else topLevelWordsFrom word (pos + 1) depth (some c) 0 r

/-- Positions of the whole word `word` outside brackets and literals. The empty
word has none. -/
def topLevelWords (text word : List Char) : List Nat :=
  if word.isEmpty then [] else topLevelWordsFrom word 0 0 none 0 text

end Recast.Text
