import Recast.Text.Lines

/-!
# Cases of compound names

A name falls into words at every character that is no ASCII letter or digit, before
a capital after a small letter or a digit, and before the last capital of a
run that a small letter follows. The three spellings are made from the words.
-/

namespace Recast.Text

/-- A word starts at the capital `c`, after the word `cur` (last character first)
and before `next`. -/
def startsWord (cur : List Char) (c : Char) (next : Option Char) : Bool :=
  c.isUpper && !cur.isEmpty &&
    (cur.head?.any (fun p => p.isLower || p.isDigit) || next.any Char.isLower)

/-- The words of the text, where `cur` is the word begun before it, last character
first. -/
def wordsFrom (cur : List Char) : List Char → List (List Char)
  | [] => if cur.isEmpty then [] else [cur.reverse]
  | c :: r =>
    if !c.isAlphanum then
      if cur.isEmpty then wordsFrom [] r else cur.reverse :: wordsFrom [] r
    else if startsWord cur c r.head? then cur.reverse :: wordsFrom [c] r
    else wordsFrom (c :: cur) r

def words (text : List Char) : List (List Char) := wordsFrom [] text

def capitalize : List Char → List Char
  | [] => []
  | c :: r => c.toUpper :: r

def lowercase (text : List Char) : List Char := text.map Char.toLower

/-- The spelling `UserProfile`. -/
def pascalCase (text : List Char) : List Char := (words text).flatMap capitalize

/-- The spelling `userProfile`. -/
def camelCase (text : List Char) : List Char :=
  match words text with
  | [] => []
  | w :: ws => lowercase w ++ ws.flatMap capitalize

/-- The spelling `user-profile`. -/
def kebabCase (text : List Char) : List Char := joinWith ['-'] ((words text).map lowercase)

end Recast.Text
