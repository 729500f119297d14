import Recast.Text.Literal

/-!
# Brackets

Three kinds of brackets nest in source text. Literals and comments are skipped
before anything is counted, so a bracket in a string never opens a level.
-/

namespace Recast.Text

inductive Bracket
  | round
  | square
  | curly
  deriving DecidableEq, Repr

namespace Bracket

def opener : Bracket → Char
  | .round => '('
  | .square => '['
  | .curly => '{'

def closer : Bracket → Char
  | .round => ')'
  | .square => ']'
  | .curly => '}'

def ofOpener? : Char → Option Bracket
  | '(' => some .round
  | '[' => some .square
  | '{' => some .curly
  | _ => none

def ofCloser? : Char → Option Bracket
  | ')' => some .round
  | ']' => some .square
  | '}' => some .curly
  | _ => none

theorem ofOpener?_opener (b : Bracket) : ofOpener? b.opener = some b := by cases b <;> rfl

theorem ofCloser?_closer (b : Bracket) : ofCloser? b.closer = some b := by cases b <;> rfl

end Bracket

def isOpener (c : Char) : Bool := (Bracket.ofOpener? c).isSome

def isCloser (c : Char) : Bool := (Bracket.ofCloser? c).isSome

/-- The characters close the open brackets `st`, innermost first, and all they open. -/
def nests : List Bracket → List Char → Bool
  | st, [] => st.isEmpty
  | st, c :: r =>
    match Bracket.ofOpener? c, Bracket.ofCloser? c with
    | some b, _ => nests (b :: st) r
    | none, none => nests st r
    | none, some b =>
      match st with
      | [] => false
      | b' :: st' => b == b' && nests st' r

def isBalanced (text : List Char) : Bool := nests [] (mark text).code

/-- Position of the bracket that brings `depth` open brackets of the kind `b`
down to none. Brackets of other kinds do not count. -/
def closerIndex? (b : Bracket) : Nat → Marked → Option Nat
  | _, [] => none
  | depth, (c, l) :: r =>
    if l == .code && c == b.opener then (closerIndex? b (depth + 1) r).map (· + 1)
    else if l == .code && c == b.closer then
      if depth ≤ 1 then some 0 else (closerIndex? b (depth - 1) r).map (· + 1)
    else (closerIndex? b depth r).map (· + 1)

/-- Position of the bracket that closes the one the text starts with. -/
def partner? : List Char → Option Nat
  | [] => none
  | c :: r => do
    let b ← Bracket.ofOpener? c
    let i ← closerIndex? b 1 (markAfter (some c) r)
    return i + 1

/-- Splits a text that starts with a bracket into what that bracket encloses and
what follows its partner. -/
def enclosed? (text : List Char) : Option (List Char × List Char) :=
  (partner? text).map fun i => ((text.take i).drop 1, text.drop (i + 1))

end Recast.Text
