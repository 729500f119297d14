import Recast.Text.Class

/-!
# Literals and comments

A scan of source text skips string literals, template literals and comments
whole. `mark` labels each character with the part of the text it lies in, and
the bracket, splitting and statement functions read nothing but these labels.

An unclosed comment or template runs to the end of the text. An unclosed string
is no literal, and neither is a quote glued to a word, which is prose.
-/

namespace Recast.Text

inductive Label
  | code
  | comment
  | quoted
  deriving DecidableEq, Repr

/-- What is left of a block comment, its end mark included. -/
def blockCommentLength : List Char → Nat
  | [] => 0
  | '*' :: '/' :: _ => 2
  | _ :: r => blockCommentLength r + 1

/-- What is left of a template literal, the closing tick included. -/
def templateLength : List Char → Nat
  | [] => 0
  | '\\' :: [] => 1
  | '\\' :: _ :: r => templateLength r + 2
  | '`' :: _ => 1
  | _ :: r => templateLength r + 1

/-- What is left of a string literal closed by `q` on its own line. -/
def stringLength? (q : Char) : List Char → Option Nat
  | [] => none
  | '\\' :: [] => none
  | '\\' :: _ :: r => (stringLength? q r).map (· + 2)
  | c :: r =>
    if c == '\n' then none
    else if c == q then some 1
    else (stringLength? q r).map (· + 1)

/-- The label and the length of the literal or comment the text starts with,
after the character `prev`. -/
def literal? (prev : Option Char) : List Char → Option (Label × Nat)
  | '/' :: '/' :: r => some (.comment, (r.takeWhile (· != '\n')).length + 2)
  | '/' :: '*' :: r => some (.comment, blockCommentLength r + 2)
  | '`' :: r => some (.quoted, templateLength r + 1)
  | c :: r =>
    if (c == '\'' || c == '"') && !prev.any isIdentChar then
      (stringLength? c r).map fun n => (.quoted, n + 1)
    else none
  | [] => none

abbrev Marked := List (Char × Label)

/-- Labels the text after `prev`, whose first `n` characters are known to carry
the label `l`. -/
def markFrom (prev : Option Char) (l : Label) : Nat → List Char → Marked
  | _, [] => []
  | n + 1, c :: r => (c, l) :: markFrom (some c) l n r
  | 0, c :: r =>
    match literal? prev (c :: r) with
    | some (l', n + 1) => (c, l') :: markFrom (some c) l' n r
    | _ => (c, .code) :: markFrom (some c) .code 0 r

def markAfter (prev : Option Char) (text : List Char) : Marked := markFrom prev .code 0 text

def mark (text : List Char) : Marked := markAfter none text

theorem map_fst_markFrom (prev : Option Char) (l : Label) (n : Nat) (text : List Char) :
    (markFrom prev l n text).map Prod.fst = text := by
  induction text generalizing prev l n with
  | nil => cases n <;> simp [markFrom]
  | cons c r ih =>
    cases n with
    | succ n => simp [markFrom, ih]
    | zero =>
      simp only [markFrom]
      split <;> simp [ih]

@[simp] theorem map_fst_mark (text : List Char) : (mark text).map Prod.fst = text :=
  map_fst_markFrom ..

/-- The characters outside literals and comments. -/
def Marked.code (m : Marked) : List Char := (m.filter (·.2 == .code)).map Prod.fst

/-- Number of characters up to the first that satisfies `p` outside literals. -/
def Marked.indexOfCode? (p : Char → Bool) : Marked → Option Nat
  | [] => none
  | (c, l) :: r => if l == .code && p c then some 0 else (Marked.indexOfCode? p r).map (· + 1)

/-- A comment becomes blanks of the same byte length and keeps its line breaks. -/
def blankComments (text : List Char) : List Char :=
  (mark text).flatMap fun (c, l) =>
    if l == .comment && c != '\n' then List.replicate c.utf8Size ' ' else [c]

end Recast.Text
