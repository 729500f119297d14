import Recast.Text.Bracket
import Recast.Text.Lines
import Recast.Text.Search

/-!
# Free names

The names that an expression takes from around it, for the dependency list of a
hook. The scan is lexical: names are read outside string literals, those that the
expression binds are left out wherever they stand, and so are member names, object
keys, capitalized names and names that are always there.
-/

namespace Recast.FreeNames

open Text

/-- Keywords and globals, never a dependency. -/
def ambient : List (List Char) :=
  (["async", "await", "break", "case", "catch", "class", "const", "continue", "default", "delete",
    "do", "else", "false", "finally", "for", "function", "if", "in", "instanceof", "let", "new",
    "null", "of", "return", "switch", "this", "throw", "true", "try", "typeof", "undefined", "var",
    "void", "while", "yield", "as", "console", "window", "document", "navigator", "localStorage",
    "sessionStorage", "fetch", "setTimeout", "clearTimeout", "setInterval", "clearInterval",
    "requestAnimationFrame", "parseInt", "parseFloat", "isNaN", "encodeURIComponent",
    "decodeURIComponent", "structuredClone", "globalThis", "event"] : List String).map (·.toList)

/-- A name with its place in the expression. -/
structure Token where
  word : List Char
  start : Nat
  stop : Nat
  deriving DecidableEq, Repr

mutual

/-- The names in the text, which starts at position `pos` after the character `prev`. A
run of name characters that starts with a digit is no name. -/
def tokensFrom (prev : Option Char) (pos : Nat) (text : List Char) : List Token :=
  match text with
  | [] => []
  | '`' :: r =>
    let n := templateLength r
    interpolated (pos + 1) n r ++ tokensFrom (some '`') (pos + 1 + n) (r.drop n)
  | c :: r =>
    match literal? prev (c :: r) with
    | some (_, n) => tokensFrom ((c :: r)[n - 1]?) (pos + n) (r.drop (n - 1))
    | none =>
      if isIdentChar c then
        let more := r.takeWhile isIdentChar
        let stop := pos + 1 + more.length
        let rest := tokensFrom (c :: more).getLast? stop (r.drop more.length)
        if c.isDigit then rest else ⟨c :: more, pos, stop⟩ :: rest
      else tokensFrom (some c) (pos + 1) r
  termination_by (text.length, 1)
  decreasing_by
    all_goals simp only [List.length_cons, List.length_drop, Prod.lex_def]; omega

/-- The names in the interpolations of a template of which `n` characters are left. An
interpolation runs to the partner of its brace. -/
def interpolated (pos n : Nat) (text : List Char) : List Token :=
  match n, text with
  | n + 2, '\\' :: _ :: r => interpolated (pos + 2) n r
  | n + 2, '$' :: '{' :: r =>
    match closerIndex? .curly 1 (markAfter (some '{') r) with
    | some k =>
      tokensFrom none (pos + 2) (r.take k) ++
        interpolated (pos + 2 + k + 1) (n - (k + 1)) (r.drop (k + 1))
    | none => interpolated (pos + 1) (n + 1) ('{' :: r)
  | n + 2, _ :: r => interpolated (pos + 1) (n + 1) r
  | _, _ => []
  termination_by (text.length, 0)
  decreasing_by
    all_goals simp only [List.length_cons, List.length_drop, List.length_take, Prod.lex_def]; omega

end

def tokens (expr : List Char) : List Token := tokensFrom none 0 expr

/-- The last character before position `pos` that is not blank. -/
def significantBefore? (expr : List Char) (pos : Nat) : Option Char :=
  ((expr.take pos).reverse.dropWhile isAsciiBlank).head?

/-- The first character from position `pos` on that is not blank. -/
def significantAt? (expr : List Char) (pos : Nat) : Option Char :=
  ((expr.drop pos).dropWhile isAsciiBlank).head?

/-- An arrow follows position `pos`. -/
def arrowAt (expr : List Char) (pos : Nat) : Bool :=
  startsWith (trimStart (expr.drop pos)) "=>".toList

def declaringWords : List (List Char) := ["const", "let", "var", "function"].map (·.toList)

/-- Names that follow a declaring word or precede an arrow. -/
def boundByWord (expr : List Char) : List Token → List (List Char)
  | [] => []
  | t :: ts =>
    (if declaringWords.contains t.word then (ts.head?.map (·.word)).toList else []) ++
      (if arrowAt expr t.stop then [t.word] else []) ++ boundByWord expr ts

/-- The spans of the brackets before an arrow, from the bracket to its partner. -/
def parameterSpans (expr : List Char) : List (Nat × Nat) :=
  (List.range expr.length).filterMap fun i =>
    if expr[i]? == some '(' then
      match partner? (expr.drop i) with
      | some n => if arrowAt expr (i + n + 1) then some (i, i + n) else none
      | none => none
    else none

/-- The names between the brackets, default values aside. -/
def boundIn (expr : List Char) (ts : List Token) (span : Nat × Nat) : List (List Char) :=
  (ts.filter fun t =>
    span.1 < t.start && t.stop ≤ span.2 && significantBefore? expr t.start != some '=').map (·.word)

/-- The names that the expression binds. -/
def bound (expr : List Char) (ts : List Token) : List (List Char) :=
  boundByWord expr ts ++ (parameterSpans expr).flatMap (boundIn expr ts)

def isMember (expr : List Char) (t : Token) : Bool :=
  let before := expr.take t.start
  before.getLast? == some '.' && !endsWith before "...".toList

def isKey (expr : List Char) (t : Token) : Bool :=
  significantAt? expr t.stop == some ':' &&
    (significantBefore? expr t.start).any fun c => c == '{' || c == ','

def isFree (expr : List Char) (bound : List (List Char)) (t : Token) : Bool :=
  !ambient.contains t.word && !bound.contains t.word && !t.word.head?.any Char.isUpper &&
    !isMember expr t && !isKey expr t

def addOnce (names : List (List Char)) (w : List Char) : List (List Char) :=
  if names.contains w then names else names ++ [w]

/-- The free names of the expression in order of first use. -/
def ofExpr (expr : List Char) : List (List Char) :=
  let ts := tokens expr
  ((ts.filter (isFree expr (bound expr ts))).map (·.word)).foldl addOnce []

/-- The free names as a dependency list. -/
def dependencyList (expr : List Char) : List Char :=
  '[' :: joinWith ", ".toList (ofExpr expr) ++ [']']

end Recast.FreeNames
