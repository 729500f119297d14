import Recast.Text.Search

/-!
# Tokens of a script

A script is cut into words, operators and line ends. Quotes and backslashes take
their meaning from the characters after them, and a word keeps what is to be
replaced in it apart from its plain text.
-/

namespace Recast.Shell

/-- A piece of a word. What is not quoted is split at blanks once it is replaced. -/
inductive Piece
  | plain (isQuoted : Bool) (text : List Char)
  | variable (isQuoted : Bool) (name : String)
  /-- The output of a script. -/
  | output (isQuoted : Bool) (script : List Char)
  deriving DecidableEq, Repr

abbrev Word := List Piece

/-- A redirection names the descriptor that it changes. -/
inductive Token
  | word (w : Word)
  | operator (text : String)
  | redirect (descriptor : Nat) (text : String)
  | lineEnd
  /-- A quote that nothing closes. -/
  | unclosed
  deriving DecidableEq, Repr

def isNameChar (c : Char) : Bool := c.isAlphanum || c == '_'

/-- A parameter of one character. -/
def isSpecial (c : Char) : Bool := c.isDigit || "?$#@*!-".toList.contains c

/-- The text up to the bracket that closes, and the text after it. -/
def cutParens : Nat → List Char → Option (List Char × List Char)
  | _, [] => none
  | depth, c :: r =>
    if c == ')' && depth == 0 then some ([], r)
    else
      let depth := if c == '(' then depth + 1 else if c == ')' then depth - 1 else depth
      (cutParens depth r).map fun (s, rest) => (c :: s, rest)

def cutAt (stop : Char) : List Char → Option (List Char × List Char)
  | [] => none
  | c :: r => if c == stop then some ([], r) else (cutAt stop r).map fun (s, rest) => (c :: s, rest)

/-- What a dollar sign begins. Alone it stands for itself. -/
def dollar? (isQuoted : Bool) (r : List Char) : Option (Piece × List Char) :=
  match r with
  | '(' :: r => (cutParens 0 r).map fun (s, rest) => (.output isQuoted s, rest)
  | c :: r' =>
    if c == Char.ofNat 0x7B then
      (cutAt (Char.ofNat 0x7D) r').map fun (s, rest) => (.variable isQuoted (.ofList s), rest)
    else if c.isAlpha || c == '_' then
      let name := r.takeWhile isNameChar
      some (.variable isQuoted (.ofList name), r.drop name.length)
    else if isSpecial c then some (.variable isQuoted (.ofList [c]), r')
    else some (.plain isQuoted ['$'], r)
  | [] => some (.plain isQuoted ['$'], [])

/-- The pieces in double quotes and what follows them. -/
def doubleQuoted : Nat → List Char → Option (Word × List Char)
  | 0, _ => none
  | _, [] => none
  | n + 1, c :: r =>
    match c, r with
    | '"', _ => some ([], r)
    | '\\', '\n' :: r => doubleQuoted n r
    | '\\', d :: r' =>
      if d == '$' || d == '`' || d == '"' || d == '\\' then
        (doubleQuoted n r').map fun (w, rest) => (.plain true [d] :: w, rest)
      else (doubleQuoted n r).map fun (w, rest) => (.plain true ['\\'] :: w, rest)
    | '$', _ => do
      let (piece, r) ← dollar? true r
      let (w, rest) ← doubleQuoted n r
      return (piece :: w, rest)
    | '`', _ => do
      let (script, r) ← cutAt '`' r
      let (w, rest) ← doubleQuoted n r
      return (.output true script :: w, rest)
    | _, _ => (doubleQuoted n r).map fun (w, rest) => (.plain true [c] :: w, rest)

def endsWord (c : Char) : Bool := " \t\n;&|()<>".toList.contains c

/-- The pieces of a word and what follows it. -/
def wordPieces : Nat → List Char → Option (Word × List Char)
  | 0, _ => none
  | _, [] => some ([], [])
  | n + 1, c :: r =>
    if endsWord c then some ([], c :: r)
    else
      match c, r with
      | '\'', _ => do
        let (s, r) ← cutAt '\'' r
        let (w, rest) ← wordPieces n r
        return (.plain true s :: w, rest)
      | '"', _ => do
        let (inside, r) ← doubleQuoted (r.length + 1) r
        let (w, rest) ← wordPieces n r
        return (.plain true [] :: inside ++ w, rest)
      | '\\', '\n' :: r => wordPieces n r
      | '\\', d :: r => (wordPieces n r).map fun (w, rest) => (.plain true [d] :: w, rest)
      | '$', _ => do
        let (piece, r) ← dollar? false r
        let (w, rest) ← wordPieces n r
        return (piece :: w, rest)
      | '`', _ => do
        let (script, r) ← cutAt '`' r
        let (w, rest) ← wordPieces n r
        return (.output false script :: w, rest)
      | _, _ => (wordPieces n r).map fun (w, rest) => (.plain false [c] :: w, rest)

/-- The operators, longer ones first. -/
def operators : List String := ["&&", "||", ";;", ";", "&", "|", "(", ")"]

def redirections : List String := [">>", ">&", ">|", "<&", "<>", ">", "<"]

def cutFirst? (words : List String) (text : List Char) : Option (String × List Char) :=
  words.findSome? fun w => (Text.dropPrefix? w.toList text).map (w, ·)

/-- The descriptor before a redirection, or the one that it changes by default. -/
def redirect? (text : List Char) : Option (Token × List Char) :=
  let ds := text.takeWhile Char.isDigit
  (cutFirst? redirections (text.drop ds.length)).map fun (op, rest) =>
    let standard := if op.startsWith "<" then 0 else 1
    (.redirect ((String.ofList ds).toNat?.getD standard) op, rest)

/-- The tokens of a script, each with the line it stands on. -/
def tokens : Nat → Nat → List Char → List (Token × Nat)
  | 0, _, _ => []
  | _, _, [] => []
  | n + 1, line, c :: r =>
    if c == '\n' then (.lineEnd, line) :: tokens n (line + 1) r
    else if c == ' ' || c == '\t' then tokens n line r
    else if c == '#' then tokens n line (r.dropWhile (· != '\n'))
    else
      match c, r with
      | '\\', '\n' :: r => tokens n (line + 1) r
      | _, _ =>
        match redirect? (c :: r), cutFirst? operators (c :: r) with
        | some (t, rest), _ => (t, line) :: tokens n line rest
        | none, some (op, rest) => (.operator op, line) :: tokens n line rest
        | none, none =>
          match wordPieces (r.length + 2) (c :: r) with
          | none => [(.unclosed, line + (c :: r).count '\n')]
          | some (w, rest) =>
            let taken := (c :: r).take (r.length + 1 - rest.length)
            (.word w, line) :: tokens n (line + taken.count '\n') rest

def tokensOf (script : List Char) : List (Token × Nat) := tokens (script.length + 1) 1 script

/-- The text of a word in which nothing is quoted or replaced. -/
def bareText? (w : Word) : Option (List Char) :=
  w.foldr (fun p rest => match p, rest with
    | .plain false s, some t => some (s ++ t)
    | _, _ => none) (some [])

end Recast.Shell
