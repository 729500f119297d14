import Recast.Toml.Value
import Recast.Toml.Quoted

/-!
# Reading a settings file

A file is a sequence of lines, each a heading or a name with its value. Blank lines
and comments may stand between them and, inside brackets and braces, between any two
parts but those of a dotted name. A file that breaks a rule has no value.
-/

namespace Recast.Toml

def isBareKey (c : Char) : Bool := c.isAlphanum || c == '_' || c == '-'

def isLineBlank (c : Char) : Bool := c == ' ' || c == '\t'

def dropBlanks (text : List Char) : List Char := text.dropWhile isLineBlank

/-- Drops blanks, line ends and comments. The flag says whether a comment is open. -/
def dropLayout : Bool → List Char → Option (List Char)
  | _, [] => some []
  | _, '\n' :: r => dropLayout false r
  | _, '\r' :: '\n' :: r => dropLayout false r
  | true, c :: r => if isForbidden c then none else dropLayout true r
  | false, c :: r =>
    if isLineBlank c then dropLayout false r
    else if c == '#' then dropLayout true r
    else some (c :: r)

/-- What follows the line, if nothing but a comment is left on it. -/
def endLine : Bool → List Char → Option (List Char)
  | _, [] => some []
  | _, '\n' :: r => some r
  | _, '\r' :: '\n' :: r => some r
  | true, c :: r => if isForbidden c then none else endLine true r
  | false, c :: r =>
    if isLineBlank c then endLine false r else if c == '#' then endLine true r else none

/-- One part of a name: bare, or a string on one line. -/
def keyPart? (text : List Char) : Option (String × List Char) :=
  match text with
  | '"' :: r => (line? '"' r).map fun (s, rest) => (.ofList s, rest)
  | '\'' :: r => (line? '\'' r).map fun (s, rest) => (.ofList s, rest)
  | _ =>
    let bare := text.takeWhile isBareKey
    if bare.isEmpty then none else some (.ofList bare, text.drop bare.length)

/-- A dotted name: the parts before the last, the last, and what follows. -/
def keyParts? : Nat → List Char → Option (List String × String × List Char)
  | 0, _ => none
  | n + 1, text => do
    let (part, rest) ← keyPart? (dropBlanks text)
    match dropBlanks rest with
    | '.' :: r => do
      let (path, key, rest) ← keyParts? n r
      return (part :: path, key, rest)
    | rest => return ([], part, rest)

/-- A dotted name that is not too deep. -/
def key? (text : List Char) : Option (List String × String × List Char) := do
  let (path, key, rest) ← keyParts? (text.length + 1) text
  if path.length < maxDepth then some (path, key, rest) else none

def equals? : List Char → Option (List Char)
  | '=' :: r => some r
  | _ => none

mutual

/-- A value at the start of the text. -/
def value? : Nat → List Char → Option (Toml × List Char)
  | 0, _ => none
  | n + 1, text =>
    match text with
    | '"' :: r => (quoted? '"' r).map fun (s, rest) => (.string (.ofList s), rest)
    | '\'' :: r => (quoted? '\'' r).map fun (s, rest) => (.string (.ofList s), rest)
    | '[' :: r => (items? n r).map fun (vs, rest) => (.array false vs, rest)
    | c :: r =>
      if c == Char.ofNat 0x7B then
        (entries? n (.heading, []) r).map fun (es, rest) => (.table .braces es, rest)
      else
        let bare := bareText text
        (bareValue? bare).map (·, text.drop bare.length)
    | [] => none

/-- The items of an array up to its bracket. -/
def items? : Nat → List Char → Option (List Toml × List Char)
  | 0, _ => none
  | n + 1, text => do
    match ← dropLayout false text with
    | ']' :: r => return ([], r)
    | text =>
      let (v, rest) ← value? n text
      match ← dropLayout false rest with
      | ',' :: r =>
        let (vs, rest) ← items? n r
        return (v :: vs, rest)
      | ']' :: r => return ([v], r)
      | _ => none

/-- The entries of a table in braces up to the closing one. -/
def entries? : Nat → Table → List Char → Option (Entries × List Char)
  | 0, _, _ => none
  | n + 1, t, text => do
    match ← dropLayout false text with
    | [] => none
    | c :: r =>
      if c == Char.ofNat 0x7D then return (t.2, r)
      else
        let (path, key, rest) ← key? (c :: r)
        let (v, rest) ← value? n (← dropLayout false (← equals? (← dropLayout false rest)))
        let t ← addValue path key v t
        match ← dropLayout false rest with
        | ',' :: r => entries? n t r
        | d :: r => if d == Char.ofNat 0x7D then return (t.2, r) else none
        | [] => none

end

/-- The root table and the heading under which the next line falls. -/
structure Reading where
  root : Table := (.heading, [])
  heading : List String := []

/-- A heading, from after its opening brackets. -/
def heading? (isItem : Bool) (s : Reading) (text : List Char) : Option (Reading × List Char) := do
  let (path, key, rest) ← key? text
  let s : Reading := ⟨← (if isItem then openItem else openTable) path key s.root, path ++ [key]⟩
  match isItem, rest with
  | false, ']' :: r => return (s, r)
  | true, ']' :: ']' :: r => return (s, r)
  | _, _ => none

def assignment? (s : Reading) (text : List Char) : Option (Reading × List Char) := do
  let (path, key, rest) ← key? text
  let rest := dropBlanks (← equals? rest)
  let (v, rest) ← value? (2 * rest.length + 2) rest
  if v.depth ≤ maxDepth then
    return ({ s with root := ← addUnder s.heading path key v s.root }, rest)
  else none

def readLines : Nat → Reading → List Char → Option Reading
  | 0, _, _ => none
  | n + 1, s, text => do
    match ← dropLayout false text with
    | [] => return s
    | text =>
      let (s, rest) ←
        match text with
        | '[' :: '[' :: r => heading? true s r
        | '[' :: r => heading? false s r
        | _ => assignment? s text
      readLines n s (← endLine false rest)

/-- The entries of a file. A mark of the byte order at its start is skipped. -/
def read? (text : List Char) : Option Entries :=
  let text := if text.head? == some (Char.ofNat 0xFEFF) then text.tail else text
  (readLines (text.length + 1) {} text).map (·.root.2)

end Recast.Toml
