/-!
# JSON

Values and their indented form: two spaces a level, and nothing between the
brackets of an empty array or object. An object keeps the order of its names.
-/

namespace Recast

inductive Json
  | null
  | boolean (value : Bool)
  /-- A number by its digits. -/
  | number (text : String)
  | string (text : String)
  | array (items : List Json)
  | object (entries : List (String × Json))

namespace Json

def ofNat (n : Nat) : Json := number (toString n)

def ofString? (s : Option String) : Json := (s.map string).getD null

def ofStrings (xs : List String) : Json := array (xs.map string)

def hexDigit (n : Nat) : Char := (Nat.toDigits 16 n).headD '0'

/-- Controls are written by a letter where they have one, else by their code. -/
def escapeChar (c : Char) : List Char :=
  match c with
  | '"' => ['\\', '"']
  | '\\' => ['\\', '\\']
  | '\x08' => ['\\', 'b']
  | '\x0c' => ['\\', 'f']
  | '\n' => ['\\', 'n']
  | '\r' => ['\\', 'r']
  | '\t' => ['\\', 't']
  | c =>
    if c.toNat < 0x20 then
      ['\\', 'u', '0', '0', hexDigit (c.toNat / 16), hexDigit (c.toNat % 16)]
    else [c]

def quote (s : String) : String := "\"" ++ .ofList (s.toList.flatMap escapeChar) ++ "\""

def newLine (depth : Nat) : String := "\n" ++ .ofList (List.replicate (2 * depth) ' ')

mutual

/-- The form of a value at a depth of nesting. -/
def prettyAt (depth : Nat) : Json → String
  | null => "null"
  | boolean b => if b then "true" else "false"
  | number text => text
  | string s => quote s
  | array items => if items.isEmpty then "[]" else "[" ++ itemsAt (depth + 1) items ++ newLine depth ++ "]"
  | object entries =>
    if entries.isEmpty then "\x7b\x7d"
    else "\x7b" ++ entriesAt (depth + 1) entries ++ newLine depth ++ "\x7d"

def itemsAt (depth : Nat) : List Json → String
  | [] => ""
  | [v] => newLine depth ++ v.prettyAt depth
  | v :: vs => newLine depth ++ v.prettyAt depth ++ "," ++ itemsAt depth vs

def entriesAt (depth : Nat) : List (String × Json) → String
  | [] => ""
  | [(k, v)] => newLine depth ++ quote k ++ ": " ++ v.prettyAt depth
  | (k, v) :: es =>
    newLine depth ++ quote k ++ ": " ++ v.prettyAt depth ++ "," ++ entriesAt depth es

end

def pretty (v : Json) : String := v.prettyAt 0

/-- Inserts an entry in rising order of names. -/
def insertEntry (e : String × Json) : List (String × Json) → List (String × Json)
  | [] => [e]
  | f :: fs => if e.1 < f.1 then e :: f :: fs else f :: insertEntry e fs

mutual

/-- The value with the names of every object in rising order. -/
def sorted : Json → Json
  | array items => array (sortedItems items)
  | object entries => object (sortedEntries entries)
  | v => v

def sortedItems : List Json → List Json
  | [] => []
  | v :: vs => v.sorted :: sortedItems vs

def sortedEntries : List (String × Json) → List (String × Json)
  | [] => []
  | (k, v) :: es => insertEntry (k, v.sorted) (sortedEntries es)

end

end Json

end Recast
