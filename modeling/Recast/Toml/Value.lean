import Recast.Decimal.Binary

/-!
# Values of a settings file

A settings file holds named values. A table remembers how it came to be, which
decides whether a later line may add to it.
-/

namespace Recast

/-- A table has a heading of its own, is implied by the heading of a table inside it,
comes from a dotted name, or stands in braces. -/
inductive TableOrigin
  | heading
  | implied
  | dotted
  | braces
  deriving DecidableEq, Repr

inductive Toml
  | string (text : String)
  | integer (value : Int)
  | float (value : Decimal.Numeral)
  | boolean (value : Bool)
  | moment (text : List Char)
  /-- Headings add tables to an array of tables, and nothing adds to another array. -/
  | array (ofTables : Bool) (items : List Toml)
  | table (origin : TableOrigin) (entries : List (String × Toml))

namespace Toml

abbrev Entries := List (String × Toml)

def lookup (key : String) (es : Entries) : Option Toml :=
  (es.find? fun e => e.1 == key).map Prod.snd

/-- Replaces the value of a name that is there. -/
def put (key : String) (value : Toml) (es : Entries) : Entries :=
  es.map fun e => if e.1 == key then (key, value) else e

/-- The float that a numeral stands for, unless it is out of range. -/
def finiteFloat? (x : Decimal.Numeral) : Option Float :=
  let f := x.toFloat
  match x with
  | .finite .. => if f.isInf then none else some f
  | _ => some f

/-- Brackets and braces nest no deeper, and a name has no more parts before its
last. -/
def maxDepth : Nat := 80

mutual

/-- How deep brackets and braces nest. -/
def depth : Toml → Nat
  | array _ items => itemsDepth items + 1
  | table .braces entries => entriesDepth entries + 1
  | table _ entries => entriesDepth entries
  | string _ | integer _ | float _ | boolean _ | moment _ => 0

def itemsDepth : List Toml → Nat
  | [] => 0
  | v :: vs => max v.depth (itemsDepth vs)

def entriesDepth : List (String × Toml) → Nat
  | [] => 0
  | (_, v) :: es => max v.depth (entriesDepth es)

end

mutual

/-- Whether every number is within the widest range: 128 bits for a whole number, a
float without overflow for any other. -/
def isSound : Toml → Bool
  | integer n => -(Decimal.twoTo 127 : Int) ≤ n && n < Decimal.twoTo 128
  | float x => (finiteFloat? x).isSome
  | array _ items => areSound items
  | table _ entries => entriesSound entries
  | string _ | boolean _ | moment _ => true

def areSound : List Toml → Bool
  | [] => true
  | v :: vs => v.isSound && areSound vs

def entriesSound : List (String × Toml) → Bool
  | [] => true
  | (_, v) :: es => v.isSound && entriesSound es

end

end Toml

end Recast

/-!
## Adding to tables

A name is defined once. A heading may name a table that other headings only
implied. A dotted name may reach through tables that have no heading of their own,
and it adds only to tables that dotted names made. Both reach into the last table
of an array.
-/

namespace Recast.Toml

abbrev Table := TableOrigin × Entries

/-- Changes the table at the end of a path. Tables on the way that are missing are
made. -/
def descend (viaDots : Bool) (change : Table → Option Table) : List String → Table → Option Table
  | [], t => change t
  | key :: path, (origin, es) =>
    match lookup key es with
    | none => do
      let (o, inner) ← descend viaDots change path (if viaDots then .dotted else .implied, [])
      return (origin, es ++ [(key, .table o inner)])
    | some (.table o inner) =>
      if o == .braces || (viaDots && o == .heading) then none
      else do
        let (o, inner) ← descend viaDots change path (o, inner)
        return (origin, put key (.table o inner) es)
    | some (.array true items) =>
      match items.getLast? with
      | some (.table o inner) => do
        let (o, inner) ← descend viaDots change path (o, inner)
        return (origin, put key (.array true (items.dropLast ++ [.table o inner])) es)
      | _ => none
    | some _ => none

def addNew (key : String) (value : Toml) (t : Table) : Option Table :=
  if (lookup key t.2).isSome then none else some (t.1, t.2 ++ [(key, value)])

/-- Adds a value under a dotted name to the table at hand. -/
def addValue (path : List String) (key : String) (value : Toml) : Table → Option Table :=
  descend true
    (fun t => if path.isEmpty || t.1 == .dotted then addNew key value t else none) path

/-- Adds a value to the table under the last heading. -/
def addUnder (heading path : List String) (key : String) (value : Toml) : Table → Option Table :=
  descend false (addValue path key value) heading

/-- Opens the table of a heading. -/
def openTable (path : List String) (key : String) : Table → Option Table :=
  descend false
    (fun t =>
      match lookup key t.2 with
      | some (.table .implied es) => some (t.1, put key (.table .heading es) t.2)
      | _ => addNew key (.table .heading []) t)
    path

/-- Opens one more table in an array of tables. -/
def openItem (path : List String) (key : String) : Table → Option Table :=
  descend false
    (fun t =>
      match lookup key t.2 with
      | some (.array true items) =>
        some (t.1, put key (.array true (items ++ [.table .heading []])) t.2)
      | _ => addNew key (.array true [.table .heading []]) t)
    path

end Recast.Toml
