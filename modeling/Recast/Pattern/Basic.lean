import Recast.Text.Lines
import Recast.Unicode.Range
import Recast.Unicode.WordChar

/-!
# Patterns

A pattern is matched against a text at a cursor. Among the ways to match, the
first wins: the left alternative before the right, one more repetition before
none if the repetition is greedy and after it if it is lazy.

`run` hands every way to match to a continuation and keeps the first that the
continuation accepts. A repetition goes on only while it consumes characters,
so `fuel` that is no less than the length of the text never cuts a match short.
-/

namespace Recast

structure Span where
  start : Nat
  stop : Nat
  deriving DecidableEq, Repr

def Span.length (s : Span) : Nat := s.stop - s.start

def Span.text (s : Span) (text : List Char) : List Char := (text.drop s.start).take s.length

inductive Anchor
  | textStart
  | textEnd
  | lineStart
  | lineEnd
  | wordEdge

inductive Pattern
  | empty
  | char (p : Char → Bool)
  | anchor (a : Anchor)
  | seq (p q : Pattern)
  | either (p q : Pattern)
  | many (greedy : Bool) (p : Pattern)
  | group (i : Nat) (p : Pattern)

/-- A place in a text: the number of characters before it, the last of them, and
what follows. -/
structure Cursor where
  pos : Nat
  prev : Option Char
  rest : List Char

abbrev Groups := List (Nat × Span)

structure Match where
  span : Span
  groups : Groups

def Anchor.holds (c : Cursor) : Anchor → Bool
  | .textStart => c.prev.isNone
  | .textEnd => c.rest.isEmpty
  | .lineStart => c.prev.all (· == '\n')
  | .lineEnd => c.rest.head?.all (· == '\n')
  | .wordEdge => c.prev.any Unicode.isWordChar != c.rest.head?.any Unicode.isWordChar

namespace Pattern

abbrev Next := Cursor → Groups → Option Match

/-- Repeats `step` at most `n` times as long as it moves the cursor. -/
def loop (step : Next → Next) (greedy : Bool) (k : Next) : Nat → Next
  | 0, c, g => k c g
  | n + 1, c, g =>
    let again (_ : Unit) : Option Match :=
      step (fun c' g' => if c.pos < c'.pos then loop step greedy k n c' g' else none) c g
    if greedy then (again ()).orElse fun _ => k c g else (k c g).orElse again

def run (fuel : Nat) : Pattern → Next → Next
  | empty, k, c, g => k c g
  | char p, k, c, g =>
    match c.rest with
    | [] => none
    | x :: r => if p x then k ⟨c.pos + 1, some x, r⟩ g else none
  | anchor a, k, c, g => if a.holds c then k c g else none
  | seq p q, k, c, g => run fuel p (run fuel q k) c g
  | either p q, k, c, g => (run fuel p k c g).orElse fun _ => run fuel q k c g
  | many greedy p, k, c, g => loop (run fuel p) greedy k fuel c g
  | group i p, k, c, g => run fuel p (fun c' g' => k c' ((i, ⟨c.pos, c'.pos⟩) :: g')) c g

def matchAt? (p : Pattern) (fuel : Nat) (c : Cursor) : Option Match :=
  p.run fuel (fun c' g => some ⟨⟨c.pos, c'.pos⟩, g⟩) c []

/-- The first match at or after the cursor. -/
def findFrom? (p : Pattern) (fuel pos : Nat) (prev : Option Char) : List Char → Option Match
  | [] => p.matchAt? fuel ⟨pos, prev, []⟩
  | x :: r =>
    (p.matchAt? fuel ⟨pos, prev, x :: r⟩).orElse fun _ => findFrom? p fuel (pos + 1) (some x) r

def find? (p : Pattern) (text : List Char) : Option Match := p.findFrom? text.length 0 none text

/-- The first match that starts at position `pos` or later; the text before it is
still seen by anchors. -/
def findAfter? (p : Pattern) (text : List Char) (pos : Nat) : Option Match :=
  let prev := if pos = 0 then none else text[pos - 1]?
  p.findFrom? text.length pos prev (text.drop pos)

def isIn (p : Pattern) (text : List Char) : Bool := (p.find? text).isSome

/-- The matches from the cursor on, after skipping `n` characters. -/
def matchesFrom (p : Pattern) (fuel : Nat) : Nat → Option Char → Nat → List Char → List Match
  | pos, prev, 0, [] => (p.matchAt? fuel ⟨pos, prev, []⟩).toList
  | _, _, _ + 1, [] => []
  | pos, _, n + 1, x :: r => matchesFrom p fuel (pos + 1) (some x) n r
  | pos, prev, 0, x :: r =>
    match p.matchAt? fuel ⟨pos, prev, x :: r⟩ with
    | some m => m :: matchesFrom p fuel (pos + 1) (some x) (m.span.length - 1) r
    | none => matchesFrom p fuel (pos + 1) (some x) 0 r

/-- The matches from left to right, none overlapping the one before. -/
def matchesOf (p : Pattern) (text : List Char) : List Match :=
  p.matchesFrom text.length 0 none 0 text

/-- One more than the greatest number of a group in the pattern. -/
def groupCount : Pattern → Nat
  | empty | char _ | anchor _ => 1
  | seq p q | either p q => max p.groupCount q.groupCount
  | many _ p => p.groupCount
  | group i p => max (i + 1) p.groupCount

end Pattern

namespace Match

def start (m : Match) : Nat := m.span.start

def stop (m : Match) : Nat := m.span.stop

/-- The span of a group that took part. Group 0 is the match. -/
def group? (m : Match) (i : Nat) : Option Span :=
  if i = 0 then some m.span else m.groups.lookup i

def groupText? (m : Match) (text : List Char) (i : Nat) : Option (List Char) :=
  (m.group? i).map (·.text text)

/-- The text of a group, empty if it took no part. -/
def groupText (m : Match) (text : List Char) (i : Nat) : List Char := (m.groupText? text i).getD []

end Match

/-- Puts texts in place of spans in rising order, where `rest` starts at position
`pos`. -/
def splice (pos : Nat) (rest : List Char) : List (Span × List Char) → List Char
  | [] => rest
  | (s, new) :: edits =>
    rest.take (s.start - pos) ++ new ++ splice s.stop (rest.drop (s.stop - pos)) edits

/-- The text with each match replaced. -/
def Pattern.replaceAll (p : Pattern) (f : Match → List Char) (text : List Char) : List Char :=
  splice 0 text ((p.matchesOf text).map fun m => (m.span, f m))

end Recast
