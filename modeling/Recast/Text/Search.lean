import Recast.Text.Class

/-!
# Searching plain text

Finding, cutting and replacing a fixed text. Positions count characters.
-/

namespace Recast.Text

/-- What follows `word` if the text starts with it. -/
def dropPrefix? : List Char → List Char → Option (List Char)
  | [], text => some text
  | _ :: _, [] => none
  | w :: ws, c :: r => if w == c then dropPrefix? ws r else none

theorem dropPrefix?_eq_some_iff {word text rest : List Char} :
    dropPrefix? word text = some rest ↔ text = word ++ rest := by
  induction word generalizing text with
  | nil => simp [dropPrefix?, eq_comm]
  | cons w ws ih =>
    cases text with
    | nil => simp [dropPrefix?]
    | cons c r =>
      by_cases h : w = c
      · simp [dropPrefix?, h, ih]
      · simp [dropPrefix?, h, Ne.symm h]

def startsWith (text word : List Char) : Bool := (dropPrefix? word text).isSome

def endsWith (text word : List Char) : Bool := startsWith text.reverse word.reverse

/-- What precedes `word` if the text ends with it. -/
def dropSuffix? (word text : List Char) : Option (List Char) :=
  (dropPrefix? word.reverse text.reverse).map List.reverse

/-- Position of the first occurrence of `word`. -/
def indexOf? (text word : List Char) : Option Nat :=
  match text with
  | [] => if word.isEmpty then some 0 else none
  | c :: r => if startsWith (c :: r) word then some 0 else (indexOf? r word).map (· + 1)

def contains (text word : List Char) : Bool := (indexOf? text word).isSome

/-- The text before the first `word` and the text after it. -/
def cut? (text word : List Char) : Option (List Char × List Char) :=
  (indexOf? text word).map fun i => (text.take i, text.drop (i + word.length))

/-- The pieces between the characters that satisfy `p`. -/
def splitWhen (p : Char → Bool) : List Char → List (List Char)
  | [] => [[]]
  | c :: r =>
    if p c then [] :: splitWhen p r
    else
      match splitWhen p r with
      | [] => [[c]]
      | piece :: rest => (c :: piece) :: rest

def splitOn (sep : Char) (text : List Char) : List (List Char) := splitWhen (· == sep) text

/-- The longest pieces without blanks. -/
def blankSeparated (text : List Char) : List (List Char) :=
  (splitWhen isBlank text).filter (!·.isEmpty)

/-- Replaces the occurrences of `old` that do not overlap, after dropping `n`
characters. -/
def replaceFrom (old new : List Char) : Nat → List Char → List Char
  | _, [] => []
  | n + 1, _ :: r => replaceFrom old new n r
  | 0, c :: r =>
    if startsWith (c :: r) old then new ++ replaceFrom old new (old.length - 1) r
    else c :: replaceFrom old new 0 r

/-- The text with every occurrence of the non-empty `old` replaced. -/
def replace (old new text : List Char) : List Char := replaceFrom old new 0 text

/-- The text with the first occurrence of `old` replaced. -/
def replaceFirst (old new text : List Char) : List Char :=
  match cut? text old with
  | some (before, after) => before ++ new ++ after
  | none => text

/-- Counts the occurrences of `word` that do not overlap, after dropping `n` characters. -/
def occurrencesFrom (word : List Char) : Nat → List Char → Nat
  | _, [] => 0
  | n + 1, _ :: r => occurrencesFrom word n r
  | 0, c :: r =>
    if startsWith (c :: r) word then occurrencesFrom word (word.length - 1) r + 1
    else occurrencesFrom word 0 r

/-- Occurrences of the non-empty `word` that do not overlap. -/
def occurrences (text word : List Char) : Nat := occurrencesFrom word 0 text

def dropEndWhile (p : Char → Bool) (text : List Char) : List Char :=
  (text.reverse.dropWhile p).reverse

end Recast.Text
