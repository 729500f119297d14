import Recast.Pattern.Basic

/-!
# Building patterns

Character classes and combinators from which the pattern tables are written.
Patterns follow one another with `++`.
-/

namespace Recast.Pattern

instance : Append Pattern := ⟨seq⟩

def lit (s : String) : Pattern := s.toList.foldr (fun c p => seq (char (· == c)) p) empty

def oneOf : List Pattern → Pattern
  | [] => char fun _ => false
  | [p] => p
  | p :: ps => either p (oneOf ps)

def oneOfWords (ws : List String) : Pattern := oneOf (ws.map lit)

def opt (p : Pattern) : Pattern := either p empty

def star (p : Pattern) : Pattern := many true p

def plus (p : Pattern) : Pattern := seq p (many true p)

def lazyPlus (p : Pattern) : Pattern := seq p (many false p)

def oneIn (s : String) : Pattern := char s.toList.contains

def noneIn (s : String) : Pattern := char fun c => !s.toList.contains c

def wordEdge : Pattern := anchor .wordEdge

def lineStart : Pattern := anchor .lineStart

def lineEnd : Pattern := anchor .lineEnd

def textStart : Pattern := anchor .textStart

def textEnd : Pattern := anchor .textEnd

def blank : Pattern := char Text.isBlank

def notBlank : Pattern := char (!Text.isBlank ·)

def blanks : Pattern := star blank

def blanks1 : Pattern := plus blank

def digits1 : Pattern := plus (char Unicode.isDigitChar)

def wordChar : Pattern := char Unicode.isWordChar

/-- Any character but a line feed. -/
def onLine : Pattern := char (· != '\n')

/-- The indentation of a line. -/
def lineIndent : Pattern := lineStart ++ star (oneIn " \t")

/-- A name of the source language: an ASCII start, then word characters of any
script or dollar signs. -/
def name : Pattern :=
  char Text.isIdentStart ++ star (char fun c => Unicode.isWordChar c || c == '$')

def capital : Pattern := char Char.isUpper

/-- The name of a component: a capital, then ASCII letters, digits or underscores. -/
def componentName : Pattern := capital ++ star (char fun c => c.isAlphanum || c == '_')

/-- The rest of an ASCII name. -/
def asciiNameRest : Pattern := star (char Text.isIdentChar)

end Recast.Pattern
