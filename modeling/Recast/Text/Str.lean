import Recast.Text.Case
import Recast.Text.Quoted
import Recast.Text.Word

/-!
# Scans of strings

The scans of this folder read lists of characters. Here they are stated on the
strings of which facts and generated files are made.
-/

namespace Recast.Str

def trim (s : String) : String := .ofList (Text.trim s.toList)

def trimEnd (s : String) : String := .ofList (Text.trimEnd s.toList)

def isBlank (s : String) : Bool := Text.isBlankText s.toList

def lines (s : String) : List String := (Text.lines s.toList).map .ofList

def startsWith (s word : String) : Bool := Text.startsWith s.toList word.toList

def contains (s word : String) : Bool := Text.contains s.toList word.toList

def countWord (s word : String) : Nat := Text.countWord s.toList word.toList

def hasWord (s word : String) : Bool := Text.hasWord s.toList word.toList

def occurrences (s word : String) : Nat := Text.occurrences s.toList word.toList

def replace (old new s : String) : String :=
  .ofList (Text.replace old.toList new.toList s.toList)

def replaceFirst (old new s : String) : String :=
  .ofList (Text.replaceFirst old.toList new.toList s.toList)

def lowercase (s : String) : String := .ofList (Text.lowercase s.toList)

def quoted (s : String) : String := .ofList (Text.escapeQuoted s.toList)

def title (s : String) : String := .ofList (Text.escapeTitle s.toList)

/-- The string between braces. -/
def braced (s : String) : String := "\x7b" ++ s ++ "\x7d"

end Recast.Str
