import Recast.Pattern.Generated
import Recast.Text.Bracket
import Recast.Text.Search

/-!
# Loading hints

Images and frames are loaded lazily, and videos load only their metadata, unless
the element says how it loads.
-/

namespace Recast.Media

open Text Pattern.Generated

/-- Position of the sign that ends an opening tag, outside braces and literals. -/
def tagEndFrom (depth : Int) : Marked → Option Nat
  | [] => none
  | (c, l) :: r =>
    if l == .code && c == '>' && depth == 0 then some 0
    else
      let depth' := if l != .code then depth else if c == '{' then depth + 1
        else if c == '}' then depth - 1 else depth
      (tagEndFrom depth' r).map (· + 1)

/-- The opening tag at the start of the text, without its end sign. -/
def openingTag? (text : List Char) : Option (List Char) :=
  (tagEndFrom 0 (mark text)).map text.take

def hintFor (tag : List Char) : String × String :=
  if tag == "video".toList then ("preload=", " preload=\"metadata\"")
  else ("loading=", " loading=\"lazy\"")

/-- The place and the text of the hint that the matched element lacks. -/
def missingHint? (content : List Char) (m : Match) : Option (Span × List Char) := do
  let tag ← m.group? 1
  let element ← openingTag? (content.drop m.start)
  let (marker, hint) := hintFor (tag.text content)
  if contains element marker.toList then none
  else some (⟨tag.stop, tag.stop⟩, hint.toList)

def missingHints (content : List Char) : List (Span × List Char) :=
  (mediaTag.matchesOf content).filterMap (missingHint? content)

def addHints (content : List Char) : List Char := splice 0 content (missingHints content)

end Recast.Media
