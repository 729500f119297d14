import Recast.Component.Basic
import Recast.Pattern.Component
import Recast.Text.Lines
import Recast.Text.Statement

/-!
# Handlers of a class

Event handlers of a class are written again as arrow functions: members that are
arrows already, then methods of other names.
-/

namespace Recast.Handler

open Text Pattern.Component

/-- The start of the line that holds position `pos`. -/
def lineStartOf (text : List Char) (pos : Nat) : Nat :=
  pos - ((text.take pos).reverse.takeWhile (· != '\n')).length

def ofArrow (classBody : List Char) (name : Span) : Handler :=
  let start := lineStartOf classBody name.start
  let stop := name.start + statementLength (some ' ') (classBody.drop name.start)
  let statement := dropEndWhile (· == ';') (dedent ((⟨start, stop⟩ : Span).text classBody))
  ⟨String.ofList (name.text classBody), "const " ++ String.ofList statement ++ ";"⟩

def ofMethod? (classBody : List Char) (m : Match) : Option Handler :=
  (enclosed? (classBody.drop (m.stop - 1))).map fun (inside, _) =>
    let name := String.ofList (m.groupText classBody 2)
    let async := if (m.group? 1).isSome then "async " else ""
    let params := String.ofList (trim (m.groupText classBody 3))
    let body := String.ofList (indent 2 (dedent inside))
    ⟨name, "const " ++ name ++ " = " ++ async ++ "(" ++ params ++ ") => \x7b\n" ++ body ++ "\n\x7d;"⟩

def addMethod (classBody : List Char) (hs : List Handler) (m : Match) : List Handler :=
  if hs.any (·.name == String.ofList (m.groupText classBody 2)) then hs
  else hs ++ (ofMethod? classBody m).toList

def all (classBody : List Char) : List Handler :=
  let arrows := (arrowHandler.matchesOf classBody).filterMap fun m =>
    (m.group? 1).map (ofArrow classBody)
  (methodHandler.matchesOf classBody).foldl (addMethod classBody) arrows

end Recast.Handler
