import Recast.Component.Basic
import Recast.Text.Lines
import Recast.Text.Statement
import Recast.Text.Word

/-!
# Markup and statements

The last return at the top level of a body gives the markup. What stands before
and after it are the statements.
-/

namespace Recast

structure Rendering where
  markup? : Option (List Char)
  statements? : Option (List Char)
  deriving DecidableEq, Repr

namespace Rendering

open Text

/-- The expression, if it is markup. -/
def markupOf? (expr : List Char) : Option (List Char) :=
  if (trim expr).head? == some '<' then some (dedent expr) else none

def statementsOf? (text : List Char) : Option (List Char) :=
  let s := dedent text
  if s.isEmpty then none else some s

/-- The markup that a return value after `prev` starts with, and what follows its
statement. -/
def returned (prev : Option Char) (value : List Char) : Option (List Char) × List Char :=
  match value with
  | '(' :: _ =>
    match enclosed? value with
    | some (inside, rest) => (markupOf? inside, rest.drop (statementLength (some ')') rest))
    | none => (none, [])
  | _ =>
    let n := statementLength prev value
    (markupOf? (dropEndWhile (· == ';') (value.take n)), value.drop n)

def ofBody (body : List Char) : Rendering :=
  let word := "return".toList
  match (topLevelWords body word).getLast? with
  | none => ⟨none, statementsOf? body⟩
  | some i =>
    let value := (body.drop (i + word.length)).dropWhile isAsciiBlank
    let (markup?, rest) := returned (body.take (body.length - value.length)).getLast? value
    ⟨markup?, statementsOf? (body.take i ++ rest)⟩

end Rendering

end Recast
