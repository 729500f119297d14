import Recast.Pattern.Generated
import Recast.Text.Str

/-!
# The framework import

Adds a name to the import of the framework: to the first import that lists names,
or else to a plain import, or else as a new line at the top.
-/

namespace Recast.ReactImport

open Pattern.Generated Text

def sortNames (names : List (List Char)) : List (List Char) :=
  names.mergeSort fun a b => !(decide (b < a))

/-- Replaces the first match. -/
def replaceMatch (m : Match) (new text : List Char) : List Char := splice 0 text [(m.span, new)]

def nameClause (names : List (List Char)) : List Char :=
  "\x7b ".toList ++ joinWith ", ".toList names ++ " \x7d from 'react';".toList

def listedNames (m : Match) (content : List Char) : List (List Char) :=
  ((splitOn ',' (m.groupText content 2)).map trim).filter (!·.isEmpty)

/-- The content with `name` imported from the framework. -/
def ensure (name content : List Char) : List Char :=
  match reactNamedImport.find? content with
  | some m =>
    let names := listedNames m content
    if names.contains name then content
    else
      replaceMatch m ("import ".toList ++ m.groupText content 1 ++
        nameClause (sortNames (names ++ [name]))) content
  | none =>
    match reactDefaultImport.find? content with
    | some m => replaceMatch m ("import React, ".toList ++ nameClause [name]) content
    | none =>
      let line := "import ".toList ++ nameClause [name] ++ ['\n']
      if startsWith content "import ".toList then line ++ content else line ++ '\n' :: content

end Recast.ReactImport
