import Recast.Pattern.Build

/-!
# Patterns of generated code

The places in generated code at which an optimization may start. They rely on
the layout of the generator: imports and declarations at column zero, the
statements of a component indented by two spaces.
-/

namespace Recast.Pattern.Generated

open Pattern

def reactNamedImport : Pattern :=
  lineStart ++ lit "import " ++ opt (group 1 (lit "React, ")) ++ lit "\x7b " ++
    group 2 (star (noneIn "\x7d")) ++ lit " \x7d from 'react';" ++ lineEnd

def reactDefaultImport : Pattern := lineStart ++ lit "import React from 'react';" ++ lineEnd

def defaultExportName : Pattern :=
  lineStart ++ lit "export default " ++ group 1 (capital ++ asciiNameRest) ++ lit ";" ++ lineEnd

/-- The declaration of the component itself. -/
def componentDeclaration : Pattern :=
  lineStart ++ lit "const " ++ capital ++ asciiNameRest ++ lit " = "

/-- The first statement of a component body that may return early. -/
def bodyExit : Pattern := lineStart ++ lit "  " ++ either (lit "if (") (lit "return" ++ wordEdge)

def handlerDeclaration : Pattern :=
  lineStart ++ lit "  const " ++
    group 1 (oneOfWords ["handle", "on"] ++ capital ++ asciiNameRest) ++ lit " = "

def localDeclaration : Pattern :=
  lineStart ++ lit "  const " ++
    group 1 (char (fun c => c.isLower || c == '_' || c == '$') ++ asciiNameRest) ++ lit " = "

def arrowHead : Pattern :=
  textStart ++ opt (lit "async" ++ blanks1) ++
    either (lit "(" ++ star (noneIn ")") ++ lit ")") (char Text.isIdentStart ++ asciiNameRest) ++
    blanks ++ lit "=>"

/-- A collection derived from another, worth remembering. -/
def derivation : Pattern :=
  either
    (lit "." ++ oneOfWords ["filter", "map", "reduce", "sort", "find", "some", "every", "slice",
      "flatMap", "toSorted"] ++ lit "(")
    (wordEdge ++ lit "Object." ++ oneOfWords ["keys", "values", "entries"] ++ lit "(")

def markupTag : Pattern := lit "<" ++ oneOf [char Char.isAlpha, lit ">", lit "/"]

def mediaTag : Pattern :=
  lit "<" ++ group 1 (oneOfWords ["img", "iframe", "video"]) ++
    char fun c => Text.isBlank c || c == '/' || c == '>'

end Recast.Pattern.Generated
