import Recast.Component.Basic
import Recast.Pattern.Component
import Recast.Text.Statement
import Recast.Text.Word

/-!
# Declarations

Where a component is declared, and how the function behind a declaration is read:
its parameters and its body.
-/

namespace Recast

inductive DeclarationKind
  | classBody
  | function
  | arrow
  | wrapped
  deriving DecidableEq, Repr

/-- The text from `resume` on holds the parameters and the body. -/
structure Declaration where
  name : List Char
  kind : DeclarationKind
  start : Nat
  resume : Nat
  deriving Repr

namespace Declaration

open Pattern.Component

def patterns : List (Pattern × DeclarationKind) :=
  [(classDeclaration, .classBody), (functionDeclaration, .function), (arrowDeclaration, .arrow),
    (wrappedDeclaration, .wrapped)]

/-- The parameters of an arrow function follow the sign of its assignment. -/
def resumeAfter (kind : DeclarationKind) (text : List Char) (m : Match) (name : Span) : Nat :=
  match kind with
  | .classBody | .wrapped => m.stop
  | .function => m.start
  | .arrow =>
    name.stop + ((Text.indexOf? ((⟨name.stop, m.stop⟩ : Span).text text) ['=']).getD 0) + 1

/-- The declarations of the text from left to right. -/
def all (text : List Char) : List Declaration :=
  let found := patterns.flatMap fun (p, kind) =>
    (p.matchesOf text).filterMap fun m =>
      (m.group? 1).map fun name =>
        ⟨name.text text, kind, m.start, resumeAfter kind text m name⟩
  found.mergeSort fun a b => a.start ≤ b.start

/-- The declaration of the name that is asked for, or else the first. -/
def find? (text : List Char) (preferred : Option (List Char)) : Option Declaration :=
  let found := all text
  (preferred.bind fun name => found.find? (·.name == name)).or found.head?

/-- The name the text exports: the default export, or else the first named export
with a capital, or else the first. -/
def exported? (text : List Char) : Option (List Char) :=
  match defaultExport.find? text with
  | some m => m.groupText? text 1
  | none =>
    let names := (namedExport.matchesOf text).map (·.groupText text 1)
    (names.find? (·.head?.any Char.isUpper)).or names.head?

end Declaration

inductive Body
  | block (text : List Char)
  | expression (text : List Char)
  deriving Repr

/-- A function, with what follows it in the text. -/
structure Callable where
  params : List Char
  body : Body
  rest : List Char
  deriving Repr

namespace Callable

def skipBlanks (text : List Char) : List Char := text.dropWhile Text.isAsciiBlank

/-- Skips the word and the blanks after it if the text starts with it. -/
def skipWord (text word : List Char) : List Char :=
  if Text.startsWithWord none text word then skipBlanks (text.drop word.length) else text

/-- What an open bracket encloses up to its partner or the end of the text. -/
def enclosedOrRest (text : List Char) : List Char × List Char :=
  (Text.enclosed? text).getD (text.drop 1, [])

/-- The body at the start of the text: a block, an expression in brackets, or an
expression up to the end of its statement. -/
def ofBody (params text : List Char) : Callable :=
  match text with
  | '{' :: _ =>
    let (inside, rest) := enclosedOrRest text
    ⟨params, .block inside, rest⟩
  | '(' :: _ =>
    let (inside, rest) := enclosedOrRest text
    ⟨params, .expression inside, rest⟩
  | _ =>
    let n := Text.statementLength none text
    let statement := text.take n
    ⟨params, .expression ((Text.dropSuffix? [';'] statement).getD statement), text.drop n⟩

/-- Skips the type of the result, up to an arrow or a block. -/
def skipResultType? (text : List Char) : Option (List Char) :=
  match text with
  | ':' :: _ =>
    match Text.indexOf? text "=>".toList, Text.indexOf? text ['{'] with
    | some a, some b => some (text.drop (min a b))
    | some a, none => some (text.drop a)
    | none, some b => some (text.drop b)
    | none, none => none
  | _ => some text

def skipArrow (text : List Char) : List Char :=
  match text with
  | '=' :: '>' :: r => skipBlanks r
  | _ => text

/-- The parameter list at the start of the text and the body after it. -/
def ofParams? (text : List Char) : Option Callable :=
  match text with
  | '(' :: _ => do
    let (params, rest) ← Text.enclosed? text
    let rest ← skipResultType? (skipBlanks rest)
    return ofBody params (skipArrow rest)
  | _ => none

/-- The function expression, declaration or arrow at the start of the text. -/
def read? (text : List Char) : Option Callable :=
  let text := skipWord (skipWord (skipBlanks text) "async".toList) "function".toList
  let ident := text.takeWhile Text.isIdentChar
  if ident.isEmpty then ofParams? text
  else
    match skipBlanks (text.drop ident.length) with
    | '=' :: '>' :: r => some (ofBody ident (skipBlanks r))
    | rest => ofParams? rest

end Callable

end Recast
