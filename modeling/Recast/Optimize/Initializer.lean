import Recast.Optimize.FreeNames
import Recast.Pattern.Generated
import Recast.Text.Offset

/-!
# Initializers

The initializers of the constants that a component declares before it may return
early. Only there can an initializer be wrapped in a hook.

Initializers are replaced from the last to the first, at the byte offsets that they
have in the text as it was. Where one lies inside another, the end of the outer one
is taken at its old offset.
-/

namespace Recast

/-- The byte offsets of an initializer and of the end of its statement. -/
structure Initializer where
  start : Nat
  stop : Nat
  expr : List Char
  deriving DecidableEq, Repr

namespace Initializer

open Text Pattern.Generated

/-- The span of the statements that run on every render. -/
def region? (content : List Char) : Option Span :=
  (componentDeclaration.find? content).map fun m =>
    ⟨m.stop, ((bodyExit.findAfter? content m.stop).map (·.start)).getD content.length⟩

/-- The expression of a statement without its end. -/
def exprOf (statement : List Char) : List Char :=
  trimEnd (dropEndWhile (· == ';') (trimEnd statement))

/-- The initializer that starts at position `pos`. -/
def atPosition (content : List Char) (pos : Nat) : Initializer :=
  let rest := content.drop pos
  let n := statementLength (charBefore? content pos) rest
  ⟨byteOffset content pos, byteOffset content (pos + n), exprOf (rest.take n)⟩

/-- The initializers of the declarations that the pattern finds. -/
def all (content : List Char) (declaration : Pattern) : List Initializer :=
  match region? content with
  | none => []
  | some region =>
    (declaration.matchesOf (region.text content)).map fun m =>
      atPosition content (region.start + m.stop)

/-- Replaces the selected initializers, the last first. -/
def replaceAll (wrap : List Char → List Char) (ds : List Initializer) (content : List Char) :
    Except Fault (List Char) :=
  ds.foldrM (fun d out => replaceBytes d.start d.stop (wrap d.expr ++ [';']) out) content

/-- A handler that can be kept between renders: an arrow function without markup. -/
def isHandler (d : Initializer) : Bool := arrowHead.isIn d.expr && !markupTag.isIn d.expr

/-- A value derived from a collection, worth computing once. -/
def isDerivation (d : Initializer) : Bool :=
  !startsWith d.expr "use".toList && !arrowHead.isIn d.expr &&
    !contains d.expr "await ".toList && derivation.isIn d.expr && !markupTag.isIn d.expr

def handlers (content : List Char) : List Initializer :=
  (all content handlerDeclaration).filter isHandler

def derivations (content : List Char) : List Initializer :=
  (all content localDeclaration).filter isDerivation

def callbackOf (expr : List Char) : List Char :=
  "useCallback(".toList ++ expr ++ ", ".toList ++ FreeNames.dependencyList expr ++ [')']

def memoOf (expr : List Char) : List Char :=
  "useMemo(() => ".toList ++ expr ++ ", ".toList ++ FreeNames.dependencyList expr ++ [')']

end Initializer

end Recast
