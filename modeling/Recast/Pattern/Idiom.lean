import Recast.Pattern.Component

/-!
# Idiom patterns

The idioms of older component source that are replaced when its code moves to the
generated layout: environment variables, history calls, class members, and paths
to assets.
-/

namespace Recast.Pattern.Idiom

open Pattern Component

def environmentVariable : Pattern := wordEdge ++ lit "process.env.REACT_APP_"

def environmentMode : Pattern := wordEdge ++ lit "process.env.NODE_ENV" ++ wordEdge

def historyPush : Pattern := wordEdge ++ lit "history.push("

def historyReplace : Pattern :=
  wordEdge ++ lit "history.replace(" ++ group 1 (star (noneIn "()")) ++ lit ")"

def historyBack : Pattern := wordEdge ++ lit "history.goBack(" ++ blanks ++ lit ")"

/-- What may follow a declaration on its line. -/
def declarationEnd : Pattern := opt (lit ";") ++ star (oneIn " \t") ++ opt (lit "\n")

def historyDeclaration : Pattern :=
  lineIndent ++ constOrLet ++ blanks1 ++ lit "history" ++ blanks ++ lit "=" ++ blanks ++
    lit "useHistory(" ++ blanks ++ lit ")" ++ blanks ++ declarationEnd

def propsOrState : Pattern := oneOfWords ["props", "state"]

def bindingDestructuring : Pattern :=
  lineIndent ++ constOrLet ++ blanks ++ lit "\x7b" ++ star (noneIn "\x7b\x7d") ++ lit "\x7d" ++ blanks ++
    lit "=" ++ blanks ++ opt (lit "this.") ++ propsOrState ++ blanks ++ declarationEnd

def setStateObject : Pattern :=
  wordEdge ++ lit "this.setState(" ++ blanks ++ lit "\x7b" ++ group 1 (star (noneIn "\x7b\x7d")) ++
    lit "\x7d" ++ blanks ++ lit ")"

def thisProps : Pattern := wordEdge ++ lit "this." ++ propsOrState ++ lit "."

def thisMember : Pattern := wordEdge ++ lit "this."

def assetExtension : Pattern :=
  oneOf [lit "png", lit "jp" ++ opt (lit "e") ++ lit "g", lit "gif", lit "svg", lit "webp",
    lit "avif", lit "ico", lit "mp4", lit "webm", lit "mp3", lit "wav",
    lit "woff" ++ opt (lit "2")]

/-- A character of a quoted path. -/
def pathChar : Pattern := char fun c => c != '"' && c != '\'' && !Text.isBlank c

/-- A relative path to an asset, with its file name as group `i`. -/
def relativeAsset (i : Nat) : Pattern :=
  plus (lit "." ++ opt (lit ".") ++ lit "/") ++ opt (star pathChar ++ lit "/") ++
    group i (plus (char fun c => c != '/' && c != '"' && c != '\'' && !Text.isBlank c) ++
      lit "." ++ assetExtension)

def assetString : Pattern := group 1 (oneIn "\"'") ++ relativeAsset 2 ++ oneIn "\"'"

def assetRequire : Pattern :=
  wordEdge ++ lit "require(" ++ blanks ++ oneIn "\"'" ++ relativeAsset 1 ++ oneIn "\"'" ++
    blanks ++ lit ")"

def assetPath : Pattern :=
  either textStart (lit "/") ++ plus (noneIn "/") ++ lit "." ++ assetExtension ++ textEnd

def classNameValue : Pattern :=
  lit "className=" ++
    either (lit "\"" ++ group 1 (star (noneIn "\"")) ++ lit "\"")
      (lit "'" ++ group 2 (star (noneIn "'")) ++ lit "'")

end Recast.Pattern.Idiom
