import Recast.Pattern.Build

/-!
# Component patterns

How declarations, hooks, class members, props and uses of the platform look in
the source of a component.
-/

namespace Recast.Pattern.Component

open Pattern

def reactPrefix : Pattern := opt (lit "React.")

def declarationWord : Pattern := oneOfWords ["const", "let", "var"]

def constOrLet : Pattern := oneOfWords ["const", "let"]

def classDeclaration : Pattern :=
  wordEdge ++ lit "class" ++ blanks1 ++ group 1 componentName ++ blanks1 ++ lit "extends" ++
    blanks1 ++ reactPrefix ++ opt (lit "Pure") ++ lit "Component" ++ wordEdge

def functionDeclaration : Pattern :=
  wordEdge ++ lit "function" ++ blanks1 ++ group 1 componentName ++ blanks ++ lit "("

/-- A parameter list without inner brackets, or a single name. -/
def arrowParameters : Pattern := either (lit "(" ++ star (noneIn ")") ++ lit ")") name

def arrowDeclaration : Pattern :=
  wordEdge ++ declarationWord ++ blanks1 ++ group 1 componentName ++ blanks ++
    opt (lit ":" ++ blanks ++
      plus (char fun c => Unicode.isWordChar c || c == '.' || c == '<' || c == '>') ++ blanks) ++
    lit "=" ++ blanks ++ opt (lit "async" ++ blanks1) ++ arrowParameters ++ blanks ++ lit "=>"

def wrappedDeclaration : Pattern :=
  wordEdge ++ declarationWord ++ blanks1 ++ group 1 componentName ++ blanks ++ lit "=" ++ blanks ++
    reactPrefix ++ oneOfWords ["memo", "forwardRef"] ++ blanks ++ lit "("

def defaultExport : Pattern :=
  wordEdge ++ lit "export" ++ blanks1 ++ lit "default" ++ blanks1 ++
    star (reactPrefix ++ oneOfWords ["memo", "withRouter", "forwardRef"] ++ blanks ++ lit "(" ++
      blanks) ++
    group 1 componentName

def namedExport : Pattern :=
  wordEdge ++ lit "export" ++ blanks1 ++ oneOfWords ["const", "let", "var", "function", "class"] ++
    blanks1 ++ group 1 name

def importLine : Pattern :=
  lineIndent ++ lit "import" ++ blanks1 ++
    opt (group 1 (lazyPlus (noneIn ";'\"")) ++ blanks1 ++ lit "from" ++ blanks1) ++
    oneIn "'\"" ++ group 2 (plus (noneIn "'\"\n")) ++ oneIn "'\"" ++ star (oneIn " \t") ++
    opt (lit ";")

def stateHook : Pattern :=
  wordEdge ++ constOrLet ++ blanks ++ lit "[" ++ blanks ++ group 1 name ++ blanks ++
    opt (lit "," ++ blanks ++ group 2 name ++ blanks) ++ lit "]" ++ blanks ++ lit "=" ++ blanks ++
    reactPrefix ++ lit "useState" ++ blanks ++ opt (lit "<" ++ star (noneIn ">") ++ lit ">") ++
    blanks ++ lit "("

def reducerHook : Pattern :=
  wordEdge ++ constOrLet ++ blanks ++ lit "[" ++ blanks ++ group 1 name ++ blanks ++ lit "," ++
    blanks ++ group 2 name ++ blanks ++ lit "]" ++ blanks ++ lit "=" ++ blanks ++ reactPrefix ++
    lit "useReducer" ++ blanks ++ lit "("

def effectHook : Pattern :=
  wordEdge ++ reactPrefix ++
    group 1 (oneOfWords ["useEffect", "useLayoutEffect", "useMemo", "useCallback"]) ++ blanks ++
    lit "("

/-- Any hook; a class component cannot use one. -/
def anyHook : Pattern :=
  wordEdge ++ reactPrefix ++
    group 1 (oneOfWords ["useState", "useReducer", "useEffect", "useLayoutEffect", "useMemo",
      "useCallback", "useRef", "useContext"]) ++ blanks ++ lit "("

def lifecycleMethod : Pattern :=
  lineIndent ++ opt (lit "async" ++ blanks1) ++
    group 1 (oneOfWords ["componentDidMount", "componentDidUpdate", "componentWillUnmount"]) ++
    blanks ++ lit "(" ++ star (noneIn ")") ++ lit ")" ++ blanks ++ lit "\x7b"

def classState : Pattern :=
  either (wordEdge ++ lit "this.") lineIndent ++ lit "state" ++ blanks ++ lit "=" ++ blanks ++
    lit "\x7b"

def renderMethod : Pattern :=
  lineIndent ++ lit "render" ++ blanks ++ lit "(" ++ blanks ++ lit ")" ++ blanks ++ lit "\x7b"

/-- The component a static member is assigned to, or the word that puts it in the
class body. -/
def memberOwner : Pattern :=
  either (wordEdge ++ group 1 componentName ++ lit ".") (wordEdge ++ lit "static" ++ blanks1)

def propTypesBlock : Pattern :=
  memberOwner ++ lit "propTypes" ++ blanks ++ lit "=" ++ blanks ++ lit "\x7b"

def propTypeEntry : Pattern :=
  textStart ++ blanks ++ group 1 name ++ blanks ++ lit ":" ++ blanks ++ lit "PropTypes." ++
    group 2 (plus wordChar)

def defaultPropsBlock : Pattern :=
  memberOwner ++ lit "defaultProps" ++ blanks ++ lit "=" ++ blanks ++ lit "\x7b"

def propsAccess : Pattern :=
  wordEdge ++ opt (lit "this.") ++ lit "props." ++ group 1 name

def propsDestructuring : Pattern :=
  wordEdge ++ constOrLet ++ blanks ++ lit "\x7b" ++ group 1 (star (noneIn "\x7b\x7d")) ++ lit "\x7d" ++
    blanks ++ lit "=" ++ blanks ++ opt (lit "this.") ++ lit "props" ++ wordEdge

/-- A member of the props object under the name `object`. -/
def aliasAccess (object : List Char) : Pattern :=
  wordEdge ++ lit (String.ofList object) ++ lit "." ++ group 1 name

/-- Names taken out of the props object under the name `object`. -/
def aliasDestructuring (object : List Char) : Pattern :=
  wordEdge ++ constOrLet ++ blanks ++ lit "\x7b" ++ group 1 (star (noneIn "\x7b\x7d")) ++ lit "\x7d" ++
    blanks ++ lit "=" ++ blanks ++ lit (String.ofList object) ++ wordEdge

def classNameAttribute : Pattern :=
  lit "className" ++ blanks ++ lit "=" ++ blanks ++
    oneOf [lit "\"" ++ group 1 (star (noneIn "\"")) ++ lit "\"",
      lit "'" ++ group 2 (star (noneIn "'")) ++ lit "'",
      lit "\x7b" ++ blanks ++ oneIn "\"'`" ++ group 3 (star (noneIn "\"'`$")) ++ oneIn "\"'`" ++
        blanks ++ lit "\x7d"]

def requestCall : Pattern :=
  wordEdge ++
    either (lit "fetch")
      (lit "axios" ++ opt (lit "." ++ oneOfWords ["get", "post", "put", "patch", "delete"])) ++
    blanks ++ lit "(" ++ blanks ++ oneIn "\"'`" ++ group 1 (plus (noneIn "\"'`$")) ++ oneIn "\"'`"

def handlerName : Pattern := oneOfWords ["handle", "on"] ++ capital ++ star wordChar

def arrowHandler : Pattern :=
  lineIndent ++ group 1 handlerName ++ blanks ++ lit "=" ++ blanks ++
    opt (lit "async" ++ blanks) ++ either (lit "(" ++ star (noneIn "()") ++ lit ")") name ++
    blanks ++ lit "=>"

def methodHandler : Pattern :=
  lineIndent ++ opt (group 1 (lit "async" ++ blanks1)) ++ group 2 handlerName ++ blanks ++
    lit "(" ++ group 3 (star (noneIn "()")) ++ lit ")" ++ blanks ++ lit "\x7b"

def navigationUse : Pattern :=
  oneOf [lit "react-router", wordEdge ++ lit "useHistory" ++ wordEdge,
    wordEdge ++ lit "useNavigate" ++ wordEdge, wordEdge ++ lit "withRouter" ++ wordEdge,
    wordEdge ++ lit "history." ++ oneOfWords ["push", "replace", "goBack"] ++ wordEdge,
    lit "<" ++ opt (lit "Nav") ++ lit "Link" ++ wordEdge]

def mediaUse : Pattern :=
  lit "<" ++ oneOfWords ["img", "video", "audio", "picture", "iframe"] ++ wordEdge

def animationUse : Pattern :=
  oneOf [lit "framer-motion", lit "react-spring", lit "react-transition-group", lit "<motion.",
    wordEdge ++ lit "useSpring" ++ wordEdge, lit "@keyframes", lit "requestAnimationFrame"]

def remoteDataUse : Pattern :=
  oneOf [wordEdge ++ lit "fetch" ++ blanks ++ lit "(", wordEdge ++ lit "axios" ++ wordEdge,
    wordEdge ++ lit "useQuery" ++ wordEdge, wordEdge ++ lit "useSWR" ++ wordEdge,
    lit "XMLHttpRequest", wordEdge ++ lit "new" ++ blanks1 ++ lit "WebSocket" ++ wordEdge]

end Recast.Pattern.Component
