import Recast.Optimize.Pass
import Recast.Text.Search

/-!
# Response cache

A service keeps the answers to its requests for data. A field for them and a method
that forgets them are added before and after the constructor, a lookup at the start
of the request method and the storing before its return.
-/

namespace Recast.ResponseCache

open Text

def signature : List Char := "private async request<T>(".toList

def jsonReturn : List Char := "return (await response.json()) as T;".toList

def cacheField : List Char := "private readonly cache = new Map<string, unknown>();".toList

def isApplicable (content : List Char) : Bool :=
  contains content signature && contains content jsonReturn && !contains content cacheField

/-- The places in a service at which the cache is put in. -/
structure Anchors where
  constructorStart : Nat
  constructorEnd : Nat
  request : Nat
  bodyOpen : Nat
  jsonReturn : Nat

def find (what : String) (content word : List Char) (start : Nat) : Except PassError Nat :=
  match indexOf? (content.drop start) word with
  | some i => .ok (start + i)
  | none => .error (.anchorNotFound what)

def anchors (content : List Char) : Except PassError Anchors := do
  let request ← find "request method" content signature 0
  let bodyOpen ← find "request body" content "\x7b\n".toList request
  let jsonReturn ← find "response parsing" content jsonReturn 0
  let start ← find "constructor" content "constructor(".toList 0
  let stop ← find "constructor" content ['\n'] start
  if stop < request && bodyOpen < jsonReturn then return ⟨start, stop, request, bodyOpen, jsonReturn⟩
  else .error (.anchorNotFound "request method layout")

def lineStart (content : List Char) (pos : Nat) : Nat :=
  pos - ((content.take pos).reverse.takeWhile (· != '\n')).length

/-- The blanks at the start of the line that holds position `pos`. -/
def indentationAt (content : List Char) (pos : Nat) : List Char :=
  (content.drop (lineStart content pos)).takeWhile isBlank

def slice (content : List Char) (start stop : Nat) : List Char :=
  (content.drop start).take (stop - start)

def linesAt (indent : List Char) (ls : List String) : List Char :=
  ls.flatMap fun l => indent ++ l.toList ++ ['\n']

def clearMethod (member : List Char) : List Char :=
  linesAt member ["clearCache(): void \x7b", "  this.cache.clear();", "\x7d"]

def lookUp (body : List Char) : List Char :=
  linesAt body ["const cacheable = (init?.method ?? 'GET').toUpperCase() === 'GET';",
    "if (cacheable && this.cache.has(path)) \x7b", "  return this.cache.get(path) as T;", "\x7d"]

def store (indent : List Char) : List Char :=
  "const data = (await response.json()) as T;\n".toList ++
    linesAt indent ["if (cacheable) \x7b", "  this.cache.set(path, data);", "\x7d"] ++ indent ++
    "return data;".toList

def insert (content : List Char) (a : Anchors) : List Char :=
  let member := indentationAt content a.request
  let fieldAt := lineStart content a.constructorStart
  content.take fieldAt ++ member ++ cacheField ++ "\n\n".toList ++
    slice content fieldAt (a.constructorEnd + 1) ++ '\n' :: clearMethod member ++
    slice content (a.constructorEnd + 1) (a.bodyOpen + 2) ++ lookUp (member ++ "  ".toList) ++
    slice content (a.bodyOpen + 2) a.jsonReturn ++ store (indentationAt content a.jsonReturn) ++
    content.drop (a.jsonReturn + jsonReturn.length)

def transform (content : List Char) : Except PassError (List Char) := do
  return insert content (← anchors content)

end Recast.ResponseCache
