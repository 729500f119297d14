import Recast.Component.Basic
import Recast.Pattern.Idiom
import Recast.Text.Str

/-!
# Import sets

The import declarations of one generated module, in the order in which their
origins were first named. Each name is bound once. An imported asset becomes a
constant that holds its public path.
-/

namespace Recast

structure ImportEntry where
  origin : String
  typeOnly : Bool
  default? : Option String := none
  module? : Option String := none
  named : List String := []
  deriving DecidableEq, Repr

structure Asset where
  name : String
  path : String
  deriving DecidableEq, Repr

structure ImportSet where
  entries : List ImportEntry := []
  sideEffects : List String := []
  assets : List Asset := []
  deriving DecidableEq, Repr

namespace ImportSet

def addOnce (xs : List String) (x : String) : List String :=
  if xs.contains x then xs else xs ++ [x]

/-- Updates the entry of an origin, which is made if it is not there. -/
def updateEntry (origin : String) (typeOnly : Bool) (f : ImportEntry → ImportEntry) :
    List ImportEntry → List ImportEntry
  | [] => [f { origin, typeOnly }]
  | e :: es =>
    if e.origin == origin && e.typeOnly == typeOnly then f e :: es
    else e :: updateEntry origin typeOnly f es

def update (s : ImportSet) (origin : String) (typeOnly : Bool) (f : ImportEntry → ImportEntry) :
    ImportSet :=
  { s with entries := updateEntry origin typeOnly f s.entries }

/-- The first default name of an origin stays. -/
def addDefault (s : ImportSet) (origin name : String) : ImportSet :=
  s.update origin false fun e => { e with default? := e.default?.or (some name) }

def addModule (s : ImportSet) (origin name : String) : ImportSet :=
  s.update origin false fun e => { e with module? := e.module?.or (some name) }

def addNamed (s : ImportSet) (origin name : String) : ImportSet :=
  s.update origin false fun e => { e with named := addOnce e.named name }

def addType (s : ImportSet) (origin name : String) : ImportSet :=
  s.update origin true fun e => { e with named := addOnce e.named name }

def addSideEffect (s : ImportSet) (origin : String) : ImportSet :=
  { s with sideEffects := addOnce s.sideEffects origin }

/-- The public path of an asset: its file name under `/assets/`. -/
def assetPath (origin : String) : String :=
  "/assets/" ++ .ofList ((Text.splitOn '/' origin.toList).getLastD [])

def addAsset (s : ImportSet) (name origin : String) : ImportSet :=
  { s with assets := s.assets ++ [⟨name, assetPath origin⟩] }

def hasNamed (s : ImportSet) (origin name : String) : Bool :=
  s.entries.any fun e => e.origin == origin && e.named.contains name

def clause (e : ImportEntry) : List String :=
  e.default?.toList ++ (e.module?.map ("* as " ++ ·)).toList ++
    (if e.named.isEmpty then [] else [Str.braced (" " ++ String.intercalate ", " e.named ++ " ")])

def renderEntry? (e : ImportEntry) : Option String :=
  let keyword := if e.typeOnly then "import type " else "import "
  if (clause e).isEmpty then none
  else some (keyword ++ String.intercalate ", " (clause e) ++ " from '" ++ e.origin ++ "';")

def render (s : ImportSet) : List String :=
  s.entries.filterMap renderEntry? ++ s.sideEffects.map fun o => "import '" ++ o ++ "';"

def assetConstants (s : ImportSet) : List String :=
  s.assets.map fun a => "const " ++ a.name ++ " = '" ++ a.path ++ "';"

end ImportSet

end Recast

/-!
## Carried imports

The imports of the source that the generated component keeps. Imports of the
framework are left out, for they follow from the generated code, and names of the
router become those of its next version.
-/

namespace Recast.ImportSet

inductive RouterName
  | renamed (name : String)
  | dropped
  | kept

def routerName : String → RouterName
  | "useHistory" => .renamed "useNavigate"
  | "withRouter" => .dropped
  | "Switch" => .renamed "Routes"
  | "Redirect" => .renamed "Navigate"
  | _ => .kept

/-- The imported name without a local name after `as`. -/
def importedName (name : String) : String :=
  match Text.cut? name.toList " as ".toList with
  | some (n, _) => .ofList (Text.trim n)
  | none => Str.trim name

def isLeftOut (hasService : Bool) (origin : String) : Bool :=
  origin == "react" || origin == "prop-types" || (origin == "axios" && hasService)

def isRouter (origin : String) : Bool := origin == "react-router" || origin == "react-router-dom"

def carryRouter (s : ImportSet) (b : ImportBinding) : ImportSet :=
  match routerName (importedName b.name) with
  | .renamed n => s.addNamed "react-router-dom" n
  | .dropped => s
  | .kept => s.addNamed "react-router-dom" b.name

def isAsset (origin : String) : Bool := Pattern.Idiom.assetPath.isIn origin.toList

def carry (hasService : Bool) (s : ImportSet) (b : ImportBinding) : ImportSet :=
  if isLeftOut hasService b.origin then s
  else if isRouter b.origin then s.carryRouter b
  else
    match b.kind with
    | .default =>
      if isAsset b.origin then s.addAsset b.name b.origin else s.addDefault b.origin b.name
    | .named => s.addNamed b.origin b.name
    | .wholeModule => s.addModule b.origin b.name
    | .sideEffect => s.addSideEffect b.origin

/-- The carried imports of a component; with a service, requests need no client. -/
def ofFacts (f : Facts) (hasService : Bool) : ImportSet := f.imports.foldl (carry hasService) {}

end Recast.ImportSet
