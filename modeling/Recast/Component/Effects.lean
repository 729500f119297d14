import Recast.Component.State
import Recast.Text.Lines

/-!
# Effects

Effects come from hooks in a function and from lifecycle methods in a class.
-/

namespace Recast.Effect

open Text Pattern.Component

def hookKind : String → EffectKind
  | "useEffect" => .effect
  | "useLayoutEffect" => .layoutEffect
  | "useMemo" => .memo
  | _ => .callback

def lifecycleKind : String → EffectKind
  | "componentDidMount" => .mount
  | "componentDidUpdate" => .update
  | _ => .unmount

/-- The names in a dependency list, read from the last of several arguments. -/
def dependenciesOf (args : List (List Char)) : List (List Char) :=
  match args with
  | [] | [_] => []
  | _ :: rest =>
    let list := trim (rest.getLastD [])
    if list.head? == some '[' then
      let inside := list.drop 1
      let inside := (dropSuffix? [']'] inside).getD inside
      ((splitOn ',' inside).map trim).filter (!·.isEmpty)
    else []

def ofHooks (body : List Char) : List Effect :=
  (effectHook.matchesOf body).map fun m =>
    let args := StateBinding.arguments body m
    ⟨hookKind (String.ofList (m.groupText body 1)), (dependenciesOf args).map String.ofList,
      args.head?.map fun a => String.ofList (trim a)⟩

def ofClass (classBody : List Char) : List Effect :=
  (lifecycleMethod.matchesOf classBody).map fun m =>
    ⟨lifecycleKind (String.ofList (m.groupText classBody 1)), [],
      (enclosed? (classBody.drop (m.stop - 1))).map fun (inside, _) =>
        String.ofList (dedent inside)⟩

end Recast.Effect
