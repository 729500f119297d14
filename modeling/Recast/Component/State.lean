import Recast.Component.Entry
import Recast.Component.ValueType
import Recast.Pattern.Component

/-!
# State

State comes from hooks in a function and from the state object in a class. Without
an initial value it starts undefined.
-/

namespace Recast.StateBinding

open Text Pattern.Component

def make (name : List Char) (setter? : Option (List Char)) (initial? : Option (List Char)) :
    StateBinding :=
  let initial := initial?.getD "undefined".toList
  ⟨String.ofList name, setter?.map String.ofList, ValueType.ofLiteral initial,
    String.ofList initial⟩

/-- The arguments of the call whose bracket is the last character of the match. -/
def arguments (text : List Char) (m : Match) : List (List Char) :=
  match enclosed? (text.drop (m.stop - 1)) with
  | none => []
  | some (inside, _) => splitTopLevel ',' inside

/-- State declared by hooks, the plain hooks before the reducers. -/
def ofHooks (body : List Char) : List StateBinding :=
  ((stateHook.matchesOf body).map fun m =>
    make (m.groupText body 1) (m.groupText? body 2) ((arguments body m).head?.map trim)) ++
  (reducerHook.matchesOf body).map fun m =>
    make (m.groupText body 1) (m.groupText? body 2) ((arguments body m)[1]?.map trim)

/-- State declared by the state object of a class. -/
def ofClass (classBody : List Char) : Except Fault (List StateBinding) :=
  match classState.find? classBody with
  | none => return []
  | some m =>
    match enclosed? (classBody.drop (m.stop - 1)) with
    | none => return []
    | some (inside, _) => return (← Entry.all inside).map fun e => make e.key none e.value?

end Recast.StateBinding
