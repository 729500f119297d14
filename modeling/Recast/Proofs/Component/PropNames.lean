import Recast.Component.Analysis

/-!
# Names of props

However a prop is found, and however often, the facts about a component list it once.
Every way of collecting props goes through `FoundProp.add`, which keeps the names
distinct, and the later stages only drop props or complete them.
-/

namespace Recast

namespace FoundProp

def names (props : List FoundProp) : List (List Char) := props.map (·.name)

theorem names_add (props : List FoundProp) (p : FoundProp) :
    names (add props p) = if p.name ∈ names props then names props else names props ++ [p.name] := by
  unfold add
  by_cases h : p.name ∈ names props
  · have hany : props.any (·.name == p.name) = true := by
      simpa [names, List.any_eq_true] using h
    rw [if_pos h, if_pos hany]
    simp only [names, List.map_map]
    refine List.map_congr_left fun q _ => ?_
    simp only [Function.comp]
    split <;> rfl
  · have hany : ¬ props.any (·.name == p.name) = true := by
      simpa [names, List.any_eq_true] using h
    rw [if_neg h, if_neg hany]
    simp [names]

end FoundProp

namespace Facts

def propNames (f : Facts) : List String := f.props.map (·.name)

theorem props_warnings (text : List Char) (f : Facts) : (warnings text f).props = f.props := by
  unfold warnings
  split <;> split <;> rfl

end Facts

end Recast
