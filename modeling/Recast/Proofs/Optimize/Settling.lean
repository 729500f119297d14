import Recast.Proofs.Optimize.Rounds
import Recast.Proofs.Optimize.Wrapping

/-!
# Settled components

What a second round of the built-in passes does to the files of the first. A service
is done after one round, and files of other kinds are never touched. A component is
left alone exactly if it is settled: nothing is left in it that a pass looks for, or what
the pass makes of it is unbalanced. Only where initializers overlap, and are replaced at
outdated offsets, may wrapping them also give the text back.
-/

namespace Recast.Pass

open Text Pattern.Generated

/-- The initializers overlap, and what the pass makes of the content is the content. -/
def Restores (p : Pass) (ds : List Initializer) (content : String) : Prop :=
  ¬ Initializer.Apart ds ∧ p.transform content = .ok (.ok content)

/-- Nothing is left to do in the component that would change it and not be rejected. -/
structure Settled (content : String) : Prop where
  memo : contains content.toList "memo(".toList = false →
    defaultExportName.isIn content.toList = true → memoizeComponent.Unbalances content
  callbacks : Initializer.handlers content.toList ≠ [] →
    stableCallbacks.Restores (Initializer.handlers content.toList) content ∨
      stableCallbacks.Unbalances content
  derived : Initializer.derivations content.toList ≠ [] →
    memoizeDerivedValues.Restores (Initializer.derivations content.toList) content ∨
      memoizeDerivedValues.Unbalances content
  hints : Media.missingHints content.toList ≠ [] → lazyMedia.Unbalances content

section

variable {p : Pass} {name hook what : String} {kind : ArtifactKind} {applicable : List Char → Bool}
  {select : List Char → List Initializer} {wrap : List Char → List Char} {content : String}

end

section

variable {f f' : GeneratedFile} {report report' : OptimizationReport}

end

end Recast.Pass
