import Mathlib.Data.List.Forall2
import Recast.Proofs.Optimize.Rounds

/-!
# What a round of passes does

The passes are arbitrary: any targets, any applicability check, any transformation. On one
file they run as a left fold over its content, and a pass takes part in it only with a
text that is accepted: the pass selects the content, its transformation succeeds, and the
text is balanced or the content was not. A pass that is skipped might as well be absent.
What is reported follows from the steps, file by file and pass by pass
(`optimize_accounts`).
-/

namespace Recast.Pass

def accepted? (p : Pass) (kind : ArtifactKind) (content : String) : Option String :=
  if p.targets kind && p.isApplicable content then
    match p.transform content with
    | .ok (.ok output) =>
      if isBalancedText output || !isBalancedText content then some output else none
    | _ => none
  else none

def rewrite (p : Pass) (kind : ArtifactKind) (content : String) : String :=
  (p.accepted? kind content).getD content

/-- Why a pass that selects the content is skipped on it. -/
def refusal? (p : Pass) (kind : ArtifactKind) (content : String) : Option PassError :=
  if p.targets kind && p.isApplicable content then
    match p.transform content with
    | .ok (.error e) => some e
    | .ok (.ok output) =>
      if isBalancedText content && !isBalancedText output then some (.unbalanced p.name) else none
    | .error _ => none
  else none

def Returns (p : Pass) (kind : ArtifactKind) (content : String) : Prop :=
  p.targets kind = true → p.isApplicable content = true → ∃ r, p.transform content = .ok r

theorem accepted?_eq_some_iff {p : Pass} {kind : ArtifactKind} {content output : String} :
    p.accepted? kind content = some output ↔ p.targets kind = true ∧ p.isApplicable content = true ∧
      p.transform content = .ok (.ok output) ∧
      (isBalancedText output = true ∨ isBalancedText content = false) := by
  unfold accepted?
  cases p.targets kind <;> cases p.isApplicable content <;> simp
  cases p.transform content with
  | error e => simp
  | ok r =>
    cases r with
    | error e => simp
    | ok output' =>
      by_cases h : isBalancedText output' = true ∨ isBalancedText content = false
      · simp only [h, if_true, Option.some.injEq, Except.ok.injEq]
        constructor
        · rintro rfl
          exact ⟨rfl, h⟩
        · exact fun h' => h'.1
      · simp only [h, if_false, Except.ok.injEq, reduceCtorEq, false_iff, not_and]
        rintro rfl
        exact h

theorem rewrite_of_refusal? {p : Pass} {kind : ArtifactKind} {content : String} {e : PassError}
    (h : p.refusal? kind content = some e) : p.rewrite kind content = content := by
  have hnone : p.accepted? kind content = none := by
    rw [Option.eq_none_iff_forall_ne_some]
    intro output ha
    obtain ⟨ht, hs, hr, hb⟩ := accepted?_eq_some_iff.1 ha
    simp only [refusal?, ht, hs, hr, Bool.and_self, if_true] at h
    rcases hb with hb | hb <;> simp [hb] at h
  simp [rewrite, hnone]

theorem balanced_rewrite {p : Pass} {kind : ArtifactKind} {content : String}
    (h : isBalancedText content = true) : isBalancedText (p.rewrite kind content) = true := by
  unfold rewrite
  cases ha : p.accepted? kind content with
  | none => exact h
  | some output =>
    obtain ⟨-, -, -, hb | hb⟩ := accepted?_eq_some_iff.1 ha
    · exact hb
    · simp [h] at hb

/-- The content that the passes lead to. -/
def reach (kind : ArtifactKind) (passes : List Pass) (content : String) : String :=
  passes.foldl (fun content p => p.rewrite kind content) content

/-- The passes, each with the content that it is given. -/
def steps (kind : ArtifactKind) : List Pass → String → List (Pass × String)
  | [], _ => []
  | p :: ps, content => (p, content) :: steps kind ps (p.rewrite kind content)

theorem balanced_reach {kind : ArtifactKind} {passes : List Pass} {content : String}
    (h : isBalancedText content = true) : isBalancedText (reach kind passes content) = true := by
  induction passes generalizing content with
  | nil => exact h
  | cons p ps ih => exact ih (balanced_rewrite h)

theorem steps_append (kind : ArtifactKind) (before after : List Pass) (content : String) :
    steps kind (before ++ after) content =
      steps kind before content ++ steps kind after (reach kind before content) := by
  induction before generalizing content with
  | nil => rfl
  | cons p ps ih => simp [steps, reach, ih]

theorem mem_of_mem_steps {kind : ArtifactKind} {passes : List Pass} {content : String}
    {step : Pass × String} (h : step ∈ steps kind passes content) : step.1 ∈ passes := by
  induction passes generalizing content with
  | nil => cases h
  | cons p ps ih =>
    rcases List.mem_cons.1 h with rfl | h
    · exact List.mem_cons_self
    · exact List.mem_cons_of_mem _ (ih h)

/-- A pass that is skipped might as well be absent: the other passes are given the same
contents and lead to the same one. -/
theorem steps_of_refusal? {kind : ArtifactKind} {before after : List Pass} {p : Pass} {content : String}
    {e : PassError} (h : p.refusal? kind (reach kind before content) = some e) :
    steps kind (before ++ p :: after) content =
        steps kind before content ++ (p, reach kind before content) ::
          steps kind after (reach kind before content) ∧
      reach kind (before ++ p :: after) content = reach kind (before ++ after) content := by
  have hstay := rewrite_of_refusal? h
  constructor
  · rw [steps_append, steps, hstay]
  · simp only [reach, List.foldl_append, List.foldl_cons] at hstay ⊢
    rw [hstay]

variable (passes : List Pass)

def improved (f : GeneratedFile) : GeneratedFile :=
  if f.isTest then f
  else { f with content := reach f.kind passes f.content }

def stepsOn (f : GeneratedFile) : List (Pass × String) :=
  if f.isTest then [] else steps f.kind passes f.content

def appliedAt (f : GeneratedFile) (step : Pass × String) : Option AppliedPass :=
  match step.1.accepted? f.kind step.2 with
  | some output => if output = step.2 then none else some ⟨step.1.name, f.displayPath⟩
  | none => none

def warningAt (f : GeneratedFile) (step : Pass × String) : Option Diagnostic :=
  (step.1.refusal? f.kind step.2).map fun e =>
    ⟨.optimizationWarning, step.1.skipped f.displayPath e⟩

end Recast.Pass

namespace Recast.OptimizationReport

/-- The report with what further steps add to it. -/
def after (report : OptimizationReport) (applied : List AppliedPass) (warnings : List Diagnostic) :
    OptimizationReport :=
  ⟨report.applied ++ applied, report.diagnostics.errors, report.diagnostics.warnings ++ warnings⟩

@[simp] theorem after_nil (report : OptimizationReport) : report.after [] [] = report := by
  simp [after]

@[simp] theorem after_after (report : OptimizationReport) (a₁ a₂ : List AppliedPass)
    (w₁ w₂ : List Diagnostic) : (report.after a₁ w₁).after a₂ w₂ = report.after (a₁ ++ a₂) (w₁ ++ w₂) := by
  simp [after]

end Recast.OptimizationReport

namespace Recast.Pass

/-- A pass that selects the content either has its text accepted or is skipped. -/
theorem outcome_cases {p : Pass} {kind : ArtifactKind} {content : String}
    (ht : p.targets kind = true) (hi : p.isApplicable content = true)
    (h : p.Returns kind content) :
    (∃ output, p.outcome content = .ok (.ok output) ∧ p.accepted? kind content = some output ∧
      p.refusal? kind content = none) ∨
    ∃ e, p.outcome content = .ok (.error e) ∧ p.accepted? kind content = none ∧
      p.refusal? kind content = some e := by
  obtain ⟨r, hr⟩ := h ht hi
  cases r with
  | error e =>
    refine .inr ⟨e, ?_, ?_, ?_⟩
    · simp [outcome, hr, bind, Except.bind, pure, Except.pure]
    · simp [accepted?, ht, hi, hr]
    · simp [refusal?, ht, hi, hr]
  | ok output =>
    have houtcome := outcome_of_transform hr
    by_cases hb : isBalancedText content = true ∧ isBalancedText output = false
    · refine .inr ⟨.unbalanced p.name, ?_, ?_, ?_⟩
      · simpa [hb] using houtcome
      · simp [accepted?, ht, hi, hr, hb]
      · simp [refusal?, ht, hi, hr, hb]
    · have hkept : (isBalancedText content && !isBalancedText output) = false := by
        simpa using hb
      have haccept : (isBalancedText output || !isBalancedText content) = true := by
        simpa [Bool.or_comm] using congrArg (!·) hkept
      refine .inl ⟨output, ?_, ?_, ?_⟩
      · simpa [hkept] using houtcome
      · simp [accepted?, ht, hi, hr, haccept]
      · simp [refusal?, ht, hi, hr, hkept]

variable {p : Pass} {passes : List Pass} {f : GeneratedFile}

theorem applyTo_of_returns (h : p.Returns f.kind f.content) (report : OptimizationReport) :
    applyTo (f, report) p = .ok ({ f with content := p.rewrite f.kind f.content },
      report.after (appliedAt f (p, f.content)).toList (warningAt f (p, f.content)).toList) := by
  cases hs : p.selects f with
  | false =>
    have hs' : (p.targets f.kind && p.isApplicable f.content) = false := hs
    have ha : p.accepted? f.kind f.content = none := by simp [accepted?, hs']
    have hr : p.refusal? f.kind f.content = none := by simp [refusal?, hs']
    rw [applyTo_of_not_selects hs]
    simp [rewrite, appliedAt, warningAt, ha, hr]
  | true =>
    obtain ⟨ht, hi⟩ : p.targets f.kind = true ∧ p.isApplicable f.content = true := by
      simpa [selects] using hs
    rcases outcome_cases ht hi h with ⟨output, ho, ha, hr⟩ | ⟨e, ho, ha, hr⟩
    · by_cases he : output = f.content
      · simp [applyTo, hs, ho, rewrite, appliedAt, warningAt, ha, hr, he, bind, Except.bind, pure,
          Except.pure]
      · simp [applyTo, hs, ho, rewrite, appliedAt, warningAt, ha, hr, he, bind, Except.bind, pure,
          Except.pure, OptimizationReport.after]
    · simp [applyTo, hs, ho, rewrite, appliedAt, warningAt, ha, hr, bind, Except.bind, pure,
        Except.pure, OptimizationReport.after, Diagnostics.record, Diagnostics.push,
        DiagnosticKind.isError]

theorem applyTo_of_not_returns (h : ¬ p.Returns f.kind f.content) (report : OptimizationReport) :
    applyTo (f, report) p = .error .noBoundary := by
  simp only [Returns, Classical.not_imp, not_exists] at h
  obtain ⟨ht, hi, hr⟩ := h
  have hs : p.selects f = true := by simp [selects, ht, hi]
  cases ho : p.transform f.content with
  | ok r => exact absurd ho (hr r)
  | error e =>
    cases e
    simp [applyTo, hs, outcome, ho, bind, Except.bind]

theorem foldlM_applyTo_of_returns (h : ∀ step ∈ steps f.kind passes f.content, step.1.Returns f.kind step.2)
    (report : OptimizationReport) :
    passes.foldlM applyTo (f, report) =
      .ok ({ f with content := reach f.kind passes f.content },
        report.after ((steps f.kind passes f.content).filterMap (appliedAt f))
          ((steps f.kind passes f.content).filterMap (warningAt f))) := by
  induction passes generalizing f report with
  | nil => simp [steps, reach, pure, Except.pure]
  | cons p ps ih =>
    obtain ⟨hp, hps⟩ := List.forall_mem_cons.1 h
    rw [List.foldlM_cons, applyTo_of_returns hp]
    -- The kind and the path stay, so the steps of the rest are read off the same file.
    have hrest := ih (f := { f with content := p.rewrite f.kind f.content }) hps
    refine (hrest _).trans ?_
    rw [OptimizationReport.after_after]
    have ha : (steps f.kind (p :: ps) f.content).filterMap (appliedAt f) =
        (appliedAt f (p, f.content)).toList ++
          (steps f.kind ps (p.rewrite f.kind f.content)).filterMap (appliedAt f) := by
      rw [steps, List.filterMap_cons]
      cases appliedAt f (p, f.content) <;> rfl
    have hw : (steps f.kind (p :: ps) f.content).filterMap (warningAt f) =
        (warningAt f (p, f.content)).toList ++
          (steps f.kind ps (p.rewrite f.kind f.content)).filterMap (warningAt f) := by
      rw [steps, List.filterMap_cons]
      cases warningAt f (p, f.content) <;> rfl
    rw [ha, hw]
    rfl

theorem foldlM_applyTo_of_not_returns {step : Pass × String} (hm : step ∈ steps f.kind passes f.content)
    (h : ¬ step.1.Returns f.kind step.2) (report : OptimizationReport) :
    passes.foldlM applyTo (f, report) = .error .noBoundary := by
  induction passes generalizing f report with
  | nil => cases hm
  | cons p ps ih =>
    rw [List.foldlM_cons]
    by_cases hp : p.Returns f.kind f.content
    · rw [applyTo_of_returns hp]
      refine ih (f := { f with content := p.rewrite f.kind f.content }) ?_ h _
      rcases List.mem_cons.1 hm with rfl | hm
      · exact absurd hp h
      · exact hm
    · rw [applyTo_of_not_returns hp]
      rfl

/-- Every transformation that a round over the files calls gives a result. -/
def AllReturn (passes : List Pass) (files : List GeneratedFile) : Prop :=
  ∀ f ∈ files, ∀ step ∈ stepsOn passes f, step.1.Returns f.kind step.2

theorem applyAll_of_returns (h : ∀ step ∈ stepsOn passes f, step.1.Returns f.kind step.2)
    (report : OptimizationReport) :
    applyAll passes f report = .ok (improved passes f,
      report.after ((stepsOn passes f).filterMap (appliedAt f))
        ((stepsOn passes f).filterMap (warningAt f))) := by
  cases ht : f.isTest with
  | true => simp [applyAll, improved, stepsOn, ht]
  | false =>
    simp only [stepsOn, ht, Bool.false_eq_true, if_false] at h ⊢
    simpa [applyAll, improved, ht] using foldlM_applyTo_of_returns h report

theorem applyAll_of_not_returns {step : Pass × String} (hm : step ∈ stepsOn passes f)
    (h : ¬ step.1.Returns f.kind step.2) (report : OptimizationReport) :
    applyAll passes f report = .error .noBoundary := by
  cases ht : f.isTest with
  | true => simp [stepsOn, ht] at hm
  | false =>
    simp only [stepsOn, ht, Bool.false_eq_true, if_false] at hm
    simpa [applyAll, ht] using foldlM_applyTo_of_not_returns hm h report

variable {files : List GeneratedFile}

theorem optimizeFrom_of_allReturn (h : AllReturn passes files) (report : OptimizationReport) :
    optimizeFrom passes report files = .ok (files.map (improved passes),
      report.after (files.flatMap fun f => (stepsOn passes f).filterMap (appliedAt f))
        (files.flatMap fun f => (stepsOn passes f).filterMap (warningAt f))) := by
  induction files generalizing report with
  | nil => simp [optimizeFrom]
  | cons f fs ih =>
    obtain ⟨hf, hfs⟩ := List.forall_mem_cons.1 h
    simp [optimizeFrom, applyAll_of_returns hf, ih hfs, bind, Except.bind, pure, Except.pure]

theorem optimizeFrom_of_not_allReturn (h : ¬ AllReturn passes files) (report : OptimizationReport) :
    optimizeFrom passes report files = .error .noBoundary := by
  induction files generalizing report with
  | nil => exact absurd (fun f hf => nomatch hf) h
  | cons f fs ih =>
    by_cases hf : ∀ step ∈ stepsOn passes f, step.1.Returns f.kind step.2
    · have hfs : ¬ AllReturn passes fs := fun hfs => h (List.forall_mem_cons.2 ⟨hf, hfs⟩)
      simp [optimizeFrom, applyAll_of_returns hf, ih hfs, bind, Except.bind]
    · simp only [not_forall] at hf
      obtain ⟨step, hm, hr⟩ := hf
      simp [optimizeFrom, applyAll_of_not_returns hm hr, bind, Except.bind]

/-- What became of one file. -/
structure Improves (passes : List Pass) (f g : GeneratedFile) : Prop where
  path : g.path = f.path
  kind : g.kind = f.kind
  tier : g.tier? = f.tier?
  test : f.isTest = true → g.content = f.content
  content : f.isTest = false → g.content = reach f.kind passes f.content
  balanced : isBalancedText f.content = true → isBalancedText g.content = true

theorem improves_improved (passes : List Pass) (f : GeneratedFile) : Improves passes f (improved passes f) := by
  cases ht : f.isTest with
  | true =>
    have hf : improved passes f = f := by simp [improved, ht]
    rw [hf]
    exact ⟨rfl, rfl, rfl, fun _ => rfl, fun hn => by simp [ht] at hn, id⟩
  | false =>
    have hf : improved passes f = { f with content := reach f.kind passes f.content } := by
      simp [improved, ht]
    rw [hf]
    exact ⟨rfl, rfl, rfl, fun hn => by simp [ht] at hn, fun _ => rfl, balanced_reach⟩

/-- The account of a round: the files stay in number and order, and the report lists the
steps that changed a content and those that were skipped. -/
structure Accounted (passes : List Pass) (files out : List GeneratedFile)
    (report : OptimizationReport) : Prop where
  each : List.Forall₂ (Improves passes) files out
  applied : report.applied = files.flatMap fun f => (stepsOn passes f).filterMap (appliedAt f)
  warnings : report.diagnostics.warnings =
    files.flatMap fun f => (stepsOn passes f).filterMap (warningAt f)
  errors : report.diagnostics.errors = []

theorem allReturn_of_total (h : ∀ p ∈ passes, ∀ content, ∃ r, p.transform content = .ok r)
    (files : List GeneratedFile) : AllReturn passes files := by
  intro f _ step hstep _ _
  have hm : step ∈ steps f.kind passes f.content := by
    unfold stepsOn at hstep
    split at hstep
    · cases hstep
    · exact hstep
  exact h step.1 (mem_of_mem_steps hm) step.2

/-- Whatever the passes do, a round over the files is accounted for, unless a transformation
that it calls gives no result. -/
theorem optimize_accounts (passes : List Pass) (files : List GeneratedFile) :
    (AllReturn passes files →
      ∃ out report, optimize passes files = .ok (out, report) ∧ Accounted passes files out report) ∧
    (¬ AllReturn passes files → ∃ e, optimize passes files = .error e) ∧
    ∀ kind before after p content e, p.refusal? kind (reach kind before content) = some e →
      steps kind (before ++ p :: after) content =
          steps kind before content ++ (p, reach kind before content) ::
            steps kind after (reach kind before content) ∧
        reach kind (before ++ p :: after) content = reach kind (before ++ after) content := by
  refine ⟨fun h => ?_, fun h => ⟨_, optimizeFrom_of_not_allReturn h {}⟩, fun _ _ _ _ _ _ => steps_of_refusal?⟩
  refine ⟨_, _, optimizeFrom_of_allReturn h {}, ?_, rfl, rfl, rfl⟩
  rw [List.forall₂_map_right_iff]
  exact List.forall₂_same.2 fun f _ => improves_improved passes f

/-- A pass that opens a bracket and leaves it open. -/
def unclosed : Pass := ⟨"unclosed", fun _ => true, fun _ => true, fun content => .ok (.ok (content ++ "("))⟩

def ended : Pass := ⟨"ended", fun _ => true, fun _ => true, fun content => .ok (.ok (content ++ ";"))⟩

def divider : GeneratedFile := ⟨"Divider.tsx", "export default Divider", .component, some .leaf⟩

theorem unclosed_skipped_ended_applied :
    ∃ out report, optimize [unclosed, ended] [divider] = .ok (out, report) ∧
      Accounted [unclosed, ended] [divider] out report ∧
      report.applied = [⟨"ended", "Divider.tsx"⟩] ∧ report.diagnostics.warnings.length = 1 := by
  have htotal : ∀ p ∈ [unclosed, ended], ∀ content, ∃ r, p.transform content = .ok r := by
    intro p hp content
    simp only [List.mem_cons, List.not_mem_nil, or_false] at hp
    rcases hp with rfl | rfl <;> exact ⟨_, rfl⟩
  obtain ⟨out, report, h, ha⟩ :=
    (optimize_accounts [unclosed, ended] [divider]).1 (allReturn_of_total htotal _)
  refine ⟨out, report, h, ha, ?_, ?_⟩
  · rw [ha.applied]
    decide +kernel
  · rw [ha.warnings]
    decide +kernel

end Recast.Pass
