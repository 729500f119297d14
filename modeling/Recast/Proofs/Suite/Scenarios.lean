import Recast.Proofs.Artifact.Generated
import Recast.Suite.Synthesis

/-!
# Tests of generated files

Where generation gives files, every one of them gets a test: each artifact that is made has
something to test. So the tests of the artifacts of a plan never fail, and there is one for
each in the same order (`generate_tests_of_generate`).
-/

namespace Recast

theorem mapM_eq_ok_map {α β ε : Type} {f : α → Except ε β} {g : α → β} {xs : List α}
    (h : ∀ x ∈ xs, f x = .ok (g x)) : xs.mapM f = .ok (xs.map g) := by
  induction xs with
  | nil => rfl
  | cons x xs ih =>
    obtain ⟨hx, hxs⟩ := List.forall_mem_cons.1 h
    rw [List.mapM_cons, hx, ih hxs]
    rfl

namespace RenderContext

open Template (contextOf)

/-- What the suite of an artifact is made from. -/
def suiteContext (c : RenderContext) (kind : ArtifactKind) : SuiteContext :=
  ⟨c.facts, c.layout, c.plan, kind, c.contentOf kind⟩

@[simp] theorem suiteContext_facts (c : RenderContext) (kind : ArtifactKind) :
    (c.suiteContext kind).facts = c.facts := rfl

@[simp] theorem suiteContext_layout (c : RenderContext) (kind : ArtifactKind) :
    (c.suiteContext kind).layout = c.layout := rfl

@[simp] theorem suiteContext_plan (c : RenderContext) (kind : ArtifactKind) :
    (c.suiteContext kind).plan = c.plan := rfl

/-- The suite of an artifact, without scenarios if there is none. -/
def suite (c : RenderContext) (kind : ArtifactKind) : TestSuite :=
  match (c.suiteContext kind).suite with
  | .ok suite => suite
  | .error _ => { name := c.layout.name, target := kind }

theorem suite_eq {c : RenderContext} {kind : ArtifactKind} {suite : TestSuite}
    (h : (c.suiteContext kind).suite = .ok suite) : c.suite kind = suite := by
  unfold RenderContext.suite
  rw [h]

def test (c : RenderContext) (kind : ArtifactKind) : GeneratedFile :=
  ⟨c.layout.testPathFor kind, (c.suite kind).code, .test, none⟩

def tests (c : RenderContext) : List GeneratedFile := c.kinds.map c.test

theorem isTest_artifact {c : RenderContext} {kind : ArtifactKind} (h : kind ∈ c.kinds) :
    (c.artifact kind).isTest = false := by
  have hne : kind ≠ .test := by
    rintro rfl
    exact c.test_not_mem_kinds h
  simpa [artifact, GeneratedFile.isTest] using hne

theorem planOf_artifacts (c : RenderContext) : TestSuite.planOf c.artifacts = c.plan := by
  have hfold : TestSuite.planOf c.artifacts = c.kinds.foldl ArtifactPlan.add {} := by
    unfold TestSuite.planOf artifacts
    rw [List.foldl_map]
    rfl
  refine ArtifactPlan.ext_includes fun kind hkind => ?_
  rw [hfold, ArtifactPlan.includes_foldl_add hkind]
  cases kind with
  | test => exact absurd rfl hkind
  | component => rfl
  | _ =>
    simp only [ArtifactPlan.includes, Bool.false_or]
    rw [Bool.eq_iff_iff, List.contains_iff_mem, mem_kinds_iff]
    rfl

variable {config : Config} {f : Facts}

theorem tests_componentSuite_ne_nil (c : SuiteContext) : (ComponentSuite.build c).tests ≠ [] :=
  List.cons_ne_nil _ _

theorem tests_hookSuite_ne_nil (c : SuiteContext) : (HookSuite.build c).tests ≠ [] := by
  simp only [HookSuite.build]
  split <;> exact List.cons_ne_nil _ _

theorem tests_typesSuite_ne_nil {c : SuiteContext}
    (h : c.facts.props ≠ [] ∨ c.facts.state ≠ [] ∨ c.facts.features.remoteData = true) :
    (TypesSuite.build c).tests ≠ [] := by
  simp only [TypesSuite.build, ne_eq, List.append_eq_nil_iff, not_and_or]
  rcases h with h | h | h
  · refine .inl (.inl ?_)
    simp [TypesSuite.propScenarios, h]
  · refine .inl (.inr ?_)
    simp [TypesSuite.stateScenarios, h]
  · refine .inr ?_
    simp [TypesSuite.dataScenarios, TypesSuite.declaresData, h]

theorem exists_storeSuite {c : SuiteContext} (h : c.facts.state ≠ []) :
    ∃ suite, StoreSuite.build c = .ok suite ∧ suite.tests ≠ [] := by
  obtain ⟨first, rest, hstate⟩ := List.exists_cons_of_ne_nil h
  unfold StoreSuite.build
  rw [hstate]
  exact ⟨_, rfl, List.cons_ne_nil _ _⟩

/-- What is made has something to test. -/
theorem suite_of_mem_kinds {kind : ArtifactKind} (h : kind ∈ (contextOf config f).kinds) :
    ((contextOf config f).suiteContext kind).suite = .ok ((contextOf config f).suite kind) ∧
      ((contextOf config f).suite kind).tests ≠ [] := by
  have happlies : Synthesizer.appliesTo config f kind = true := by
    rw [← Synthesizer.includes_plan]
    exact mem_kinds_iff.1 h
  cases kind with
  | component => exact ⟨rfl, tests_componentSuite_ne_nil _⟩
  | hook => exact ⟨rfl, tests_hookSuite_ne_nil _⟩
  | service => exact ⟨rfl, List.cons_ne_nil _ _⟩
  | types =>
    have hparts : f.props ≠ [] ∨ f.state ≠ [] ∨ f.features.remoteData = true := by
      simpa [Synthesizer.appliesTo, Template.types, or_assoc] using (Bool.and_eq_true_iff.1 happlies).2
    exact ⟨rfl, tests_typesSuite_ne_nil hparts⟩
  | store =>
    have hstate : f.state ≠ [] := by
      intro hempty
      simp [Synthesizer.appliesTo, Template.store, Template.minStoreBindings, hempty] at happlies
    obtain ⟨suite, hbuild, htests⟩ :=
      exists_storeSuite (c := (contextOf config f).suiteContext .store) hstate
    have hsuite : (contextOf config f).suite .store = suite := suite_eq hbuild
    rw [hsuite]
    exact ⟨hbuild, htests⟩
  | test => cases happlies

theorem testFor_eq {layout : ArtifactLayout} {plan : ArtifactPlan} {file : GeneratedFile}
    {suite : TestSuite} (hsuite : SuiteContext.suite ⟨f, layout, plan, file.kind, file.content⟩ = .ok suite)
    (htests : suite.tests ≠ []) :
    TestSuite.testFor f layout plan file = .ok ⟨layout.testPathFor file.kind, suite.code, .test, none⟩ := by
  have hwrite : suite.write = .ok suite.code := by simp [TestSuite.write, htests]
  unfold TestSuite.testFor
  simp only [hsuite, Except.mapError]
  show (suite.write >>= fun code => pure _) = _
  rw [hwrite]
  rfl

/-- The artifacts of a plan get a test each, in their order. -/
theorem generate_tests_eq (config : Config) (f : Facts) :
    TestSuite.generate f (contextOf config f).artifacts = .ok (contextOf config f).tests := by
  have hfilter : (contextOf config f).artifacts.filter (!·.isTest) = (contextOf config f).artifacts := by
    rw [List.filter_eq_self]
    intro file hfile
    obtain ⟨kind, hkind, rfl⟩ := List.mem_map.1 hfile
    simp [isTest_artifact hkind]
  unfold TestSuite.generate
  rw [planOf_artifacts, hfilter]
  unfold artifacts
  rw [List.mapM_map]
  refine mapM_eq_ok_map fun kind hkind => ?_
  obtain ⟨hsuite, htests⟩ := suite_of_mem_kinds hkind
  exact testFor_eq hsuite htests

end RenderContext

/-- The test of an artifact, written from a suite that holds a scenario. -/
structure TestSuite.IsTestOf (f : Facts) (plan : ArtifactPlan) (file test : GeneratedFile) : Prop where
  path : test.path = (ArtifactLayout.ofName f.name f.tier).testPathFor file.kind
  kind : test.kind = .test
  tier : test.tier? = none
  content : ∃ suite : TestSuite, suite.tests ≠ [] ∧ test.content = suite.code ∧
    SuiteContext.suite ⟨f, .ofName f.name f.tier, plan, file.kind, file.content⟩ = .ok suite

open Template (contextOf)

theorem RenderContext.isTestOf_test {config : Config} {f : Facts} {kind : ArtifactKind}
    (h : kind ∈ (contextOf config f).kinds) :
    TestSuite.IsTestOf f (contextOf config f).plan ((contextOf config f).artifact kind)
      ((contextOf config f).test kind) := by
  obtain ⟨hsuite, htests⟩ := suite_of_mem_kinds h
  exact ⟨rfl, rfl, rfl, (contextOf config f).suite kind, htests, rfl, hsuite⟩

/-- Files that were generated get one test each, in their order, and the plan read off them is
the plan they were generated by. -/
theorem generate_tests_of_generate {config : Config} {f : Facts} {files : List GeneratedFile}
    (h : ({ config } : Synthesizer).generate f = .ok files) :
    ∃ tests, TestSuite.generate f files = .ok tests ∧
      List.Forall₂ (TestSuite.IsTestOf f (({ config } : Synthesizer).plan f)) files tests ∧
      TestSuite.planOf files = ({ config } : Synthesizer).plan f := by
  obtain ⟨-, rfl⟩ := Synthesizer.generate_eq_ok_iff.1 h
  refine ⟨(contextOf config f).tests, RenderContext.generate_tests_eq config f, ?_,
    RenderContext.planOf_artifacts _⟩
  unfold RenderContext.artifacts RenderContext.tests
  rw [List.forall₂_map_left_iff, List.forall₂_map_right_iff, List.forall₂_same]
  intro kind hkind
  exact RenderContext.isTestOf_test hkind

/-- Facts that call for every artifact. -/
def accountPanel : Facts :=
  { Facts.bare "AccountPanel" with
    props := [⟨"owner", "string", true, none⟩, ⟨"onClose", "() => void", false, none⟩]
    state := [⟨"rows", some "setRows", "unknown[]", "[]"⟩, ⟨"open", none, "boolean", "false"⟩,
      ⟨"page", some "goTo", "number", "1"⟩]
    features := { remoteData := true, navigation := true }
    endpoints := ["/api/accounts"] }

theorem accountPanel_gets_tests :
    ({ config := {} } : Synthesizer).generate accountPanel = .ok (contextOf {} accountPanel).artifacts ∧
      ∃ tests, TestSuite.generate accountPanel (contextOf {} accountPanel).artifacts = .ok tests ∧
        List.Forall₂ (TestSuite.IsTestOf accountPanel (({ config := {} } : Synthesizer).plan accountPanel))
          (contextOf {} accountPanel).artifacts tests ∧
        TestSuite.planOf (contextOf {} accountPanel).artifacts =
          ({ config := {} } : Synthesizer).plan accountPanel := by
  have hname : Text.isIdentifier (contextOf {} accountPanel).layout.name.toList = true := by
    decide +kernel
  have hgenerated : ({ config := {} } : Synthesizer).generate accountPanel =
      .ok (contextOf {} accountPanel).artifacts := Synthesizer.generate_eq_ok_iff.2 ⟨hname, rfl⟩
  exact ⟨hgenerated, generate_tests_of_generate hgenerated⟩

end Recast
