import Mathlib.Data.List.Forall2
import Recast.Proofs.Text.WordPlaces
import Recast.Suite.Synthesis

/-!
# What a component is tested for

The parts of the suite of a component are added under conditions that overlap, but each part has its own kinds,
and of the parts for one concern at most one is added. So the kinds of the scenarios follow from the facts and
the text (`kinds_scenarios`), and every prop and every state has its own scenario (`scenarios_cover`).
-/

namespace Recast

/-- The scenarios of the suite that are of the kind, in order. -/
def TestSuite.ofKind (s : TestSuite) (kind : ScenarioKind) : List Scenario := s.tests.filter (·.kind == kind)

theorem TestSuite.count_eq (s : TestSuite) (kind : ScenarioKind) :
    s.count kind = (s.tests.map (·.kind)).count kind := by
  rw [TestSuite.count, List.count, List.countP_map]
  rfl

theorem filter_kind_eq_nil {xs : List Scenario} {kind : ScenarioKind} (h : kind ∉ xs.map (·.kind)) :
    xs.filter (·.kind == kind) = [] := by
  refine List.filter_eq_nil_iff.2 fun x hx hkind => h ?_
  exact List.mem_map.2 ⟨x, hx, beq_iff_eq.1 hkind⟩

theorem filter_kind_map {α : Type} {f : α → Scenario} {own : ScenarioKind} (hf : ∀ a, (f a).kind = own)
    (kind : ScenarioKind) (xs : List α) :
    (xs.map f).filter (·.kind == kind) = if own = kind then xs.map f else [] := by
  split
  · rename_i hown
    refine List.filter_eq_self.2 fun x hx => ?_
    obtain ⟨a, -, rfl⟩ := List.mem_map.1 hx
    exact beq_iff_eq.2 ((hf a).trans hown)
  · rename_i hown
    refine List.filter_eq_nil_iff.2 fun x hx hkind => hown ?_
    obtain ⟨a, -, rfl⟩ := List.mem_map.1 hx
    exact (hf a).symm.trans (beq_iff_eq.1 hkind)

namespace Scenario

/-- The scenario is about the prop. -/
structure TestsProp (p : PropSpec) (s : Scenario) : Prop where
  kind : s.kind = .prop
  named : s.name = "accepts the " ++ p.name ++ " callback" ∨ s.name = "renders with the " ++ p.name ++ " prop"

/-- The scenario is about the state. -/
structure TestsState (b : StateBinding) (s : Scenario) : Prop where
  kind : s.kind = .state
  named : s.name = "derives the " ++ b.name ++ " state from the data hook" ∨
    s.name = "reads the " ++ b.name ++ " state from the store" ∨
    s.name = "renders with the initial " ++ b.name ++ " state"

end Scenario

namespace ComponentSuite

variable (c : SuiteContext)

/-! ### The parts -/

theorem testsProp_propScenario (p : PropSpec) : (propScenario c p).TestsProp p := by
  unfold propScenario
  dsimp only
  split
  · exact ⟨rfl, .inl rfl⟩
  · split
    · exact ⟨rfl, .inr rfl⟩
    · exact ⟨rfl, .inr rfl⟩

theorem testsState_stateScenario (s : StateBinding) : (stateScenario c s).TestsState s := by
  unfold stateScenario
  split
  · exact ⟨rfl, .inl rfl⟩
  · split
    · exact ⟨rfl, .inr (.inl rfl)⟩
    · exact ⟨rfl, .inr (.inr rfl)⟩

/-- Data is read through the hook or requested, never both, so its states are tested once. -/
theorem kinds_dataScenarios : (dataScenarios c (traitsOf c)).map (·.kind) =
    if c.facts.features.remoteData then [.loading, .error, .data] else [] := by
  unfold dataScenarios traitsOf SuiteContext.usesQuery
  cases c.plan.hook <;> cases c.facts.features.remoteData <;> rfl

theorem kinds_navigationScenarios (t : Traits) : (navigationScenarios t).map (·.kind) =
    if t.mocksNavigate || t.router then [.navigation] else [] := by
  unfold navigationScenarios
  cases t.mocksNavigate <;> cases t.router <;> rfl

theorem kinds_props : (c.facts.props.map (propScenario c)).map (·.kind) =
    List.replicate c.facts.props.length .prop := by
  rw [List.map_map, ← List.map_const']
  exact List.map_congr_left fun p _ => (testsProp_propScenario c p).kind

theorem kinds_states : (c.facts.state.map (stateScenario c)).map (·.kind) =
    List.replicate c.facts.state.length .state := by
  rw [List.map_map, ← List.map_const']
  exact List.map_congr_left fun s _ => (testsState_stateScenario c s).kind

theorem kinds_scenarios : (scenarios c (traitsOf c)).map (·.kind) =
    .render :: (List.replicate c.facts.props.length .prop ++
      ((if c.facts.features.remoteData then [.loading, .error, .data] else []) ++
        ((if (traitsOf c).mocksNavigate || (traitsOf c).router then [.navigation] else []) ++
          (List.replicate c.facts.state.length .state ++ [.accessibility, .responsive, .rerender])))) := by
  simp only [scenarios, List.map_append, kinds_props, kinds_states, kinds_dataScenarios, kinds_navigationScenarios,
    List.append_assoc]
  rfl

/-! ### What is covered -/

/-- By its facts or by its text the component navigates: the text holds the name of the router in quotes or
`useNavigate` as a whole word. -/
def Navigates (f : Facts) (content : List Char) : Prop :=
  f.features.navigation = true ∨ "'react-router-dom'".toList <:+: content ∨
    ∃ before after, content = before ++ ("useNavigate".toList ++ after) ∧
      before.getLast?.any Text.isIdentChar = false ∧ after.head?.any Text.isIdentChar = false

theorem navigates_iff : Navigates c.facts c.content.toList ↔
    ((traitsOf c).mocksNavigate || (traitsOf c).router) = true := by
  have hword : Text.hasWord c.content.toList "useNavigate".toList = true ↔ _ :=
    Text.hasWord_iff (by decide) (by decide)
  have hrouter : Str.contains c.content "'react-router-dom'" = true ↔ _ := Text.contains_iff
  rw [Bool.or_eq_true, traitsOf, Str.hasWord, hword, Bool.or_eq_true, hrouter, or_comm, or_assoc, Navigates]

/-- The suite has one scenario for each thing that the component can be tested for, and no others. -/
structure Covers (f : Facts) (content : String) (suite : TestSuite) : Prop where
  always : ∀ kind ∈ [ScenarioKind.render, .accessibility, .responsive, .rerender], suite.count kind = 1
  props : List.Forall₂ Scenario.TestsProp f.props (suite.ofKind .prop)
  states : List.Forall₂ Scenario.TestsState f.state (suite.ofKind .state)
  data : ∀ kind ∈ [ScenarioKind.loading, .error, .data],
    suite.count kind = if f.features.remoteData then 1 else 0
  navigation : Navigates f content.toList → suite.count .navigation = 1
  noNavigation : ¬ Navigates f content.toList → suite.count .navigation = 0
  never : ∀ kind ∈ [ScenarioKind.retry, .shape], suite.count kind = 0

/-- The kinds of the scenarios that are about no prop and no state. -/
def kindsBeside (remoteData navigates : Bool) : List ScenarioKind :=
  [.render] ++ (if remoteData then [.loading, .error, .data] else []) ++
    (if navigates then [.navigation] else []) ++ [.accessibility, .responsive, .rerender]

theorem count_kindsBeside (remoteData navigates : Bool) :
    let kinds := kindsBeside remoteData navigates
    (∀ kind ∈ [ScenarioKind.render, .accessibility, .responsive, .rerender], kinds.count kind = 1) ∧
      (∀ kind ∈ [ScenarioKind.loading, .error, .data], kinds.count kind = if remoteData then 1 else 0) ∧
      kinds.count .navigation = (if navigates then 1 else 0) ∧
      ∀ kind ∈ [ScenarioKind.retry, .shape], kinds.count kind = 0 := by
  cases remoteData <;> cases navigates <;> decide

theorem count_build {kind : ScenarioKind} (hkind : kind ∉ [ScenarioKind.prop, .state]) : (build c).count kind =
    (kindsBeside c.facts.features.remoteData ((traitsOf c).mocksNavigate || (traitsOf c).router)).count kind := by
  have hprops : (List.replicate c.facts.props.length ScenarioKind.prop).count kind = 0 :=
    List.count_eq_zero.2 fun h => hkind (by simp [List.eq_of_mem_replicate h])
  have hstates : (List.replicate c.facts.state.length ScenarioKind.state).count kind = 0 :=
    List.count_eq_zero.2 fun h => hkind (by simp [List.eq_of_mem_replicate h])
  have hkinds : (build c).tests.map (·.kind) = _ := kinds_scenarios c
  rw [TestSuite.count_eq, hkinds, kindsBeside]
  simp only [List.count_cons, List.count_append, hprops, hstates, List.count_nil]
  omega

/-- Only props and states have scenarios of their kinds. -/
theorem ofKind_build {kind : ScenarioKind} (hkind : kind ∈ [ScenarioKind.prop, .state]) : (build c).ofKind kind =
    (if .prop = kind then c.facts.props.map (propScenario c) else []) ++
      if .state = kind then c.facts.state.map (stateScenario c) else [] := by
  have hkinds : kind = .prop ∨ kind = .state := by simpa using hkind
  have hdata : (dataScenarios c (traitsOf c)).filter (·.kind == kind) = [] := by
    refine filter_kind_eq_nil ?_
    rw [kinds_dataScenarios]
    rcases hkinds with rfl | rfl <;> split <;> decide
  have hnavigation : (navigationScenarios (traitsOf c)).filter (·.kind == kind) = [] := by
    refine filter_kind_eq_nil ?_
    rw [kinds_navigationScenarios]
    rcases hkinds with rfl | rfl <;> split <;> decide
  have hfirst : [Scenario.ofBlocks "renders without crashing" .render rendered].filter (·.kind == kind) = [] := by
    refine filter_kind_eq_nil ?_
    rcases hkinds with rfl | rfl <;> decide
  have hlast : [accessibilityScenario, responsiveScenario, rerenderScenario].filter (·.kind == kind) = [] := by
    refine filter_kind_eq_nil ?_
    rcases hkinds with rfl | rfl <;> decide
  show (scenarios c (traitsOf c)).filter (·.kind == kind) = _
  simp only [scenarios, List.filter_append, hfirst, hdata, hnavigation, hlast, List.append_nil, List.nil_append,
    filter_kind_map fun p => (testsProp_propScenario c p).kind,
    filter_kind_map fun s => (testsState_stateScenario c s).kind]

/-- The test of a component has one scenario each for rendering, accessibility, viewports and rendering again,
one for every prop and for every state in their order, one each for loading, failure and data exactly if the
component uses remote data, and one for navigation exactly if the component navigates. -/
theorem scenarios_cover (f : Facts) (layout : ArtifactLayout) (plan : ArtifactPlan) (content : String) :
    ∃ suite, (⟨f, layout, plan, .component, content⟩ : SuiteContext).suite = .ok suite ∧ Covers f content suite := by
  let c : SuiteContext := ⟨f, layout, plan, .component, content⟩
  have hcount {kind : ScenarioKind} (hkind : kind ∉ [ScenarioKind.prop, .state]) : (build c).count kind =
      (kindsBeside f.features.remoteData ((traitsOf c).mocksNavigate || (traitsOf c).router)).count kind :=
    count_build c hkind
  have hnavigates : Navigates f content.toList ↔ ((traitsOf c).mocksNavigate || (traitsOf c).router) = true :=
    navigates_iff c
  generalize ((traitsOf c).mocksNavigate || (traitsOf c).router) = navigates at hcount hnavigates
  obtain ⟨halways, hdata, hnavigation, hnever⟩ := count_kindsBeside f.features.remoteData navigates
  have hcounts {kinds : List ScenarioKind} {n : ℕ} (hbeside : ∀ kind ∈ kinds, kind ∉ [ScenarioKind.prop, .state])
      (h : ∀ kind ∈ kinds, (kindsBeside f.features.remoteData navigates).count kind = n) :
      ∀ kind ∈ kinds, (build c).count kind = n :=
    fun kind hkind => (hcount (hbeside kind hkind)).trans (h kind hkind)
  refine ⟨build c, rfl, hcounts (by decide) halways, ?_, ?_, hcounts (by decide) hdata, fun h => ?_, fun h => ?_,
    hcounts (by decide) hnever⟩
  · rw [ofKind_build c (by decide), if_pos rfl, if_neg (by decide), List.append_nil, List.forall₂_map_right_iff,
      List.forall₂_same]
    exact fun p _ => testsProp_propScenario c p
  · rw [ofKind_build c (by decide), if_neg (by decide), if_pos rfl, List.nil_append, List.forall₂_map_right_iff,
      List.forall₂_same]
    exact fun s _ => testsState_stateScenario c s
  · rw [hcount (by decide), hnavigation, if_pos (hnavigates.1 h)]
  · rw [hcount (by decide), hnavigation, if_neg (mt hnavigates.2 h)]

end ComponentSuite

end Recast
