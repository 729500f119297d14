import Recast.Proofs.Component.LiteralValues
import Recast.Proofs.Component.StateNames
import Recast.Proofs.Suite.Scenarios

/-!
# What the test of a store can tell

The test of a store sets each state to a sample that hangs on the type of the state, and expects the initial
value after a reset. Where the initial value is that very sample, a setter that does nothing passes for one
that works, and where this holds of every state, so does a reset that does nothing (`update_is_initial_iff`).
-/

namespace Recast

open Text ScriptValue Template

/-! ### Samples and initial values -/

namespace StateBinding

def numberSample : ScriptValue := number (Decimal.Numeral.toFloat (.finite false 42 0))

def textSample : ScriptValue := text "updated".toList

def listSample : ScriptValue :=
  list [record (fields [("id".toList, number (Decimal.Numeral.toFloat (.finite false 1 0)))])]

def recordSample : ScriptValue := record (fields [("key".toList, text "value".toList)])

/-- The values that states other than flags are updated to. -/
def samples : List ScriptValue := [numberSample, textSample, listSample, recordSample]

/-- The value that the state is updated to. -/
def sample (s : StateBinding) : ScriptValue :=
  if s.type == "boolean" then flag (Str.trim s.initial != "true")
  else if s.type == "number" then numberSample
  else if endsWith s.type.toList "[]".toList then listSample
  else if Str.startsWith s.type "Record<" then recordSample
  else textSample

/-- The initial value is one of the samples. -/
def StartsSampled (s : StateBinding) : Prop := ∃ v ∈ samples, ofLiteral? (trim s.initial.toList) = some v

variable {s : StateBinding}

theorem ofLiteral?_updated (s : StateBinding) : ofLiteral? s.updated.toList = some s.sample := by
  unfold updated sample
  split
  · cases htrue : Str.trim s.initial == "true" <;> simp [bne, htrue] <;> rfl
  · repeat' split
    all_goals rfl

theorem sample_mem_samples (h : s.type ≠ "boolean") : s.sample ∈ samples := by
  unfold sample
  rw [if_neg (by simpa using h)]
  repeat' split
  all_goals simp [samples]

theorem sample_of_boolean (h : s.type = "boolean") : s.sample = flag (Str.trim s.initial != "true") := by
  rw [sample, h]
  rfl

theorem sample_of_unknown (h : s.type = "unknown") : s.sample = textSample := by
  rw [sample, h]
  rfl

/-- A sample is what states of its type are updated to. -/
theorem sample_eq_of_type {v : ScriptValue} (hv : v ∈ samples) (h : s.type = v.type) : s.sample = v := by
  unfold sample
  rw [h]
  simp only [samples, List.mem_cons, List.not_mem_nil, or_false] at hv
  rcases hv with rfl | rfl | rfl | rfl <;> rfl

theorem initialValue_of_known (h : s.type ≠ "unknown") : initialValue s = Str.trim s.initial := by
  simp [initialValue, h]

/-- A state of unknown type starts as nothing at all. -/
theorem initialValue_of_unknown (h : s.type = "unknown") :
    initialValue s = "null" ∨ initialValue s = "undefined" := by
  unfold initialValue
  dsimp only
  split
  · rename_i hword
    simpa [h] using hword
  · exact .inl rfl

/-- A flag starts as what it is not updated to. -/
theorem initialValue_of_boolean (h : s.type = "boolean") (htype : s.type = ValueType.ofLiteral s.initial.toList) :
    ofLiteral? (initialValue s).toList = some (flag (Str.trim s.initial == "true")) := by
  have hknown : s.type ≠ "unknown" := by
    rw [h]
    decide
  rw [initialValue_of_known hknown, Str.trim]
  rcases trim_of_ofLiteral_boolean (htype.symm.trans h) with hword | hword <;> rw [hword] <;> rfl

theorem not_startsSampled_of_boolean (h : s.type = "boolean") (htype : s.type = ValueType.ofLiteral s.initial.toList) :
    ¬ s.StartsSampled := by
  rintro ⟨v, hv, hread⟩
  have hvtype : v.type = "boolean" := (ofLiteral_of_read hread).symm.trans (htype.symm.trans h)
  simp only [samples, List.mem_cons, List.not_mem_nil, or_false] at hv
  rcases hv with rfl | rfl | rfl | rfl <;> exact absurd hvtype (by decide)

/-- The state starts as what it is updated to exactly if it starts as one of the samples. -/
theorem initialValue_eq_sample_iff (htype : s.type = ValueType.ofLiteral s.initial.toList) :
    ofLiteral? (initialValue s).toList = some s.sample ↔ s.StartsSampled := by
  constructor
  · intro h
    by_cases hunknown : s.type = "unknown"
    · rw [sample_of_unknown hunknown] at h
      rcases initialValue_of_unknown hunknown with heq | heq <;> rw [heq] at h <;> cases h
    by_cases hboolean : s.type = "boolean"
    · rw [initialValue_of_boolean hboolean htype, sample_of_boolean hboolean] at h
      cases htrue : Str.trim s.initial == "true" <;> simp [bne, htrue] at h
    · rw [initialValue_of_known hunknown, Str.trim, String.toList_ofList] at h
      exact ⟨s.sample, sample_mem_samples hboolean, h⟩
  · rintro ⟨v, hv, h⟩
    have hvtype : s.type = v.type := htype.trans (ofLiteral_of_read h)
    have hknown : s.type ≠ "unknown" := by
      rw [hvtype]
      simp only [samples, List.mem_cons, List.not_mem_nil, or_false] at hv
      rcases hv with rfl | rfl | rfl | rfl <;> decide
    rw [initialValue_of_known hknown, Str.trim, String.toList_ofList, h, sample_eq_of_type hv hvtype]

end StateBinding

/-! ### Running a test -/

namespace StoreSuite

/-- What each state is, by its name. -/
abbrev Values := String → ScriptValue

/-- What the setters and the reset of a store do. -/
structure Behaviour where
  set : StateBinding → ScriptValue → Values → Values
  reset : Values → Values

inductive Step
  | update (s : StateBinding)
  | toggle (s : StateBinding)
  | reset
  | expect (s : StateBinding) (literal : String)
  | expectNot (s : StateBinding) (literal : String)

namespace Step

def text (store : String) : Step → String
  | update s => StoreSuite.update store s
  | toggle s => store ++ ".getState()." ++ s.setter ++ "((prev) => !prev);"
  | reset => store ++ ".getState().reset();"
  | expect s literal => "expect(" ++ store ++ ".getState()." ++ s.name ++ ").toEqual(" ++ literal ++ ");"
  | expectNot s literal => "expect(" ++ store ++ ".getState()." ++ s.name ++ ").toEqual(" ++ "!" ++ literal ++ ");"

def run (b : Behaviour) : Step → Values → Values
  | update s, σ => b.set s s.sample σ
  | toggle s, σ => b.set s (flag !(σ s.name).isTruthy) σ
  | reset, σ => b.reset σ
  | expect .., σ | expectNot .., σ => σ

/-- The step expects a literal that stands for another value. -/
def Rejects : Step → Values → Prop
  | expect s literal, σ => ∃ v, ofLiteral? literal.toList = some v ∧ v ≠ σ s.name
  | expectNot s literal, σ => ∃ v, ofLiteral? literal.toList = some v ∧ flag (!v.isTruthy) ≠ σ s.name
  | _, _ => False

end Step

/-- Some step rejects what the steps before it have made of the values. -/
def Fails (b : Behaviour) : List Step → Values → Prop
  | [], _ => False
  | x :: xs, σ => x.Rejects σ ∨ Fails b xs (x.run b σ)

def runAll (b : Behaviour) (xs : List Step) (σ : Values) : Values := xs.foldl (fun σ x => x.run b σ) σ

def updateSteps (s : StateBinding) : List Step :=
  [.update s, .expect s s.updated] ++ if s.type == "boolean" then [.toggle s, .expectNot s s.updated] else []

def resetSteps (state : List StateBinding) : List Step :=
  state.map .update ++ [.reset] ++ state.map fun s => .expect s (initialValue s)

theorem updateScenario_eq (store : String) (s : StateBinding) : updateScenario store s =
    .ofBlocks ("updates " ++ s.name) .state ((updateSteps s).map (Step.text store)) := by
  unfold updateScenario updateSteps
  dsimp only
  split <;> rfl

theorem resetScenario_eq (store : String) (state : List StateBinding) : resetScenario store state =
    .ofBlocks "resets to the initial state" .rerender ((resetSteps state).map (Step.text store)) := by
  have hexpect (s : StateBinding) : Step.text store (.expect s (initialValue s)) =
      expectInitial (store ++ ".getState()") s := by
    have hdot : ".getState()." = ".getState()" ++ "." := by decide
    show "expect(" ++ store ++ ".getState()." ++ s.name ++ ").toEqual(" ++ initialValue s ++ ");" = _
    rw [expectInitial, hdot]
    simp only [String.append_assoc]
  have hupdate (s : StateBinding) : Step.text store (.update s) = update store s := rfl
  have hreset : Step.text store .reset = store ++ ".getState().reset();" := rfl
  simp [resetScenario, resetSteps, Function.comp_def, hexpect, hupdate, hreset]

variable {b : Behaviour} {σ : Values} {s : StateBinding} {state : List StateBinding}

theorem fails_append {xs ys : List Step} : Fails b (xs ++ ys) σ ↔ Fails b xs σ ∨ Fails b ys (runAll b xs σ) := by
  induction xs generalizing σ with
  | nil => simp [Fails, runAll]
  | cons x xs ih =>
    rw [List.cons_append, Fails, Fails, ih, or_assoc]
    rfl

/-- A setter that does nothing fails the update of its state unless this starts as what it is updated to. -/
theorem fails_updateSteps_iff (htype : s.type = ValueType.ofLiteral s.initial.toList) (hset : ∀ v σ, b.set s v σ = σ)
    (hinitial : ofLiteral? (initialValue s).toList = some (σ s.name)) :
    Fails b (updateSteps s) σ ↔ ¬ s.StartsSampled := by
  have hrejects : (Step.expect s s.updated).Rejects σ ↔ ¬ s.StartsSampled := by
    rw [← s.initialValue_eq_sample_iff htype]
    simp [Step.Rejects, s.ofLiteral?_updated, hinitial, eq_comm]
  have hfails : Fails b (updateSteps s) σ ↔ (Step.expect s s.updated).Rejects σ ∨
      Fails b (if s.type == "boolean" then [.toggle s, .expectNot s s.updated] else []) σ := by
    rw [updateSteps, List.cons_append, List.cons_append, Fails, Fails, Step.run, Step.run, hset]
    exact or_iff_right id
  rw [hfails, hrejects]
  by_cases hboolean : s.type = "boolean"
  · have hother := s.not_startsSampled_of_boolean hboolean htype
    exact iff_of_true (.inl hother) hother
  · rw [if_neg (by simpa using hboolean)]
    exact or_iff_left id

theorem not_fails_updates : ¬ Fails b (state.map .update) σ := by
  induction state generalizing σ with
  | nil => exact id
  | cons t ts ih => exact not_or.2 ⟨id, ih⟩

theorem fails_expects_iff {literal : StateBinding → String} :
    Fails b (state.map fun s => .expect s (literal s)) σ ↔ ∃ s ∈ state, (Step.expect s (literal s)).Rejects σ := by
  induction state with
  | nil => simp [Fails]
  | cons t ts ih =>
    rw [List.map_cons, Fails, List.exists_mem_cons_iff]
    exact or_congr_right ih

theorem runAll_updates_of_not_mem (hset : ∀ t ∈ state, ∀ v σ, b.set t v σ = Function.update σ t.name v) {name : String}
    (hname : name ∉ state.map (·.name)) : runAll b (state.map .update) σ name = σ name := by
  induction state generalizing σ with
  | nil => rfl
  | cons t ts ih =>
    rw [List.map_cons, List.mem_cons, not_or] at hname
    have hrest : runAll b (ts.map .update) ((Step.update t).run b σ) name = (Step.update t).run b σ name :=
      ih (fun u hu => hset u (List.mem_cons_of_mem _ hu)) hname.2
    rw [List.map_cons, runAll, List.foldl_cons]
    exact hrest.trans (by rw [Step.run, hset t List.mem_cons_self, Function.update_of_ne hname.1])

/-- Setters that work leave every state at what it is updated to. -/
theorem runAll_updates (hset : ∀ t ∈ state, ∀ v σ, b.set t v σ = Function.update σ t.name v)
    (hnames : (state.map (·.name)).Nodup) (hs : s ∈ state) : runAll b (state.map .update) σ s.name = s.sample := by
  induction state generalizing σ with
  | nil => cases hs
  | cons t ts ih =>
    have hsets : ∀ u ∈ ts, ∀ v σ, b.set u v σ = Function.update σ u.name v :=
      fun u hu => hset u (List.mem_cons_of_mem _ hu)
    rw [List.map_cons, List.nodup_cons] at hnames
    rcases List.mem_cons.1 hs with rfl | hs
    · have hrest : runAll b (ts.map .update) ((Step.update s).run b σ) s.name = (Step.update s).run b σ s.name :=
        runAll_updates_of_not_mem hsets hnames.1
      exact hrest.trans (by rw [Step.run, hset s List.mem_cons_self, Function.update_self])
    · exact ih hsets hnames.2 hs

/-- A reset that does nothing fails the test of it unless every initial value that is read as a literal is
what its state is updated to. -/
theorem fails_resetSteps_iff (htype : ∀ s ∈ state, s.type = ValueType.ofLiteral s.initial.toList)
    (hset : ∀ t ∈ state, ∀ v σ, b.set t v σ = Function.update σ t.name v) (hreset : ∀ σ, b.reset σ = σ)
    (hnames : (state.map (·.name)).Nodup) : Fails b (resetSteps state) σ ↔
      ∃ s ∈ state, (∃ v, ofLiteral? (initialValue s).toList = some v) ∧ ¬ s.StartsSampled := by
  have hfails : Fails b (resetSteps state) σ ↔ ∃ s ∈ state,
      (Step.expect s (initialValue s)).Rejects (runAll b (state.map .update) σ) := by
    rw [resetSteps, List.append_assoc, fails_append, List.singleton_append, Fails, Step.run, hreset,
      ← fails_expects_iff]
    exact (or_iff_right not_fails_updates).trans (or_iff_right id)
  rw [hfails]
  refine exists_congr fun s => and_congr_right fun hs => ?_
  rw [← s.initialValue_eq_sample_iff (htype s hs), Step.Rejects, runAll_updates hset hnames hs]
  constructor
  · rintro ⟨v, hread, hne⟩
    exact ⟨⟨v, hread⟩, fun h => hne (Option.some.inj (hread.symm.trans h))⟩
  · rintro ⟨⟨v, hread⟩, hne⟩
    exact ⟨v, hread, fun h => hne (h ▸ hread)⟩

/-- The suite of a store updates each of its states and resets them all. -/
theorem mem_tests_of_build {c : SuiteContext} {suite : TestSuite} (h : build c = .ok suite) :
    (∀ s ∈ c.facts.state, updateScenario c.layout.storeHook s ∈ suite.tests) ∧
      resetScenario c.layout.storeHook c.facts.state ∈ suite.tests := by
  unfold build at h
  dsimp only at h
  split at h
  · cases h
  · cases h
    exact ⟨fun s hs => List.mem_append_left _ (List.mem_append_right _ (List.mem_map_of_mem hs)), by simp⟩

end StoreSuite

open StoreSuite in
/-- The test of a store updates each state to a sample and resets them all. The literal of the update and that
of the initial value stand for one value exactly if the initial value is written as one of the samples. Where
that is so, the update of a state does not fail on a setter that does nothing, and otherwise it does if the
initial value is read as a literal. A reset that does nothing fails exactly if some initial value is read and
is no sample. -/
theorem update_is_initial_iff {source : String} {declared? : Option String} {f : Facts} {config : Config}
    {files tests : List GeneratedFile} (ha : Facts.analyze source declared? = .ok f)
    (hfiles : ({ config } : Synthesizer).generate f = .ok files) (htests : TestSuite.generate f files = .ok tests)
    (hstore : (({ config } : Synthesizer).plan f).store = true) :
    let c := contextOf config f
    let hook := c.layout.storeHook
    ∃ file ∈ files, ∃ test ∈ tests, ∃ suite, file.kind = .store ∧ TestSuite.IsTestOf f c.plan file test ∧
      StoreSuite.build (c.suiteContext .store) = .ok suite ∧ test.content = suite.code ∧
      (∀ s ∈ f.state,
        .ofBlocks ("updates " ++ s.name) .state ((updateSteps s).map (Step.text hook)) ∈ suite.tests ∧
        ofLiteral? s.updated.toList = some s.sample ∧
        (ofLiteral? (initialValue s).toList = ofLiteral? s.updated.toList ↔ s.StartsSampled) ∧
        ∀ (b : Behaviour) (σ : Values), (∀ v σ, b.set s v σ = σ) →
          ofLiteral? (initialValue s).toList = some (σ s.name) → (Fails b (updateSteps s) σ ↔ ¬ s.StartsSampled)) ∧
      .ofBlocks "resets to the initial state" .rerender ((resetSteps f.state).map (Step.text hook)) ∈ suite.tests ∧
      ∀ (b : Behaviour) (σ : Values), (∀ s ∈ f.state, ∀ v σ, b.set s v σ = Function.update σ s.name v) →
        (∀ σ, b.reset σ = σ) → (f.state.map (·.name)).Nodup → (Fails b (resetSteps f.state) σ ↔
          ∃ s ∈ f.state, (∃ v, ofLiteral? (initialValue s).toList = some v) ∧ ¬ s.StartsSampled) := by
  obtain ⟨-, rfl⟩ := Synthesizer.generate_eq_ok_iff.1 hfiles
  rw [RenderContext.generate_tests_eq] at htests
  cases htests
  intro c hook
  have hkind : ArtifactKind.store ∈ c.kinds := RenderContext.mem_kinds_iff.2 hstore
  have htype : ∀ s ∈ f.state, s.type = ValueType.ofLiteral s.initial.toList :=
    fun s hs => (Facts.wellFormed_of_analyze ha s hs).type
  obtain ⟨hbuild, -⟩ := RenderContext.suite_of_mem_kinds hkind
  obtain ⟨hupdates, hreset⟩ := mem_tests_of_build hbuild
  refine ⟨c.artifact .store, List.mem_map_of_mem hkind, c.test .store, List.mem_map_of_mem hkind, c.suite .store, rfl,
    RenderContext.isTestOf_test hkind, hbuild, rfl, fun s hs => ⟨?_, s.ofLiteral?_updated, ?_, ?_⟩, ?_, ?_⟩
  · rw [← updateScenario_eq]
    exact hupdates s hs
  · rw [s.ofLiteral?_updated]
    exact s.initialValue_eq_sample_iff (htype s hs)
  · exact fun b σ hset hinitial => fails_updateSteps_iff (htype s hs) hset hinitial
  · rw [← resetScenario_eq]
    exact hreset
  · exact fun b σ hset hreset hnames => fails_resetSteps_iff htype hset hreset hnames

def sampledPanel : String := "class Panel extends React.Component \x7b
  state = \x7b count: 42, label: 'updated', rows: [\x7b id: 1 \x7d] \x7d;
  render() \x7b
    return <p />;
  \x7d
\x7d
"

open StoreSuite in
/-- A component whose states start as the samples gets a test of its store that fails neither on setters nor
on a reset that do nothing. -/
theorem sampledPanel_passes : ∃ f files tests, Facts.analyze sampledPanel none = .ok f ∧
    ({ config := {} } : Synthesizer).generate f = .ok files ∧ TestSuite.generate f files = .ok tests ∧
    (({ config := {} } : Synthesizer).plan f).store = true ∧ f.state.map (·.name) = ["count", "label", "rows"] ∧
    (∀ s ∈ f.state, ofLiteral? (initialValue s).toList = ofLiteral? s.updated.toList ∧
      ∀ (b : Behaviour) (σ : Values), (∀ v σ, b.set s v σ = σ) →
        ofLiteral? (initialValue s).toList = some (σ s.name) → ¬ Fails b (updateSteps s) σ) ∧
    ∀ (b : Behaviour) (σ : Values), (∀ s ∈ f.state, ∀ v σ, b.set s v σ = Function.update σ s.name v) →
      (∀ σ, b.reset σ = σ) → ¬ Fails b (resetSteps f.state) σ := by
  have hanalyze : ∃ f, Facts.analyze sampledPanel none = .ok f ∧
      (isIdentifier (contextOf {} f).layout.name.toList && (({ config := {} } : Synthesizer).plan f).store &&
        decide (f.state.map (·.name) = ["count", "label", "rows"]) &&
        decide (f.state.map (·.initial) = ["42", "'updated'", "[\x7b id: 1 \x7d]"])) = true := by
    refine Facts.exists_of_analyze (by unfold sampledPanel; rfl) fun s hs => ?_
    unfold Facts.analyze
    rw [hs]
    decide +kernel
  obtain ⟨f, ha, hrun⟩ := hanalyze
  simp only [Bool.and_eq_true, decide_eq_true_eq] at hrun
  obtain ⟨⟨⟨hname, hstore⟩, hnames⟩, hinitials⟩ := hrun
  have hfiles := Synthesizer.generate_eq_ok_iff.2 ⟨hname, rfl⟩
  have htests := RenderContext.generate_tests_eq {} f
  have hsampled : ∀ s ∈ f.state, s.StartsSampled := by
    intro s hs
    have hinitial : s.initial ∈ f.state.map (·.initial) := List.mem_map_of_mem hs
    rw [hinitials] at hinitial
    simp only [List.mem_cons, List.not_mem_nil, or_false] at hinitial
    unfold StateBinding.StartsSampled
    rcases hinitial with heq | heq | heq <;> rw [heq]
    · exact ⟨StateBinding.numberSample, by simp [StateBinding.samples], rfl⟩
    · exact ⟨StateBinding.textSample, by simp [StateBinding.samples], rfl⟩
    · exact ⟨StateBinding.listSample, by simp [StateBinding.samples], rfl⟩
  obtain ⟨-, -, -, -, _, -, -, -, -, hupdates, -, hreset⟩ := update_is_initial_iff ha hfiles htests hstore
  refine ⟨f, _, _, ha, hfiles, htests, hstore, hnames, fun s hs => ?_, fun b σ hset hinert hfails => ?_⟩
  · obtain ⟨-, -, hsame, hfails⟩ := hupdates s hs
    exact ⟨hsame.2 (hsampled s hs), fun b σ hset hinitial h => (hfails b σ hset hinitial).1 h (hsampled s hs)⟩
  · have hdistinct : (f.state.map (·.name)).Nodup := by
      rw [hnames]
      decide
    obtain ⟨s, hs, -, hother⟩ := (hreset b σ hset hinert hdistinct).1 hfails
    exact hother (hsampled s hs)

end Recast
