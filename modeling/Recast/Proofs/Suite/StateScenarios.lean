import Recast.Proofs.Artifact.ComponentParts
import Recast.Proofs.Component.StateNames
import Recast.Proofs.Suite.References

/-!
# Scenarios of state

The component decides where a state lives from what writes it, and the test of the component decides by
the text of the component, where a constant that is read off a variable `query` counts as derived. The test
finds the constants that the component derives. So its scenario is about another home than the state has
exactly if the component carries such a constant over from its source (`scenario_of_home_iff`).
-/

namespace Recast

open Text

namespace Template

/-- Where a state lives in the component. -/
inductive StateHome
  | query
  | store
  | component
  deriving DecidableEq

open ComponentBody in
/-- The template derives the state from the query, takes it from the store, or leaves it to its hook. -/
def homeOf (c : RenderContext) (s : StateBinding) : StateHome :=
  if s.name ∈ (ofContext c).derivedNames then .query else if c.plan.store then .store else .component

open Recast.Template.Part

variable {c : RenderContext}

/-! ### Constants read off a query -/

/-- How what is read off a variable `query` begins. -/
def queryOpenings : List String := ["query.", "(query."]

def queryRead (name opening : String) : String := "const " ++ (name ++ (" " ++ ("= " ++ opening)))

/-- The code holds the beginning of a constant that is read off a variable `query`. -/
def readsQuery (code name : String) : Bool :=
  queryOpenings.any fun opening => Str.contains code (queryRead name opening)

theorem toList_queryRead (name opening : String) : (queryRead name opening).toList =
    "const".toList ++ ((' ' :: (name.toList ++ [' '])) ++ ("= " ++ opening).toList) := by
  have hconst : "const ".toList = "const".toList ++ [' '] := by decide
  have hblank : " ".toList = [' '] := by decide
  rw [queryRead, String.toList_append, String.toList_append, String.toList_append, hconst, hblank]
  simp only [List.append_assoc, List.cons_append, List.nil_append]

theorem isPhrase_queryRead {name opening : String} (hname : '\n' ∉ name.toList) (hopening : opening ∈ queryOpenings) :
    IsPhrase (queryRead name opening).toList := by
  have hopenings : ∀ opening ∈ queryOpenings, IsPhrase ("= " ++ opening).toList := by decide
  rw [toList_queryRead]
  exact IsPhrase.append (by decide) (by simpa using hname) (hopenings opening hopening)

/-- The component reads a constant of the name off a query exactly if one of its parts does. -/
theorem readsQuery_renderComponent_iff {name : String} (hname : '\n' ∉ name.toList) :
    readsQuery (renderComponent c) name = true ↔ ∃ p ∈ componentParts c, readsQuery p.code name = true := by
  simp only [readsQuery, List.any_eq_true]
  constructor
  · rintro ⟨opening, hopening, hin⟩
    obtain ⟨p, hp, hin⟩ := (contains_renderComponent_iff (isPhrase_queryRead hname hopening)).1 hin
    exact ⟨p, hp, opening, hopening, hin⟩
  · rintro ⟨p, hp, opening, hopening, hin⟩
    exact ⟨opening, hopening, (contains_renderComponent_iff (isPhrase_queryRead hname hopening)).2 ⟨p, hp, hin⟩⟩

/-- The lines of the template read nothing off a query into a constant. -/
theorem readsQuery_eq_false {code : String} (h : '.' ∉ code.toList ∨ code ∈ ComponentBody.queryStateLines)
    (name : String) : readsQuery code name = false := by
  have hlines : ∀ line ∈ ComponentBody.queryStateLines, ∀ opening ∈ queryOpenings,
      Str.contains line ("= " ++ opening) = false := by
    decide
  have hdots : ∀ opening ∈ queryOpenings, '.' ∈ ("= " ++ opening).toList := by decide
  refine List.any_eq_false.2 fun opening hopening hin => ?_
  have hwithin : ("= " ++ opening).toList <:+: code.toList := by
    refine List.IsInfix.trans ?_ (contains_iff.1 hin)
    rw [toList_queryRead]
    exact ⟨"const".toList ++ (' ' :: (name.toList ++ [' '])), [], by simp⟩
  rcases h with hdot | hline
  · exact hdot (hwithin.subset (hdots opening hopening))
  · have hcontains := hlines code hline opening hopening
    rw [Str.contains, contains_iff.2 hwithin] at hcontains
    cases hcontains

theorem dot_not_mem_reactImport? (code : String) : ∀ line ∈ (reactImport? code).toList, '.' ∉ line.toList := by
  have hnames : ∀ name ∈ reactNames, '.' ∉ name.toList := by decide
  have hlist : '.' ∉ (String.intercalate ", " (reactNames.filter (usesReactName code))).toList :=
    Str.not_mem_intercalate (by decide) fun name hname => hnames name (List.mem_filter.1 hname).1
  intro line hline
  rw [Option.mem_toList] at hline
  unfold reactImport? at hline
  dsimp only at hline
  split at hline
  · cases hline
  · cases hline
    decide
  · cases hline
    simp only [importNames, Str.braced, String.toList_append, List.mem_append, not_or]
    exact ⟨⟨⟨⟨by decide, ⟨by decide, ⟨by decide, hlist⟩, by decide⟩, by decide⟩, by decide⟩, by decide⟩, by decide⟩
  · cases hline
    simp only [Str.braced, String.toList_append, List.mem_append, not_or]
    exact ⟨⟨by decide, ⟨by decide, ⟨by decide, hlist⟩, by decide⟩, by decide⟩, by decide⟩

/-- A part of the template holds no full stop, or is a line for the states of the query. -/
def Part.IsOwn (p : Part) : Prop :=
  p.taken = false → '.' ∉ p.code.toList ∨ p.code ∈ ComponentBody.queryStateLines

theorem Part.isOwn_ofSource (ss : List String) : ∀ p ∈ ss.map ofSource, p.IsOwn := by
  intro p hp htaken
  rw [taken_of_mem_ofSource hp] at htaken
  cases htaken

theorem Part.isOwn_ofTemplate {s : String} (h : '.' ∉ s.toList) : (ofTemplate s).IsOwn := fun _ => .inl h

namespace ComponentBody

theorem dot_not_mem_storeLine (hclean : c.layout.Clean) (hstate : ∀ s ∈ c.facts.state, s.WellFormed) :
    '.' ∉ ((ofContext c).storeLine c).toList := by
  have hdot : isNameChar '.' = false := by decide
  have hnames : ∀ n ∈ (ofContext c).storeNames, '.' ∉ n.toList := by
    rw [storeNames_ofContext]
    intro n hn
    obtain ⟨s, hs, hn⟩ := List.mem_flatMap.1 hn
    have hmem : s ∈ c.facts.state := by
      unfold stored at hs
      split at hs
      · exact (List.mem_filter.1 hs).1
      · cases hs
    rcases List.mem_cons.1 hn with rfl | hn
    · exact (hstate s hmem).name.not_mem hdot
    · rw [List.mem_singleton.1 hn]
      exact (hstate s hmem).setter.not_mem hdot
  have hlist := Str.not_mem_intercalate (show '.' ∉ ", ".toList by decide) hnames
  have hhook := hclean.isName_storeHook.not_mem (x := '.') (by decide)
  simp only [storeLine, String.toList_append, List.mem_append, not_or]
  exact ⟨⟨⟨⟨by decide, hlist⟩, by decide⟩, hhook⟩, by decide⟩

theorem isOwn_parts (hclean : c.layout.Clean) (hstate : ∀ s ∈ c.facts.state, s.WellFormed) :
    ∀ p ∈ (ofContext c).parts c, p.IsOwn := by
  have hquery : '.' ∉ ("const query = " ++ c.layout.hookName ++ "();").toList := by
    have hhook := hclean.isName_hookName.not_mem (x := '.') (by decide)
    simp only [String.toList_append, List.mem_append, not_or]
    exact ⟨⟨by decide, hhook⟩, by decide⟩
  have hmarkup := isOwn_ofSource [(ofContext c).markup]
  unfold parts
  simp only [List.forall_mem_append, List.forall_mem_cons]
  refine ⟨fun p hp => ?_, fun p hp => ?_, fun p hp => ?_, isOwn_ofSource _, isOwn_ofSource _, fun p hp => ?_,
    isOwn_ofTemplate (by decide), hmarkup _ List.mem_cons_self, isOwn_ofTemplate (by decide), by simp⟩
  · split at hp
    · rw [List.mem_singleton.1 hp]
      exact isOwn_ofTemplate (by decide)
    · cases hp
  · split at hp
    · rw [List.mem_singleton.1 hp]
      exact isOwn_ofTemplate hquery
    · cases hp
  · split at hp
    · cases hp
    · rw [List.mem_singleton.1 hp]
      exact isOwn_ofTemplate (dot_not_mem_storeLine hclean hstate)
  · split at hp
    · obtain ⟨line, hline, rfl⟩ := List.mem_map.1 hp
      exact fun _ => .inr hline
    · cases hp

end ComponentBody

theorem isOwn_componentParts (hclean : c.layout.Clean) (hstate : ∀ s ∈ c.facts.state, s.WellFormed) :
    ∀ p ∈ componentParts c, p.IsOwn := by
  have hreact : ∀ p ∈ (reactImport? (functionCodeOf c)).toList.map ofTemplate, p.IsOwn := by
    intro p hp
    obtain ⟨line, hline, rfl⟩ := List.mem_map.1 hp
    exact isOwn_ofTemplate (dot_not_mem_reactImport? _ line hline)
  have hinterface : ∀ p ∈ interfaceParts c, p.IsOwn := by
    have hheader : '.' ∉ ("interface " ++ c.layout.propsType ++ " \x7b").toList := by
      have htype := hclean.isName_propsType.not_mem (x := '.') (by decide)
      simp only [String.toList_append, List.mem_append, not_or]
      exact ⟨⟨by decide, htype⟩, by decide⟩
    unfold interfaceParts
    split
    · simp only [List.forall_mem_append, List.forall_mem_cons]
      exact ⟨isOwn_ofTemplate hheader, isOwn_ofSource _, isOwn_ofTemplate (by decide), by simp⟩
    · simp
  have hfunction : ∀ p ∈ functionParts c, p.IsOwn := by
    have hlast (s : String) := isOwn_ofSource [s] _ List.mem_cons_self
    unfold functionParts
    simp only [List.forall_mem_append, List.forall_mem_cons]
    exact ⟨isOwn_ofSource _, hlast _, ComponentBody.isOwn_parts hclean hstate, isOwn_ofTemplate (by decide), by simp⟩
  have hexport : '.' ∉ ("export default " ++ c.layout.name ++ ";").toList := by
    have hname := hclean.isName_name.not_mem (x := '.') (by decide)
    simp only [String.toList_append, List.mem_append, not_or]
    exact ⟨⟨by decide, hname⟩, by decide⟩
  unfold componentParts
  simp only [List.forall_mem_append, List.forall_mem_cons]
  exact ⟨hreact, isOwn_ofSource _, isOwn_ofSource _, hinterface, hfunction, isOwn_ofTemplate hexport, by simp⟩

/-- Only what is taken over from the source reads a constant off a query. -/
theorem readsQuery_renderComponent_iff_taken (hclean : c.layout.Clean) (hstate : ∀ s ∈ c.facts.state, s.WellFormed)
    {name : String} (hname : '\n' ∉ name.toList) : readsQuery (renderComponent c) name = true ↔
      ∃ p ∈ componentParts c, p.taken = true ∧ readsQuery p.code name = true := by
  rw [readsQuery_renderComponent_iff hname]
  refine exists_congr fun p => and_congr_right fun hp => ⟨fun hreads => ⟨?_, hreads⟩, And.right⟩
  by_contra htaken
  rw [readsQuery_eq_false (isOwn_componentParts hclean hstate p hp (by simpa using htaken))] at hreads
  cases hreads

/-! ### Constants that the component derives -/

/-- The expression is read off a variable `query`. -/
def OpensQuery (e : String) : Prop := ∃ opening ∈ queryOpenings, ∃ r, e = opening ++ r

theorem readsQuery_declaration {e : String} (h : OpensQuery e) (name : String) :
    readsQuery ("const " ++ name ++ " = " ++ e ++ ";") name = true := by
  obtain ⟨opening, hopening, r, rfl⟩ := h
  refine List.any_eq_true.2 ⟨opening, hopening, contains_iff.2 ⟨[], (r ++ ";").toList, ?_⟩⟩
  have hmiddle : " = " = " " ++ "= " := by decide
  rw [List.nil_append, ← String.toList_append, queryRead, hmiddle]
  simp only [String.append_assoc]

namespace Derived

theorem opensQuery_dataExpression (s : StateBinding) : OpensQuery (dataExpression s) := by
  have hvalue : ∃ r, (if (Str.trim s.initial).isEmpty || Str.trim s.initial == "undefined" then "query.data"
      else "query.data ?? " ++ Str.trim s.initial) = "query." ++ r := by
    split
    · exact ⟨"data", by decide⟩
    · have hdata : "query.data ?? " = "query." ++ "data ?? " := by decide
      exact ⟨"data ?? " ++ Str.trim s.initial, by rw [hdata, String.append_assoc]⟩
  obtain ⟨r, hr⟩ := hvalue
  unfold dataExpression
  dsimp only
  rw [hr]
  split
  · exact ⟨"query.", by decide, r, rfl⟩
  · have hbracket : "(query." = "(" ++ "query." := by decide
    exact ⟨"(query.", by decide, r ++ ") as " ++ s.type, by rw [hbracket]; simp only [String.append_assoc]⟩

theorem opensQuery_expression? {dataTaken taken : Bool} {s : StateBinding} {e : String}
    (h : expression? dataTaken s = some (e, taken)) : OpensQuery e := by
  unfold expression? at h
  dsimp only at h
  split at h
  · cases h
    exact ⟨"query.", by decide, "isLoading", by decide⟩
  · split at h
    · cases h
      exact ⟨"query.", by decide, "error", by decide⟩
    · split at h
      · cases h
      · cases h
        exact opensQuery_dataExpression s

theorem readsQuery_step {removedCode markup : String} {d : Derivation}
    (h : ∀ e ∈ d.derived, readsQuery e.declaration e.name = true) (s : StateBinding) :
    ∀ e ∈ (step removedCode markup d s).derived, readsQuery e.declaration e.name = true := by
  unfold step
  split
  · exact h
  · cases hexpression : expression? d.dataTaken s with
    | none => exact h
    | some x =>
      rw [List.forall_mem_append, List.forall_mem_singleton]
      exact ⟨h, readsQuery_declaration (opensQuery_expression? hexpression) s.name⟩

/-- Each derived binding has a line that reads it off the query. -/
theorem readsQuery_replaceFetching (f : Facts) (markup : String) (units : List BodyUnit) :
    ∀ e ∈ (replaceFetching f markup units).2, readsQuery e.declaration e.name = true := by
  have hfold (states : List StateBinding) (removedCode : String) {d : Derivation}
      (h : ∀ e ∈ d.derived, readsQuery e.declaration e.name = true) :
      ∀ e ∈ (states.foldl (step removedCode markup) d).derived, readsQuery e.declaration e.name = true := by
    induction states generalizing d with
    | nil => exact h
    | cons s ss ih => exact ih (readsQuery_step h s)
  exact hfold f.state _ (by simp)

end Derived

theorem ComponentBody.derived_ofContext (c : RenderContext) : (ofContext c).derived =
    if c.plan.hook && c.facts.features.remoteData then
      (Derived.replaceFetching c.facts (markupOf c) (BodyUnit.all c.facts)).2
    else [] := by
  cases huses : c.plan.hook && c.facts.features.remoteData <;> simp [ofContext, huses]

theorem usesQuery_of_homeOf {s : StateBinding} (h : homeOf c s = .query) :
    (c.plan.hook && c.facts.features.remoteData) = true := by
  have hderived : s.name ∈ (ComponentBody.ofContext c).derivedNames := by
    unfold homeOf at h
    split at h
    · assumption
    · split at h <;> cases h
  by_contra hnone
  rw [ComponentBody.derivedNames, ComponentBody.derived_ofContext, if_neg hnone] at hderived
  cases hderived

theorem store_of_homeOf {s : StateBinding} (h : homeOf c s = .store) : c.plan.store = true := by
  unfold homeOf at h
  split at h
  · cases h
  · split at h
    · assumption
    · cases h

theorem mem_componentParts_of_body {p : Part} (h : p ∈ (ComponentBody.ofContext c).parts c) : p ∈ componentParts c := by
  simp only [componentParts, functionParts, List.mem_append, List.mem_cons, h, true_or, or_true]

/-- The units of the body are parts of the component. -/
theorem mem_componentParts_of_unit {u : BodyUnit} (h : u ∈ (ComponentBody.ofContext c).units) :
    ofSource u.code ∈ componentParts c := by
  have hmem := List.mem_map_of_mem (f := ofSource) (List.mem_map_of_mem (f := BodyUnit.code) h)
  refine mem_componentParts_of_body ?_
  simp only [ComponentBody.parts, List.mem_append, hmem, true_or, or_true]

/-- A derived state is read off the query by a part that is counted as taken over: the source gives its
name, its type and its initial value. -/
theorem exists_part_of_derived {name : String} (h : name ∈ (ComponentBody.ofContext c).derivedNames) :
    ∃ p ∈ componentParts c, p.taken = true ∧ readsQuery p.code name = true := by
  obtain ⟨e, he, rfl⟩ := List.mem_map.1 h
  have hreads : readsQuery e.declaration e.name = true := by
    rw [ComponentBody.derived_ofContext] at he
    split at he
    · exact Derived.readsQuery_replaceFetching _ _ _ e he
    · cases he
  have hmem := List.mem_map_of_mem (f := ofSource) (List.mem_map_of_mem (f := Derived.declaration) he)
  refine ⟨ofSource e.declaration, mem_componentParts_of_body ?_, rfl, hreads⟩
  simp only [ComponentBody.parts, List.mem_append, hmem, true_or, or_true]

end Template

namespace TestSuite

/-- What is added is imported, and nothing else is. -/
theorem mem_addImports {line : String} (s : TestSuite) (lines : List String) :
    line ∈ (s.addImports lines).imports ↔ line ∈ s.imports ∨ line ∈ lines := by
  induction lines generalizing s with
  | nil => simp [addImports]
  | cons l ls ih =>
    have hstep : s.addImports (l :: ls) = (s.addImport l).addImports ls := rfl
    have hadd : line ∈ (s.addImport l).imports ↔ line ∈ s.imports ∨ line = l := by
      unfold addImport
      split
      · rename_i hthere
        exact ⟨.inl, fun h => h.elim id (fun h => h ▸ List.contains_iff_mem.1 hthere)⟩
      · simp
    rw [hstep, ih, hadd, List.mem_cons, or_assoc]

end TestSuite

namespace ComponentSuite

open Template

variable {c : SuiteContext}

/-- The scenario of a state with the given home. -/
def scenarioOf (c : SuiteContext) (s : StateBinding) : StateHome → Scenario
  | .query => .ofBlocks ("derives the " ++ s.name ++ " state from the data hook") .state
      ["renderComponent();", "expect(" ++ c.layout.hookName ++ ").toHaveBeenCalled();"]
  | .store => .ofBlocks ("reads the " ++ s.name ++ " state from the store") .state
      ["renderComponent();", "expect(" ++ c.layout.storeHook ++ ".getState()." ++ s.name ++
        ").toEqual(" ++ initialValue s ++ ");"]
  | .component => .ofBlocks ("renders with the initial " ++ s.name ++ " state") .state rendered

theorem scenarioOf_inj {s : StateBinding} {home home' : StateHome} :
    scenarioOf c s home = scenarioOf c s home' ↔ home = home' := by
  have hstart (home : StateHome) : (scenarioOf c s home).name.toList.take 3 =
      match home with
      | .query => "der".toList
      | .store => "rea".toList
      | .component => "ren".toList := by
    cases home <;> simp [scenarioOf, Scenario.ofBlocks]
  refine ⟨fun h => ?_, fun h => h ▸ rfl⟩
  have hname := congrArg (·.name.toList.take 3) h
  simp only [hstart] at hname
  cases home <;> cases home' <;> first | rfl | exact absurd hname (by decide)

/-- Where the test takes the state to live. -/
def assumedHome (c : SuiteContext) (name : String) : StateHome :=
  if readsQuery c.content name then .query else if c.plan.store then .store else .component

theorem stateScenario_eq (s : StateBinding) : stateScenario c s = scenarioOf c s (assumedHome c s.name) := by
  have hread (opening : String) : queryRead s.name opening = "const " ++ s.name ++ (" = " ++ opening) := by
    have hmiddle : " = " = " " ++ "= " := by decide
    rw [queryRead, hmiddle]
    simp only [String.append_assoc]
  have hderived : isDerived c s.name = readsQuery c.content s.name := by
    have hpoint : " = query." = " = " ++ "query." := by decide
    have hbracket : " = (query." = " = " ++ "(query." := by decide
    simp [isDerived, readsQuery, queryOpenings, hread, hpoint, hbracket]
  unfold stateScenario assumedHome
  rw [hderived]
  cases readsQuery c.content s.name <;> cases c.plan.store <;> rfl

section

variable {c : RenderContext} (hclean : c.layout.Clean) (hstate : ∀ s ∈ c.facts.state, s.WellFormed) {s : StateBinding}
  (hs : s ∈ c.facts.state)

include hclean hstate hs

/-- The test takes every derived state for one, and any other state if the component takes over a constant of
its name that is read off a variable `query`. -/
theorem assumedHome_eq : assumedHome (c.suiteContext .component) s.name =
    if ∃ p ∈ componentParts c, p.taken = true ∧ readsQuery p.code s.name = true then .query else homeOf c s := by
  have hfeed : '\n' ∉ s.name.toList := (hstate s hs).name.not_mem (by decide)
  have hreads := readsQuery_renderComponent_iff_taken hclean hstate hfeed
  have hassumed : assumedHome (c.suiteContext .component) s.name =
      if readsQuery (renderComponent c) s.name then .query else if c.plan.store then .store else .component := rfl
  rw [hassumed]
  simp only [hreads]
  split
  · rfl
  · rename_i hnone
    rw [homeOf, if_neg fun hderived => hnone (exists_part_of_derived hderived)]

theorem assumedHome_eq_iff : assumedHome (c.suiteContext .component) s.name = homeOf c s ↔
    homeOf c s = .query ∨ ∀ p ∈ componentParts c, p.taken = true → readsQuery p.code s.name = false := by
  rw [assumedHome_eq hclean hstate hs]
  split
  · rename_i htaken
    obtain ⟨p, hp, htaken, hreads⟩ := htaken
    refine ⟨fun h => .inl h.symm, fun h => (h.resolve_right fun hnone => ?_).symm⟩
    rw [hnone p hp htaken] at hreads
    cases hreads
  · rename_i hnone
    refine iff_of_true rfl (.inr fun p hp htaken => Bool.eq_false_iff.2 fun hreads => ?_)
    exact hnone ⟨p, hp, htaken, hreads⟩

end

/-- The suite imports the name by one of its statements. -/
def Imports (c : SuiteContext) (name : String) : Prop :=
  ∃ i ∈ statements c (traitsOf c), i.text ∈ (build c).imports ∧ (name, name) ∈ i.bound

theorem imports_iff {name : String} :
    Imports c name ↔ ∃ i ∈ statements c (traitsOf c), (name, name) ∈ i.bound := by
  refine exists_congr fun i => and_congr_right fun hi => and_iff_right ?_
  rw [imports_build]
  exact (TestSuite.mem_addImports _ _).2 (.inr (List.mem_map_of_mem hi))

theorem imports_storeHook (h : c.plan.store = true) : Imports c c.layout.storeHook := by
  rw [imports_iff]
  exact ⟨.names [c.layout.storeHook] (c.importPath .store), by simp [statements, h], List.mem_singleton_self _⟩

/-- No other import of the suite brings in the name of the hook. -/
theorem imports_hookName_iff : Imports c c.layout.hookName ↔ c.usesQuery = true := by
  rw [imports_iff]
  constructor
  · intro himports
    have hhead : c.layout.hookName.toList.head? = some 'u' := by simp [ArtifactLayout.hookName]
    have hlength : c.layout.hookName.toList.length = c.layout.name.toList.length + 7 := by
      simp [ArtifactLayout.hookName]
    have hlibrary {names : List String} (h : ∀ n ∈ names, n.toList.head? ≠ some 'u') : c.layout.hookName ∉ names :=
      fun hmem => h _ hmem hhead
    have htype : c.layout.hookName ∉ [c.layout.propsType] := fun hmem => by
      have heq := congrArg (·.toList.length) (List.mem_singleton.1 hmem)
      simp [hlength, ArtifactLayout.propsType] at heq
    have hstore : c.layout.hookName ∉ [c.layout.storeHook] := fun hmem => by
      have heq := congrArg (·.toList.length) (List.mem_singleton.1 hmem)
      simp [hlength, ArtifactLayout.storeHook] at heq
    by_contra hquery
    have hnone : ∀ i ∈ statements c (traitsOf c), (c.layout.hookName, c.layout.hookName) ∉ i.bound := by
      unfold statements
      simp only [List.forall_mem_append, List.forall_mem_cons]
      refine ⟨⟨⟨⟨⟨⟨by simp [ImportStatement.effect, ImportStatement.bound], ?_, by simp⟩,
        RenderContext.forall_mem_onlyIf fun _ => ?_⟩, ?_, by simp⟩, RenderContext.forall_mem_onlyIf fun _ => ?_⟩,
        RenderContext.forall_mem_onlyIf fun huses => absurd huses hquery⟩, RenderContext.forall_mem_onlyIf fun _ => ?_⟩
      · refine fun hmem => absurd (ImportStatement.fst_mem_of_mem_bound_names hmem) (hlibrary ?_)
        split <;> decide
      · exact fun hmem => absurd (ImportStatement.fst_mem_of_mem_bound_names hmem) (hlibrary (by decide))
      · intro hmem
        have hdefault : (c.layout.hookName, c.layout.hookName) ∈ [("default", c.layout.name)] := hmem
        have hword : c.layout.hookName = "default" := congrArg Prod.fst (List.mem_singleton.1 hdefault)
        rw [hword] at hhead
        exact absurd hhead (by decide)
      · exact fun hmem => htype (ImportStatement.fst_mem_of_mem_bound_types hmem)
      · exact fun hmem => hstore (ImportStatement.fst_mem_of_mem_bound_names hmem)
    obtain ⟨i, hi, hbound⟩ := himports
    exact hnone i hi hbound
  · intro huses
    have htraits : (traitsOf c).usesQuery = true := huses
    exact ⟨.names [c.layout.hookName] (c.importPath .hook), by simp [statements, htraits], List.mem_singleton_self _⟩

end ComponentSuite

open Template ComponentSuite in
/-- The test of a component has a scenario for each of its states. It is about the home that the state has
exactly if that is the query, or if the component takes over no constant of that name that is read off a
variable `query`. Otherwise it is about the query, whose hook the suite imports only if the component reads
data through it. -/
theorem scenario_of_home_iff {source : String} {declared? : Option String} {f : Facts} {config : Config}
    {files tests : List GeneratedFile} (ha : Facts.analyze source declared? = .ok f)
    (hfiles : ({ config } : Synthesizer).generate f = .ok files) (htests : TestSuite.generate f files = .ok tests)
    {s : StateBinding} (hs : s ∈ f.state) :
    let c := contextOf config f
    let suite := c.suiteContext .component
    ∃ file ∈ files, ∃ test ∈ tests, file.kind = .component ∧ file.content = renderComponent c ∧
      TestSuite.IsTestOf f c.plan file test ∧ test.content = (build suite).code ∧
      stateScenario suite s ∈ (build suite).tests ∧
      (stateScenario suite s = scenarioOf suite s (homeOf c s) ↔
        homeOf c s = .query ∨ ∀ p ∈ componentParts c, p.taken = true → readsQuery p.code s.name = false) ∧
      (stateScenario suite s ≠ scenarioOf suite s (homeOf c s) → stateScenario suite s = scenarioOf suite s .query) ∧
      (Imports suite c.layout.hookName ↔ (c.plan.hook && f.features.remoteData) = true) ∧
      (homeOf c s = .query → Imports suite c.layout.hookName) ∧
      (homeOf c s = .store → Imports suite c.layout.storeHook) := by
  obtain ⟨hname, rfl⟩ := Synthesizer.generate_eq_ok_iff.1 hfiles
  rw [RenderContext.generate_tests_eq] at htests
  cases htests
  intro c suite
  have hclean : c.layout.Clean := ArtifactLayout.clean_ofName hname
  have hstate : ∀ s ∈ c.facts.state, s.WellFormed := Facts.wellFormed_of_analyze ha
  have hkind : ArtifactKind.component ∈ c.kinds := RenderContext.mem_kinds_iff.2 rfl
  have hscenario (home : StateHome) : stateScenario suite s = scenarioOf suite s home ↔
      assumedHome suite s.name = home := by rw [stateScenario_eq, scenarioOf_inj]
  refine ⟨c.artifact .component, List.mem_map_of_mem hkind, c.test .component, List.mem_map_of_mem hkind, rfl, rfl,
    RenderContext.isTestOf_test hkind, rfl, ?_, ?_, ?_, imports_hookName_iff, ?_, ?_⟩
  · have hmem : stateScenario suite s ∈ suite.facts.state.map (stateScenario suite) := List.mem_map_of_mem hs
    simp only [build, scenarios, List.mem_append, hmem, true_or, or_true]
  · rw [hscenario, assumedHome_eq_iff hclean hstate hs]
  · rw [ne_eq, hscenario, hscenario, assumedHome_eq hclean hstate hs]
    split
    · exact fun _ => rfl
    · exact fun hne => absurd rfl hne
  · exact fun hquery => imports_hookName_iff.2 (usesQuery_of_homeOf hquery)
  · exact fun hstore => imports_storeHook (store_of_homeOf hstore)

def queryHandler : String := "function Rows(\x7b query \x7d) \x7b
  const [rows, setRows] = useState([]);
  const load = () => \x7b const rows = query.all; \x7d;
  return <p>\x7brows\x7d</p>;
\x7d
"

open Template ComponentSuite in
/-- A handler that reads a prop makes the test of the component expect a call of a hook that the suite does
not import. -/
theorem queryHandler_scenario_of_query : ∃ f files tests, Facts.analyze queryHandler none = .ok f ∧
    ({ config := {} } : Synthesizer).generate f = .ok files ∧ TestSuite.generate f files = .ok tests ∧
    ∃ s ∈ f.state, homeOf (contextOf {} f) s = .component ∧
      let suite := (contextOf {} f).suiteContext .component
      stateScenario suite s = scenarioOf suite s .query ∧ stateScenario suite s ∈ (build suite).tests ∧
        ¬ Imports suite (contextOf {} f).layout.hookName := by
  have hanalyze : ∃ f, Facts.analyze queryHandler none = .ok f ∧
      (isIdentifier (contextOf {} f).layout.name.toList && !f.features.remoteData &&
        f.state.any fun s => homeOf (contextOf {} f) s == .component &&
          (ComponentBody.ofContext (contextOf {} f)).units.any fun u => readsQuery u.code s.name) = true := by
    refine Facts.exists_of_analyze (by unfold queryHandler; rfl) fun s hs => ?_
    unfold Facts.analyze
    rw [hs]
    decide +kernel
  obtain ⟨f, ha, hrun⟩ := hanalyze
  simp only [Bool.and_eq_true, List.any_eq_true, beq_iff_eq, Bool.not_eq_true'] at hrun
  obtain ⟨⟨hname, hdata⟩, s, hs, hhome, u, hu, hreads⟩ := hrun
  have hfiles := Synthesizer.generate_eq_ok_iff.2 ⟨hname, rfl⟩
  have htests := RenderContext.generate_tests_eq {} f
  obtain ⟨-, -, -, -, -, -, -, -, hmem, hiff, hother, himports, -⟩ := scenario_of_home_iff ha hfiles htests hs
  have hwrong := mt hiff.1 fun h => by
    rcases h with hquery | hnone
    · rw [hhome] at hquery
      cases hquery
    · have htaken : readsQuery u.code s.name = false := hnone _ (mem_componentParts_of_unit hu) rfl
      rw [htaken] at hreads
      cases hreads
  refine ⟨f, _, _, ha, hfiles, htests, s, hs, hhome, hother hwrong, hmem, fun hhook => ?_⟩
  rw [himports, hdata, Bool.and_false] at hhook
  cases hhook

end Recast
