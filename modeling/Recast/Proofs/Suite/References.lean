import Recast.Proofs.Artifact.References
import Recast.Proofs.Suite.Scenarios

/-!
# References of generated files

A test begins with its import statements as well, and imports names of packages and of
artifacts only. Every specifier of an artifact leads to its file, and what is imported from
there by the plan is exported there (`generate_references`).
-/

namespace Recast

namespace TestSuite

open CodeBuilder

theorem opensWith_code {s : TestSuite} {imports : List ImportStatement} (h : s.imports = imports.map (·.text)) :
    OpensWith s.code (.names s.usedGlobals "vitest" :: imports) := by
  have hstart : ((CodeBuilder.line {} (Template.importNames s.usedGlobals "vitest")).lineEach s.imports).blank =
      imported (.names s.usedGlobals "vitest" :: imports) := by
    unfold imported
    rw [List.map_cons, ImportStatement.text_names, ← h]
    rfl
  unfold code
  dsimp only
  rw [hstart]
  refine opensWith_build (by simp) (Extends.lines ?_ _)
  exact (Extends.refl _).foldl (fun b block => ((Extends.refl b).lines block).blank) _

/-- Of the statements that are added, those are kept whose line is new. -/
theorem imports_addImports (s : TestSuite) (imports : List ImportStatement) :
    ∃ kept : List ImportStatement, (∀ i ∈ kept, i ∈ imports) ∧
      (s.addImports (imports.map (·.text))).imports = s.imports ++ kept.map (·.text) := by
  induction imports generalizing s with
  | nil => exact ⟨[], by simp, by simp [addImports]⟩
  | cons i is ih =>
    obtain ⟨kept, hkept, himports⟩ := ih (s.addImport i.text)
    have hstep : s.addImports ((i :: is).map (·.text)) = (s.addImport i.text).addImports (is.map (·.text)) := rfl
    rw [hstep, himports]
    unfold addImport
    split
    · exact ⟨kept, fun j hj => List.mem_cons_of_mem _ (hkept j hj), rfl⟩
    · refine ⟨i :: kept, ?_, by simp⟩
      intro j hj
      rcases List.mem_cons.1 hj with rfl | hj
      · exact List.mem_cons_self
      · exact List.mem_cons_of_mem _ (hkept j hj)

end TestSuite

namespace RenderContext

variable (c : RenderContext)

/-- The names that the test of an artifact imports of the artifacts. -/
def testUses : ArtifactKind → ArtifactKind → List String
  | .component, .component => ["default"]
  | .component, .types => if c.plan.types && !c.facts.props.isEmpty then [c.layout.propsType] else []
  | .component, .hook =>
    if c.plan.hook && c.facts.features.remoteData then [c.layout.hookName] else []
  | .component, .store => if c.plan.store then [c.layout.storeHook] else []
  | .types, .types => Template.declaredTypes c
  | .hook, .hook => [c.layout.hookName, c.layout.queryKey]
  | .hook, .service => if c.plan.service then [c.layout.serviceInstance] else []
  | .service, .service => [c.layout.serviceClass, c.layout.serviceInstance]
  | .store, .store => [c.layout.storeHook]
  | _, _ => []

/-- Where an import of a test comes from. -/
def KnownTo (kind : ArtifactKind) (i : ImportStatement) : Prop :=
  ∀ x ∈ i.bound, i.origin ∈ packages ∨
    ∃ target, i.origin = (c.suiteContext kind).importPath target ∧ x.1 ∈ c.testUses kind target

variable {c}

theorem exports_of_testUses {kind target : ArtifactKind} {name : String} (hkind : c.plan.includes kind = true)
    (h : name ∈ c.testUses kind target) : c.plan.includes target = true ∧ name ∈ c.exportNames target := by
  unfold testUses at h
  split at h
  case h_1 | h_5 | h_6 | h_8 | h_9 => exact ⟨hkind, h⟩
  case h_10 => cases h
  all_goals
    split at h
    case isFalse => cases h
    rename_i hplan
    have hname := List.mem_singleton.1 h
  · obtain ⟨htypes, hprops⟩ := Bool.and_eq_true_iff.1 hplan
    refine ⟨htypes, List.mem_append_left _ (List.mem_append_left _ ?_)⟩
    simp only [Bool.not_eq_true'] at hprops
    simp [hprops, hname]
  · exact ⟨(Bool.and_eq_true_iff.1 hplan).1, by simp [exportNames, hname]⟩
  · exact ⟨hplan, by simp [exportNames, hname]⟩
  · exact ⟨hplan, by simp [exportNames, hname]⟩

theorem KnownTo.package {kind : ArtifactKind} {i : ImportStatement} (h : i.origin ∈ packages) : c.KnownTo kind i :=
  fun _ _ => .inl h

theorem knownTo_names {kind target : ArtifactKind} {names : List String}
    (h : ∀ name ∈ names, name ∈ c.testUses kind target) :
    c.KnownTo kind (.names names ((c.suiteContext kind).importPath target)) :=
  fun _ hx => .inr ⟨target, rfl, h _ (ImportStatement.fst_mem_of_mem_bound_names hx)⟩

theorem knownTo_types {kind target : ArtifactKind} {names : List String}
    (h : ∀ name ∈ names, name ∈ c.testUses kind target) :
    c.KnownTo kind (.types names ((c.suiteContext kind).importPath target)) :=
  fun _ hx => .inr ⟨target, rfl, h _ (ImportStatement.fst_mem_of_mem_bound_types hx)⟩

end RenderContext

namespace ComponentSuite

/-- The import statements of the test of a component, before those that stand there already
are left out. -/
def statements (c : SuiteContext) (t : Traits) : List ImportStatement :=
  [.effect "@testing-library/jest-dom/vitest",
      .names (if t.fetches then ["render", "screen", "waitFor"] else ["render", "screen"]) "@testing-library/react"] ++
    (if t.router then [.names ["MemoryRouter"] "react-router-dom"] else []) ++
    [{ origin := c.importPath .component, default? := some c.layout.name }] ++
    (if t.typed then [.types [c.layout.propsType] (c.importPath .types)] else []) ++
    (if t.usesQuery then [.names [c.layout.hookName] (c.importPath .hook)] else []) ++
    if c.plan.store then [.names [c.layout.storeHook] (c.importPath .store)] else []

theorem imports_eq (c : SuiteContext) (t : Traits) : imports c t = (statements c t).map (·.text) := by
  have honlyIf (condition : Bool) (i : ImportStatement) :
      (if condition then [i] else []).map (·.text) = onlyIf condition [i.text] := by
    cases condition <;> rfl
  have hdefault : ImportStatement.text { origin := c.importPath .component, default? := some c.layout.name } =
      "import " ++ c.layout.name ++ " from '" ++ c.importPath .component ++ "';" := by
    simp [ImportStatement.text, ImportStatement.clause]
  have hrouter : (ImportStatement.names ["MemoryRouter"] "react-router-dom").text =
      "import \x7b MemoryRouter \x7d from 'react-router-dom';" := rfl
  have heffect : (ImportStatement.effect "@testing-library/jest-dom/vitest").text =
      "import '@testing-library/jest-dom/vitest';" := rfl
  unfold statements imports
  simp only [List.map_append, honlyIf, List.map_cons, List.map_nil, hdefault, hrouter, heffect,
    ImportStatement.text_names, ImportStatement.text_types]
  rfl

theorem imports_build (c : SuiteContext) : (build c).imports =
    (TestSuite.addImports { name := c.layout.name, target := .component }
      ((statements c (traitsOf c)).map (·.text))).imports := by
  rw [← imports_eq]
  rfl

end ComponentSuite

namespace HookSuite

def statements (c : SuiteContext) : List ImportStatement :=
  [.effect "@testing-library/jest-dom/vitest", .types ["ReactNode"] "react",
      .names ["QueryClient", "QueryClientProvider"] "@tanstack/react-query",
      .names ["renderHook", "waitFor"] "@testing-library/react",
      .names [c.layout.hookName, c.layout.queryKey] (c.importPath .hook)] ++
    if c.plan.service then [.names [c.layout.serviceInstance] (c.importPath .service)] else []

theorem imports_build (c : SuiteContext) : (build c).imports =
    (TestSuite.addImports { name := c.layout.hookName, target := .hook }
      ((statements c).map (·.text))).imports := by
  have himports : imports c = [ImportStatement.effect "@testing-library/jest-dom/vitest",
      .types ["ReactNode"] "react", .names ["QueryClient", "QueryClientProvider"] "@tanstack/react-query",
      .names ["renderHook", "waitFor"] "@testing-library/react",
      .names [c.layout.hookName, c.layout.queryKey] (c.importPath .hook)].map (·.text) := by
    simp only [List.map_cons, List.map_nil, ImportStatement.text_names, ImportStatement.text_types]
    rfl
  unfold build statements
  dsimp only
  rw [List.map_append, ← himports]
  unfold TestSuite.addImports
  rw [List.foldl_append]
  cases c.plan.service with
  | false => rfl
  | true =>
    simp only [if_true, List.map_cons, List.map_nil, ImportStatement.text_names, List.foldl_cons, List.foldl_nil]
    rfl

end HookSuite

namespace RenderContext

variable {c : RenderContext}

theorem knownTo_component (t : ComponentSuite.Traits)
    (htyped : t.typed = (c.plan.types && !c.facts.props.isEmpty))
    (hquery : t.usesQuery = (c.plan.hook && c.facts.features.remoteData)) :
    ∀ i ∈ ComponentSuite.statements (c.suiteContext .component) t, c.KnownTo .component i := by
  have hlibrary : "@testing-library/react" ∈ packages := by decide
  unfold ComponentSuite.statements
  simp only [List.forall_mem_append, List.forall_mem_cons]
  refine ⟨⟨⟨⟨⟨⟨.package (by decide), .package hlibrary, by simp⟩, forall_mem_onlyIf ?_⟩, ?_, by simp⟩,
    forall_mem_onlyIf ?_⟩, forall_mem_onlyIf ?_⟩, forall_mem_onlyIf ?_⟩
  · exact fun _ => .package (by decide)
  · intro x hx
    refine .inr ⟨.component, rfl, ?_⟩
    rw [List.mem_singleton.1 (hx : x ∈ [("default", c.layout.name)])]
    exact List.mem_singleton_self _
  · intro htypes
    exact knownTo_types (by simp [testUses, ← htyped, htypes])
  · intro hhook
    exact knownTo_names (by simp [testUses, ← hquery, hhook])
  · intro hstore
    exact knownTo_names (by simp [testUses, show c.plan.store = true from hstore])

theorem knownTo_hook : ∀ i ∈ HookSuite.statements (c.suiteContext .hook), c.KnownTo .hook i := by
  unfold HookSuite.statements
  simp only [List.forall_mem_append, List.forall_mem_cons]
  refine ⟨⟨.package (by decide), .package (by decide), .package (by decide), .package (by decide),
    knownTo_names (by simp [testUses]), by simp⟩, forall_mem_onlyIf ?_⟩
  intro hservice
  exact knownTo_names (by simp [testUses, show c.plan.service = true from hservice])

/-- The import statements of the test of a types module. -/
def typesStatements (c : RenderContext) : List ImportStatement :=
  (if c.facts.props.any (·.type == "ReactElement") then [.names ["createElement"] "react"] else []) ++
    if (Template.declaredTypes c).isEmpty then []
    else [.types (Template.declaredTypes c) ((c.suiteContext .types).importPath .types)]

theorem imports_typesSuite (c : RenderContext) :
    (TypesSuite.build (c.suiteContext .types)).imports = c.typesStatements.map (·.text) := by
  have hnames : TypesSuite.declaredNames (c.suiteContext .types) = Template.declaredTypes c := rfl
  have himports : (TypesSuite.build (c.suiteContext .types)).imports = TypesSuite.imports (c.suiteContext .types) := rfl
  rw [himports]
  unfold TypesSuite.imports typesStatements
  rw [hnames, List.map_append]
  congr 1
  · rw [suiteContext_facts]
    split <;> rfl
  · split
    · rfl
    · rw [List.map_cons, List.map_nil, ImportStatement.text_types]
      rfl

theorem knownTo_types_module : ∀ i ∈ c.typesStatements, c.KnownTo .types i := by
  unfold typesStatements
  rw [List.forall_mem_append]
  constructor
  · exact forall_mem_onlyIf fun _ => .package (by decide)
  · intro i hi
    split at hi
    · cases hi
    · rw [List.mem_singleton.1 hi]
      exact knownTo_types fun _ hname => hname

/-- What the suite of an artifact imports is stated by imports that are known to it. -/
def Stated (c : RenderContext) (kind : ArtifactKind) (imports : List String) : Prop :=
  ∃ statements : List ImportStatement, imports = statements.map (·.text) ∧ ∀ i ∈ statements, c.KnownTo kind i

theorem stated_nil (kind : ArtifactKind) : c.Stated kind [] := ⟨[], rfl, by simp⟩

theorem stated_names {kind target : ArtifactKind} {names : List String}
    (h : ∀ name ∈ names, name ∈ c.testUses kind target) :
    c.Stated kind [(c.suiteContext kind).importNames names target] := by
  refine ⟨[.names names ((c.suiteContext kind).importPath target)], ?_, ?_⟩
  · rw [List.map_cons, List.map_nil, ImportStatement.text_names]
    rfl
  · rw [List.forall_mem_singleton]
    exact knownTo_names h

/-- Statements that stand there already are left out. -/
theorem stated_addImports {kind : ArtifactKind} {s : TestSuite} (hs : s.imports = [])
    {statements : List ImportStatement} (h : ∀ i ∈ statements, c.KnownTo kind i) :
    c.Stated kind (s.addImports (statements.map (·.text))).imports := by
  obtain ⟨kept, hkept, himports⟩ := s.imports_addImports statements
  rw [hs, List.nil_append] at himports
  exact ⟨kept, himports, fun i hi => h i (hkept i hi)⟩

theorem stated_store : c.Stated .store (c.suite .store).imports := by
  cases hbuild : StoreSuite.build (c.suiteContext .store) with
  | error e =>
    have herror : (c.suiteContext .store).suite = .error e := hbuild
    unfold RenderContext.suite
    rw [herror]
    exact stated_nil .store
  | ok suite =>
    have himports : suite.imports = [(c.suiteContext .store).importNames [c.layout.storeHook] .store] := by
      unfold StoreSuite.build at hbuild
      dsimp only at hbuild
      split at hbuild
      · cases hbuild
      · cases hbuild
        rfl
    have hsuite : c.suite .store = suite := suite_eq hbuild
    rw [hsuite, himports]
    exact stated_names fun _ hname => hname

/-- The test of an artifact imports from packages and from artifacts that its suite is about. -/
theorem stated_suite (c : RenderContext) (kind : ArtifactKind) : c.Stated kind (c.suite kind).imports := by
  cases kind with
  | component =>
    have hsuite : c.suite .component = ComponentSuite.build (c.suiteContext .component) := suite_eq rfl
    rw [hsuite, ComponentSuite.imports_build]
    exact stated_addImports rfl (knownTo_component _ rfl rfl)
  | types =>
    have hsuite : c.suite .types = TypesSuite.build (c.suiteContext .types) := suite_eq rfl
    rw [hsuite]
    exact ⟨_, imports_typesSuite c, knownTo_types_module⟩
  | hook =>
    have hsuite : c.suite .hook = HookSuite.build (c.suiteContext .hook) := suite_eq rfl
    rw [hsuite, HookSuite.imports_build]
    exact stated_addImports rfl knownTo_hook
  | service =>
    have hsuite : c.suite .service = ServiceSuite.build (c.suiteContext .service) := suite_eq rfl
    rw [hsuite]
    exact stated_names fun _ hname => hname
  | store => exact stated_store
  | test =>
    have hsuite : c.suite .test = { name := c.layout.name, target := .test } := suite_eq rfl
    rw [hsuite]
    exact stated_nil .test

end RenderContext

/-- The specifier, followed from the directory of `path`, leads to `target` up to the final
extension. -/
def LeadsTo (path specifier target : String) : Prop :=
  Segment.follow (Segment.parent (Segment.ofPath path.toList)) (Segment.ofPath specifier.toList) =
    Segment.parent (Segment.ofPath target.toList) ++ [.name (Segment.stem (Segment.ofPath target.toList))]

/-- One of the files stands where the specifier leads, and its text exports the name. -/
def Provides (files : List GeneratedFile) (path specifier name : String) : Prop :=
  ∃ target ∈ files, LeadsTo path specifier target.path ∧ name ∈ exportsOf target.content

namespace ArtifactLayout.Clean

open Segment

variable {l : ArtifactLayout} (h : l.Clean)

include h

theorem leadsTo_importPath {path : String} {names : List (List Char)}
    (hpath : parent (ofPath path.toList) = names.map .name) (target : ArtifactKind) :
    LeadsTo path (.ofList (Segment.importPath (ofPath path.toList) (ofPath (l.pathFor target).toList)))
      (l.pathFor target) := by
  obtain ⟨-, hparent, hstem⟩ := h.segments_eq (h.toList_pathFor target)
  unfold LeadsTo
  rw [String.toList_ofList]
  exact follow_importPath hpath hparent (h.plain_dirs target) (hstem ▸ h.plain_base target)

theorem leadsTo_pathFor (source target : ArtifactKind) :
    LeadsTo (l.pathFor source) (l.importPath source target) (l.pathFor target) :=
  h.leadsTo_importPath (h.segments_eq (h.toList_pathFor source)).2.1 target

end ArtifactLayout.Clean

namespace RenderContext

variable {c : RenderContext}

theorem provides_of_leadsTo (h : c.layout.Clean) {path specifier name : String} {target : ArtifactKind}
    (hplan : c.plan.includes target = true) (hname : name ∈ c.exportNames target)
    (hleads : LeadsTo path specifier (c.layout.pathFor target)) : Provides c.artifacts path specifier name :=
  ⟨c.artifact target, List.mem_map_of_mem (mem_kinds_iff.2 hplan), hleads, exportNames_subset_exportsOf h hname⟩

/-- What an artifact imports of another by the plan is there and exported. -/
theorem provides_of_uses (h : c.layout.Clean) {kind target : ArtifactKind} {name : String}
    (hname : name ∈ c.uses kind target) :
    Provides c.artifacts (c.layout.pathFor kind) (c.importPath kind target) name := by
  obtain ⟨hplan, hexport⟩ := exports_of_uses hname
  exact provides_of_leadsTo h hplan hexport (h.leadsTo_pathFor kind target)

theorem provides_of_testUses (h : c.layout.Clean) {kind target : ArtifactKind} {name : String}
    (hkind : c.plan.includes kind = true) (hname : name ∈ c.testUses kind target) :
    Provides c.artifacts (c.layout.testPathFor kind) ((c.suiteContext kind).importPath target) name := by
  obtain ⟨hplan, hexport⟩ := exports_of_testUses hkind hname
  exact provides_of_leadsTo h hplan hexport (h.leadsTo_importPath (h.parent_testPathFor kind) target)

end RenderContext

open Template (contextOf)

/-- A name that the source imports from there and the component does not by the plan. -/
def OnlyCarried (c : RenderContext) (origin : String) (x : String × String) : Prop :=
  c.Carries origin x ∧ ∀ target, origin = c.importPath .component target → x.1 ∉ c.uses .component target

/-- Whatever a generated file imports comes from a package, or from a generated file that
stands where the specifier leads and exports it. Besides, a component imports what the
source did. -/
theorem generate_references {config : Config} {f : Facts} {files tests : List GeneratedFile}
    (hfiles : ({ config } : Synthesizer).generate f = .ok files)
    (htests : TestSuite.generate f files = .ok tests) :
    ∀ file ∈ files ++ tests, ∃ imports, OpensWith file.content imports ∧
      ∀ i ∈ imports, ∀ x ∈ i.bound, i.origin ∈ packages ∨ Provides files file.path i.origin x.1 ∨
        file.kind = .component ∧ OnlyCarried (contextOf config f) i.origin x := by
  obtain ⟨hname, rfl⟩ := Synthesizer.generate_eq_ok_iff.1 hfiles
  rw [RenderContext.generate_tests_eq] at htests
  cases htests
  have hclean : (contextOf config f).layout.Clean := ArtifactLayout.clean_ofName hname
  intro file hfile
  rcases List.mem_append.1 hfile with hfile | hfile
  · obtain ⟨kind, hkind, rfl⟩ := List.mem_map.1 hfile
    have htest : kind ≠ .test := by
      rintro rfl
      exact RenderContext.test_not_mem_kinds _ hkind
    refine ⟨_, RenderContext.opensWith_imports htest, fun i hi x hx => ?_⟩
    -- A name that the source imports may be one of the plan too, and then it is exported.
    by_cases hplanned : ∃ target, i.origin = (contextOf config f).importPath kind target ∧
        x.1 ∈ (contextOf config f).uses kind target
    · obtain ⟨target, horigin, huses⟩ := hplanned
      right
      left
      rw [horigin]
      exact RenderContext.provides_of_uses hclean huses
    · rcases RenderContext.known_imports hi hx with hpackage | hplan | ⟨rfl, hcarried⟩
      · exact .inl hpackage
      · exact absurd hplan hplanned
      · exact .inr (.inr ⟨rfl, hcarried, fun target horigin huses => hplanned ⟨target, horigin, huses⟩⟩)
  · obtain ⟨kind, hkind, rfl⟩ := List.mem_map.1 hfile
    obtain ⟨imports, himports, hknown⟩ := RenderContext.stated_suite (contextOf config f) kind
    refine ⟨_, TestSuite.opensWith_code himports, ?_⟩
    intro i hi x hx
    rcases List.mem_cons.1 hi with rfl | hi
    · have hvitest : "vitest" ∈ packages := by decide
      exact .inl hvitest
    · rcases hknown i hi x hx with hpackage | ⟨target, horigin, huses⟩
      · exact .inl hpackage
      · right
        left
        rw [horigin]
        exact RenderContext.provides_of_testUses hclean (RenderContext.mem_kinds_iff.1 hkind) huses

/-- A component that takes a function from the module of its own store. -/
def resettable : String := "import \x7b resetAll \x7d from '../../../stores/panelStore';
function Panel() \x7b
const [a, setA] = useState(1);
const [b, setB] = useState(2);
const [c, setC] = useState(3);
return <p onClick=\x7bresetAll\x7d>\x7ba\x7d\x7bb\x7d\x7bc\x7d</p>;
\x7d
"

def resettableState : List StateBinding :=
  [⟨"a", some "setA", "number", "1"⟩, ⟨"b", some "setB", "number", "2"⟩, ⟨"c", some "setC", "number", "3"⟩]

theorem analyze_resettable : ∃ f, Facts.analyze resettable none = .ok f ∧ f.name = "Panel" ∧
    f.tier = .composite ∧ f.imports = [⟨"resetAll", "../../../stores/panelStore", .named⟩] ∧
    f.state = resettableState := by
  have hrun : (match Facts.analyze resettable none with
      | .ok f => decide (f.name = "Panel" ∧ f.tier = .composite ∧
          f.imports = [⟨"resetAll", "../../../stores/panelStore", .named⟩] ∧ f.state = resettableState)
      | .error _ => false) = true := by decide +kernel
  cases ha : Facts.analyze resettable none with
  | error e => simp [ha] at hrun
  | ok f =>
    simp only [ha, decide_eq_true_eq] at hrun
    exact ⟨f, rfl, hrun⟩

/-- The store of a component hangs on its state and its layout alone. -/
theorem renderStore_congr {c c' : RenderContext} (hstate : c.facts.state = c'.facts.state)
    (hlayout : c.layout = c'.layout) : Template.renderStore c = Template.renderStore c' := by
  unfold Template.renderStore
  rw [hstate, hlayout]

/-- What the store is made from. -/
def resettableStore : RenderContext :=
  ⟨{ Facts.bare "Panel" with state := resettableState }, ⟨"Panel", "panel", .composite⟩, {}⟩

theorem resetAll_not_mem_exportsOf : "resetAll" ∉ exportsOf (Template.renderStore resettableStore) := by
  let b := Template.storeHookPart resettableStore (Template.storeInitial resettableStore
    (Template.storeType resettableStore (Template.storeValues resettableStore
      (CodeBuilder.line {} "import \x7b create \x7d from 'zustand';").blank)))
  have hlines : ∀ line ∈ b.written, ∀ piece ∈ Text.splitOn '\n' line.toList,
      exportedBy? piece ≠ some "resetAll" := by decide +kernel
  intro hexports
  rw [Template.renderStore_eq] at hexports
  obtain ⟨line, hline, piece, hpiece, hname⟩ := CodeBuilder.mem_exportsOf_build_iff.1 hexports
  exact hlines line (b.finished_subset hline) piece hpiece hname

/-- What is generated for it, and what its component and store have to do with `resetAll`. -/
theorem resettable_generates : ∃ f, Facts.analyze resettable none = .ok f ∧
    ({ config := {} } : Synthesizer).generate f = .ok (contextOf {} f).artifacts ∧
    TestSuite.generate f (contextOf {} f).artifacts = .ok (contextOf {} f).tests ∧
    (contextOf {} f).layout.Clean ∧ (contextOf {} f).plan.store = true ∧
    (∃ i ∈ (contextOf {} f).imports .component, i.origin = (contextOf {} f).importPath .component .store ∧
      ("usePanelStore", "usePanelStore") ∈ i.bound ∧ ("resetAll", "resetAll") ∈ i.bound) ∧
    "resetAll" ∉ exportsOf ((contextOf {} f).contentOf .store) := by
  obtain ⟨f, hf, hname, htier, himports, hstate⟩ := analyze_resettable
  have hlayout : (contextOf {} f).layout = ⟨"Panel", "panel", .composite⟩ := by
    have hof : (contextOf {} f).layout = .ofName f.name f.tier := rfl
    rw [hof, hname, htier]
    decide +kernel
  have hidentifier : Text.isIdentifier (contextOf {} f).layout.name.toList = true := by
    rw [hlayout]
    decide
  have hstore : (contextOf {} f).plan.store = true := by
    have hincludes : (contextOf {} f).plan.includes .store = true := by
      show (({ config := {} } : Synthesizer).plan f).includes .store = true
      rw [Synthesizer.includes_plan]
      show (true && decide (Template.minStoreBindings ≤ f.state.length)) = true
      rw [hstate]
      rfl
    exact hincludes
  refine ⟨f, hf, Synthesizer.generate_eq_ok_iff.2 ⟨hidentifier, rfl⟩, RenderContext.generate_tests_eq {} f,
    ArtifactLayout.clean_ofName hidentifier, hstore, ?_, ?_⟩
  · have horigin : "../../../stores/panelStore" = (contextOf {} f).importPath .component .store := by
      unfold RenderContext.importPath
      rw [hlayout]
      decide +kernel
    have hmem : (⟨"resetAll", "../../../stores/panelStore", .named⟩ : ImportBinding) ∈ (contextOf {} f).facts.imports := by
      show _ ∈ f.imports
      rw [himports]
      exact List.mem_singleton_self _
    have hshared := RenderContext.exists_shared_statement hmem rfl horigin hstore (by decide) (by decide)
    rw [hlayout] at hshared
    exact hshared
  · have hcontent : (contextOf {} f).contentOf .store = Template.renderStore resettableStore :=
      renderStore_congr hstate hlayout
    rw [hcontent]
    exact resetAll_not_mem_exportsOf

/-- The references of the component, of the modules beside it and of their tests. -/
theorem resettable_references : ∃ f files tests, Facts.analyze resettable none = .ok f ∧
    ({ config := {} } : Synthesizer).generate f = .ok files ∧ TestSuite.generate f files = .ok tests ∧
    ∀ file ∈ files ++ tests, ∃ imports, OpensWith file.content imports ∧
      ∀ i ∈ imports, ∀ x ∈ i.bound, i.origin ∈ packages ∨ Provides files file.path i.origin x.1 ∨
        file.kind = .component ∧ OnlyCarried (contextOf {} f) i.origin x := by
  obtain ⟨f, hf, hfiles, htests, -⟩ := resettable_generates
  exact ⟨f, _, _, hf, hfiles, htests, generate_references hfiles htests⟩

/-- The statement by which the component imports its store imports a name that the store does
not export. -/
theorem resetAll_imported_not_exported : ∃ f files tests, Facts.analyze resettable none = .ok f ∧
    ({ config := {} } : Synthesizer).generate f = .ok files ∧ TestSuite.generate f files = .ok tests ∧
    ∃ component ∈ files, ∃ store ∈ files, ∃ imports, OpensWith component.content imports ∧
      ∃ i ∈ imports, ("usePanelStore", "usePanelStore") ∈ i.bound ∧ ("resetAll", "resetAll") ∈ i.bound ∧
        LeadsTo component.path i.origin store.path ∧ "resetAll" ∉ exportsOf store.content := by
  obtain ⟨f, hf, hfiles, htests, hclean, hstore, ⟨i, hi, horigin, hown, hcarried⟩, hexports⟩ := resettable_generates
  have hmem (kind : ArtifactKind) (h : (contextOf {} f).plan.includes kind = true) :
      (contextOf {} f).artifact kind ∈ (contextOf {} f).artifacts :=
    List.mem_map_of_mem (RenderContext.mem_kinds_iff.2 h)
  have hopens : OpensWith ((contextOf {} f).contentOf .component) ((contextOf {} f).imports .component) :=
    RenderContext.opensWith_imports (by decide)
  have hleads : LeadsTo ((contextOf {} f).layout.pathFor .component) i.origin ((contextOf {} f).layout.pathFor .store) := by
    rw [horigin]
    exact hclean.leadsTo_pathFor .component .store
  exact ⟨f, _, _, hf, hfiles, htests, _, hmem .component rfl, _, hmem .store hstore, _, hopens, i, hi, hown, hcarried,
    hleads, hexports⟩

end Recast
