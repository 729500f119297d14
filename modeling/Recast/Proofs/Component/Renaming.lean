import Recast.Proofs.Component.AssignedProps

/-!
# A component under another name

A declaration is read without regard to the name of the component. The name only selects the
blocks that complete the props, and is quoted in one message.
-/

namespace Recast.Facts

open Text Pattern.Component

/-! ### What is read of a declaration -/

/-- What a declaration says by itself. Of a class without a body no props are collected. -/
structure Reading where
  kind : ComponentKind
  propsAlias? : Option String := none
  effects : List Effect := []
  state : List StateBinding := []
  handlers : List Handler := []
  rendering : Rendering := ⟨none, none⟩
  span : List Char := []
  hook? : Option String := none
  found? : Option (List FoundProp) := none

/-- A hook that is used in a class. -/
def hookIn? (classBody : List Char) : Option String :=
  (anyHook.find? classBody).map fun m => String.ofList (m.groupText classBody 1)

namespace Reading

/-- A function whose parameters give the object `object?` and the props `taken`. -/
def ofFunction (scope : Scope) (object? : Option (List Char)) (taken : List FoundProp) :
    Except Fault Reading := do
  let through ← FoundProp.throughAlias scope.bodyText (object?.getD "props".toList)
  return { kind := .functional
           propsAlias? := object?.map String.ofList
           effects := Effect.ofHooks scope.bodyText
           state := StateBinding.ofHooks scope.bodyText
           rendering := scope.rendering
           span := scope.span
           found? := some (FoundProp.addAll (FoundProp.addAll [] taken) through) }

def ofScope (scope : Scope) : Except Fault Reading :=
  match scope.params? with
  | none => ofFunction scope none []
  | some params => do
    let (object?, taken) ← FoundProp.ofParams params
    ofFunction scope object? taken

def ofClass (text : List Char) (d : Declaration) : Except Fault Reading := do
  match indexOf? (text.drop d.resume) ['{'] with
  | none => return { kind := .statefulClass }
  | some i =>
    let (classBody, rest) := Callable.enclosedOrRest (text.drop (d.resume + i))
    let found ← FoundProp.throughAlias classBody "props".toList
    let state ← StateBinding.ofClass classBody
    return { kind := .statefulClass
             effects := Effect.ofClass classBody
             state := state
             handlers := Handler.all classBody
             rendering := renderOf classBody
             span := (⟨d.start, text.length - rest.length⟩ : Span).text text
             hook? := hookIn? classBody
             found? := some (FoundProp.addAll [] found) }

def ofDeclaration (text : List Char) (d : Declaration) : Except Fault Reading :=
  if d.kind == .classBody then ofClass text d
  else ofScope ((Scope.of? text d).getD (Scope.ofText text))

/-- The props of the reading, completed for a name. -/
def table (r : Reading) (text component : List Char) (navigation : Bool) : Except Fault PropTable :=
  match r.found? with
  | none => .ok ⟨[], []⟩
  | some found => PropTable.complete text component navigation found

def hookMessage (hook name : String) : Diagnostic :=
  ⟨.analysisError, s!"hook '{hook}' used inside class component {name}"⟩

def usageWarnings (r : Reading) (t : PropTable) : List Diagnostic :=
  let usage := Usage.withoutStaticBlocks r.span
  ((Usage.unusedProps usage t.props t.hits).map fun n =>
      ⟨.analysisWarning, s!"prop '{n}' is declared but never used"⟩) ++
    (Usage.unusedState usage r.state).map fun n =>
      ⟨.analysisWarning, s!"state '{n}' is declared but never used"⟩

/-- The facts with what is read. -/
def apply (r : Reading) (t : PropTable) (f : Facts) : Facts :=
  { f with kind := r.kind
           propsAlias? := r.propsAlias?
           effects := r.effects
           state := r.state
           handlers := r.handlers
           markup? := r.rendering.markup?.map String.ofList
           statements? := r.rendering.statements?.map String.ofList
           props := t.props
           diagnostics := ⟨f.diagnostics.errors ++ (r.hook?.map fun hook => hookMessage hook f.name).toList,
             f.diagnostics.warnings ++ r.usageWarnings t⟩ }

end Reading

theorem foldl_withDiagnostic (names : List String) (message : String → String) (f : Facts) :
    names.foldl (fun f n => f.withDiagnostic .analysisWarning (message n)) f =
      { f with diagnostics := ⟨f.diagnostics.errors,
          f.diagnostics.warnings ++ names.map fun n => ⟨.analysisWarning, message n⟩⟩ } := by
  induction names generalizing f with
  | nil => simp
  | cons n ns ih =>
    rw [List.foldl_cons, ih]
    simp [withDiagnostic, Diagnostics.record, Diagnostics.push, DiagnosticKind.isError]

/-- Of what is read nothing is in the facts. -/
structure Unread (f : Facts) : Prop where
  propsAlias : f.propsAlias? = none
  effects : f.effects = []
  state : f.state = []
  handlers : f.handlers = []
  markup : f.markup? = none
  statements : f.statements? = none
  props : f.props = []

theorem report_eq (r : Reading) (t : PropTable) {f : Facts} (hprops : f.props = t.props)
    (hstate : f.state = r.state) : Usage.report r.span t.hits f =
      { f with diagnostics := ⟨f.diagnostics.errors, f.diagnostics.warnings ++ r.usageWarnings t⟩ } := by
  simp only [Usage.report]
  rw [foldl_withDiagnostic, foldl_withDiagnostic, Reading.usageWarnings, ← hprops, ← hstate]
  simp only [List.append_assoc]

/-- What follows the parameters of a function. -/
theorem ofFunction_tail {text : List Char} {scope : Scope} {f : Facts} (hf : f.Unread)
    (object? : Option (List Char)) (taken : List FoundProp) :
    (do
      let through ← FoundProp.throughAlias scope.bodyText (object?.getD "props".toList)
      let f := { f with kind := .functional, propsAlias? := object?.map String.ofList,
                        effects := Effect.ofHooks scope.bodyText }
      let (f, hits) ← (f.withRendering scope.rendering).withProps text
        (FoundProp.addAll (FoundProp.addAll [] taken) through)
      return Usage.report scope.span hits { f with state := StateBinding.ofHooks scope.bodyText } :
        Except Fault Facts) =
      (do
        let r ← Reading.ofFunction scope object? taken
        return r.apply (← r.table text f.name.toList f.features.navigation) f) := by
  cases hthrough : FoundProp.throughAlias scope.bodyText (object?.getD "props".toList) with
  | error e => simp only [Reading.ofFunction, hthrough, bind, Except.bind]
  | ok through =>
    simp only [Reading.ofFunction, hthrough, bind, Except.bind, pure, Except.pure, Reading.table, withProps,
      withRendering]
    cases hcomplete : PropTable.complete text f.name.toList f.features.navigation
      (FoundProp.addAll (FoundProp.addAll [] taken) through) with
    | error e => rfl
    | ok t =>
      let r : Reading :=
        { kind := .functional
          propsAlias? := object?.map String.ofList
          effects := Effect.ofHooks scope.bodyText
          state := StateBinding.ofHooks scope.bodyText
          rendering := scope.rendering
          span := scope.span
          found? := some (FoundProp.addAll (FoundProp.addAll [] taken) through) }
      refine congrArg Except.ok ((report_eq r t rfl rfl).trans ?_)
      simp only [Reading.apply, hf.handlers, r, Option.map_none, Option.toList_none, List.append_nil]

theorem ofFunction_eq {text : List Char} {scope : Scope} {f : Facts} (hf : f.Unread) :
    ofFunction text scope f = do
      let r ← Reading.ofScope scope
      return r.apply (← r.table text f.name.toList f.features.navigation) f := by
  unfold ofFunction Reading.ofScope
  cases hs : scope.params? with
  | none => exact ofFunction_tail hf none []
  | some params =>
    dsimp only
    cases FoundProp.ofParams params with
    | error e => rfl
    | ok found => exact ofFunction_tail hf found.1 found.2

theorem hookInClass_eq (classBody : List Char) (f : Facts) : hookInClass classBody f =
    { f with diagnostics :=
        ⟨f.diagnostics.errors ++ ((hookIn? classBody).map fun hook => Reading.hookMessage hook f.name).toList,
          f.diagnostics.warnings⟩ } := by
  unfold hookInClass hookIn?
  cases anyHook.find? classBody with
  | none => simp
  | some m => rfl

theorem ofClass_eq {text : List Char} {d : Declaration} {f : Facts} (hf : f.Unread) :
    ofClass text d f = do
      let r ← Reading.ofClass text d
      return r.apply (← r.table text f.name.toList f.features.navigation) f := by
  unfold ofClass Reading.ofClass
  cases indexOf? (text.drop d.resume) ['{'] with
  | none =>
    refine congrArg Except.ok ?_
    simp [Reading.apply, hf.propsAlias, hf.effects, hf.state, hf.handlers, hf.markup, hf.statements, hf.props,
      Reading.usageWarnings, Usage.unusedProps, Usage.unusedState]
  | some i =>
    dsimp only
    generalize Callable.enclosedOrRest (text.drop (d.resume + i)) = parts
    obtain ⟨classBody, rest⟩ := parts
    dsimp only
    cases hfound : FoundProp.throughAlias classBody "props".toList with
    | error e => rfl
    | ok found =>
      cases hstate : StateBinding.ofClass classBody with
      | error e => rfl
      | ok state =>
        rw [hookInClass_eq]
        simp only [bind, Except.bind, pure, Except.pure, Reading.table, withProps, withRendering]
        cases hcomplete : PropTable.complete text f.name.toList f.features.navigation
          (FoundProp.addAll [] found) with
        | error e => rfl
        | ok t =>
          let r : Reading :=
            { kind := .statefulClass
              effects := Effect.ofClass classBody
              state := state
              handlers := Handler.all classBody
              rendering := renderOf classBody
              span := (⟨d.start, text.length - rest.length⟩ : Span).text text
              hook? := hookIn? classBody
              found? := some (FoundProp.addAll [] found) }
          refine congrArg Except.ok ((report_eq r t rfl rfl).trans ?_)
          simp only [Reading.apply, hf.propsAlias, r]

theorem ofDeclaration_eq {text : List Char} {d : Declaration} {f : Facts} (hf : f.Unread) :
    ofDeclaration text (some d) f = do
      let r ← Reading.ofDeclaration text d
      return r.apply (← r.table text f.name.toList f.features.navigation) f := by
  unfold ofDeclaration Reading.ofDeclaration
  dsimp only
  split
  · exact ofClass_eq hf
  · exact ofFunction_eq hf

/-! ### Another name -/

/-- What is to be the same in two analyses, apart from the props. -/
structure Alike (f g : Facts) : Prop where
  kind : f.kind = g.kind
  imports : f.imports = g.imports
  propsAlias : f.propsAlias? = g.propsAlias?
  state : f.state = g.state
  effects : f.effects = g.effects
  features : f.features = g.features
  styleTokens : f.styleTokens = g.styleTokens
  endpoints : f.endpoints = g.endpoints
  handlers : f.handlers = g.handlers
  markup : f.markup? = g.markup?
  statements : f.statements? = g.statements?

/-- The facts before the declaration is read. -/
def begun (text : List Char) (name : String) (nameSource : NameSource) : Facts :=
  { warnings text { bare name with nameSource } with
    imports := ImportBinding.all text
    features := featuresOf text
    styleTokens := styleTokensOf text
    endpoints := endpointsOf text }

def ended (f : Facts) : Facts :=
  if f.markup?.isNone then
    f.withDiagnostic .analysisWarning "no render markup found; a placeholder will be generated"
  else f

/-- An analysis of text without a declaration in it. -/
def nothing (name : String) (nameSource : NameSource) : Facts :=
  { bare name with nameSource }.withDiagnostic .analysisError "no component declaration found"

/-- What the analysis warns of before it reads the declaration. -/
def balanceWarnings (text : List Char) : List Diagnostic :=
  if isBalanced text then []
  else [⟨.analysisWarning, "source has unbalanced delimiters; extraction may be incomplete"⟩]

theorem begun_eq {nameSource : NameSource} (h : nameSource ≠ .exported) (text : List Char) (name : String) :
    begun text name nameSource =
      { bare name with
        nameSource := nameSource
        imports := ImportBinding.all text
        features := featuresOf text
        styleTokens := styleTokensOf text
        endpoints := endpointsOf text
        diagnostics := ⟨[], balanceWarnings text⟩ } := by
  have hsource : (nameSource == .exported) = false := by simpa using h
  unfold begun warnings balanceWarnings
  simp only [hsource, Bool.false_eq_true, if_false]
  split <;> rfl

theorem ofDeclaration_begun {nameSource : NameSource} (h : nameSource ≠ .exported) (text : List Char)
    (name : String) (d : Declaration) :
    ofDeclaration text (some d) (begun text name nameSource) = do
      let r ← Reading.ofDeclaration text d
      return r.apply (← r.table text name.toList (featuresOf text).navigation) (begun text name nameSource) := by
  have hunread : (begun text name nameSource).Unread := by
    rw [begun_eq h]
    exact ⟨rfl, rfl, rfl, rfl, rfl, rfl, rfl⟩
  have hname : (begun text name nameSource).name = name := by rw [begun_eq h]; rfl
  rw [ofDeclaration_eq hunread, hname]
  rfl

/-- The analysis of a text with a declaration `d` under a name. -/
def under (text : List Char) (d : Declaration) (name : String) (nameSource : NameSource) : Except Fault Facts :=
  if isBlankText text then .ok (nothing name nameSource)
  else do
    let r ← Reading.ofDeclaration text d
    return (r.apply (← r.table text name.toList (featuresOf text).navigation) (begun text name nameSource)).ended

theorem analyze_eq {source : String} {declared? : Option String} {d : Declaration} {name : String}
    {nameSource : NameSource} (hsource : nameSource ≠ .exported)
    (hfind : Declaration.find? (blankComments source.toList)
      ((declared?.map fun n => trim n.toList).filter (!·.isEmpty)) = some d)
    (hname : nameOf ((declared?.map fun n => trim n.toList).filter (!·.isEmpty)) (some d)
      (Declaration.exported? (blankComments source.toList)) = (name, nameSource)) :
    analyze source declared? = under (blankComments source.toList) d name nameSource := by
  unfold analyze under
  dsimp only
  rw [hfind, hname, Option.isNone_some, Bool.false_and, Bool.or_false]
  split
  · rfl
  · have hbegun := ofDeclaration_begun hsource (blankComments source.toList) name d
    show ofDeclaration _ _ (begun (blankComments source.toList) name nameSource) >>= _ = _
    rw [hbegun]
    cases Reading.ofDeclaration (blankComments source.toList) d with
    | error e => rfl
    | ok r =>
      simp only [bind, Except.bind]
      cases r.table (blankComments source.toList) name.toList (featuresOf (blankComments source.toList)).navigation with
      | error e => rfl
      | ok t =>
        simp only [pure, Except.pure, ended]
        split <;> rfl

open PropTable (Unassigned Assigns)

/-- Two analyses under the names they give differ at most in the props that blocks assigned to one of the
names name, in the requiredness of props, and in messages. -/
structure Renamed (text : List Char) (f g : Facts) : Prop where
  alike : Alike f g
  /-- A prop that no block assigned to either name names. -/
  props : ∀ x : String, ¬ Assigns text f.name.toList x.toList → ¬ Assigns text g.name.toList x.toList →
    (f.props.find? (·.name == x)).map (·.unforced) = (g.props.find? (·.name == x)).map (·.unforced) ∧
      ((DeclaredProp.blockEntries propTypesBlock text f.name.toList).isEmpty =
          (DeclaredProp.blockEntries propTypesBlock text g.name.toList).isEmpty →
        f.props.find? (·.name == x) = g.props.find? (·.name == x))
  errors : f.diagnostics.errors = g.diagnostics.errors ∨
    ∃ hook, f.diagnostics.errors = [Reading.hookMessage hook f.name] ∧
      g.diagnostics.errors = [Reading.hookMessage hook g.name]
  /-- Without blocks assigned to them the names make no difference. -/
  unassigned : (∀ p ∈ [propTypesBlock, defaultPropsBlock],
      Unassigned p text f.name.toList ∧ Unassigned p text g.name.toList) →
    f.props = g.props ∧ f.diagnostics.warnings = g.diagnostics.warnings

variable {text : List Char} {d : Declaration} {f g : Facts} {name name' : String}
  {nameSource nameSource' : NameSource}

theorem under_eq_ok_iff : under text d name nameSource = .ok f ↔
    (isBlankText text = true ∧ f = nothing name nameSource) ∨
      (isBlankText text = false ∧ ∃ r, Reading.ofDeclaration text d = .ok r ∧
        ∃ t, r.table text name.toList (featuresOf text).navigation = .ok t ∧
        f = (r.apply t (begun text name nameSource)).ended) := by
  unfold under
  cases isBlankText text with
  | true => simp [eq_comm]
  | false =>
    simp only [Bool.false_eq_true, if_false, false_and, false_or, true_and, bind_eq_ok]
    refine exists_congr fun r => and_congr_right fun _ => exists_congr fun t => and_congr_right fun _ => ?_
    exact ⟨fun h => (Except.ok.inj h).symm, fun h => congrArg Except.ok h.symm⟩

theorem ended_eq (f : Facts) : f.ended =
    { f with diagnostics := ⟨f.diagnostics.errors, f.diagnostics.warnings ++
        if f.markup?.isNone then
          [⟨.analysisWarning, "no render markup found; a placeholder will be generated"⟩]
        else []⟩ } := by
  unfold ended
  split
  · rfl
  · rw [List.append_nil]

theorem table_of_unassigned (r : Reading) (navigation : Bool) {component component' : List Char}
    (h : ∀ p ∈ [propTypesBlock, defaultPropsBlock], Unassigned p text component ∧ Unassigned p text component') :
    r.table text component navigation = r.table text component' navigation := by
  unfold Reading.table
  split
  · rfl
  · exact PropTable.complete_of_unassigned (fun p hp => (h p hp).1) fun p hp => (h p hp).2

/-- Two analyses of one declaration. -/
theorem renamed_of_under (hs : nameSource ≠ .exported) (hs' : nameSource' ≠ .exported)
    (hf : under text d name nameSource = .ok f) (hg : under text d name' nameSource' = .ok g) :
    Renamed text f g := by
  rcases under_eq_ok_iff.1 hf with ⟨hblank, rfl⟩ | ⟨hblank, r, hr, t, ht, rfl⟩
  · rcases under_eq_ok_iff.1 hg with ⟨-, rfl⟩ | ⟨hblank', -⟩
    · exact ⟨⟨rfl, rfl, rfl, rfl, rfl, rfl, rfl, rfl, rfl, rfl, rfl⟩,
        fun _ _ _ => ⟨rfl, fun _ => rfl⟩, .inl rfl, fun _ => ⟨rfl, rfl⟩⟩
    · rw [hblank] at hblank'
      cases hblank'
  · rcases under_eq_ok_iff.1 hg with ⟨hblank', -⟩ | ⟨-, r', hr', t', ht', rfl⟩
    · rw [hblank] at hblank'
      cases hblank'
    obtain rfl : r = r' := Except.ok.inj (hr.symm.trans hr')
    rw [ended_eq, ended_eq, begun_eq hs, begun_eq hs']
    constructor
    case alike => exact ⟨rfl, rfl, rfl, rfl, rfl, rfl, rfl, rfl, rfl, rfl, rfl⟩
    case props =>
      intro x hx hx'
      have hlook := x.ofList_toList
      unfold Reading.table at ht ht'
      cases hfound : r.found? with
      | none =>
        rw [hfound] at ht ht'
        cases ht
        cases ht'
        exact ⟨rfl, fun _ => rfl⟩
      | some found =>
        rw [hfound] at ht ht'
        have hsame := PropTable.find?_props_of_not_assigns ht ht' hx hx'
        rw [hlook] at hsame
        exact hsame
    case errors =>
      cases hhook : r.hook? with
      | none => exact .inl (by simp only [Reading.apply, hhook, Option.map_none])
      | some hook => exact .inr ⟨hook, by simp [Reading.apply, hhook], by simp [Reading.apply, hhook]⟩
    case unassigned =>
      intro hnone
      have hname : (r.table text name.toList (featuresOf text).navigation) =
          r.table text name'.toList (featuresOf text).navigation := table_of_unassigned r _ hnone
      obtain rfl : t = t' := Except.ok.inj (ht.symm.trans (hname.trans ht'))
      exact ⟨rfl, rfl⟩

theorem exists_under_eq_ok (hf : under text d name nameSource = .ok f)
    (hnone : Unassigned defaultPropsBlock text name'.toList) :
    ∃ g, under text d name' nameSource' = .ok g := by
  rcases under_eq_ok_iff.1 hf with ⟨hblank, -⟩ | ⟨hblank, r, hr, t, ht, -⟩
  · exact ⟨_, under_eq_ok_iff.2 (.inl ⟨hblank, rfl⟩)⟩
  · obtain ⟨t', ht'⟩ : ∃ t', r.table text name'.toList (featuresOf text).navigation = .ok t' := by
      unfold Reading.table at ht ⊢
      cases hfound : r.found? with
      | none => exact ⟨_, rfl⟩
      | some found =>
        rw [hfound] at ht
        exact PropTable.exists_complete_eq_ok ht hnone
    exact ⟨_, under_eq_ok_iff.2 (.inr ⟨hblank, r, hr, t', ht', rfl⟩)⟩

theorem name_of_under (hs : nameSource ≠ .exported) (hf : under text d name nameSource = .ok f) :
    f.name = name := by
  rcases under_eq_ok_iff.1 hf with ⟨-, rfl⟩ | ⟨-, r, -, t, -, rfl⟩
  · rfl
  · rw [ended_eq, begun_eq hs]
    rfl

theorem analyze_none {source : String} (hd : (Declaration.all (blankComments source.toList)).head? = some d) :
    analyze source none = under (blankComments source.toList) d (.ofList d.name) .declaration := by
  exact analyze_eq (by decide) hd rfl

/-- The name is the caller's unless it is blank. -/
theorem analyze_some {source n : String} (hd : (Declaration.all (blankComments source.toList)).head? = some d)
    (hn : ∀ d ∈ Declaration.all (blankComments source.toList), d.name ≠ trim n.toList) :
    analyze source (some n) = if (trim n.toList).isEmpty then analyze source none
      else under (blankComments source.toList) d (.ofList (trim n.toList)) .declared := by
  split
  · rename_i hblank
    have hnone : ((some n).map fun n => trim n.toList).filter (!·.isEmpty) = none := by
      simp [Option.filter, hblank]
    rw [analyze_none hd]
    refine analyze_eq (by decide) ?_ ?_
    · rw [hnone, Declaration.find?, hd]
      rfl
    · rw [hnone]
      rfl
  · rename_i hblank
    have hsome : ((some n).map fun n => trim n.toList).filter (!·.isEmpty) = some (trim n.toList) := by
      simp [Option.filter, hblank]
    refine analyze_eq (by decide) ?_ ?_
    · have hother : (Declaration.all (blankComments source.toList)).find? (·.name == trim n.toList) = none := by
        rw [List.find?_eq_none]
        intro d hmem
        simpa using hn d hmem
      rw [hsome, Declaration.find?, Option.bind_some, hother, Option.none_or, hd]
    · rw [hsome]
      rfl

/-- A name that no declaration of the source has is given to the first declaration. The analysis under it
returns if the analysis without it does and no default props are assigned to the name, and the two differ
at most where blocks of prop types or default props are assigned to one of the two names. -/
theorem analyze_renamed {source n : String} {d : Declaration}
    (hd : (Declaration.all (blankComments source.toList)).head? = some d)
    (hn : ∀ d ∈ Declaration.all (blankComments source.toList), d.name ≠ trim n.toList)
    (hf : analyze source none = .ok f) :
    f.name.toList = d.name ∧
      (Unassigned defaultPropsBlock (blankComments source.toList) (trim n.toList) →
        ∃ g, analyze source (some n) = .ok g) ∧
      ∀ g, analyze source (some n) = .ok g →
        g.name.toList = (if (trim n.toList).isEmpty then d.name else trim n.toList) ∧
        Renamed (blankComments source.toList) f g := by
  have hsome := analyze_some hd hn
  have hunder := hf
  rw [analyze_none hd] at hunder
  have hname : f.name.toList = d.name := by
    rw [name_of_under (by decide) hunder, String.toList_ofList]
  refine ⟨hname, ?_, ?_⟩
  · intro hnone
    rw [hsome]
    split
    · exact ⟨f, hf⟩
    · exact exists_under_eq_ok hunder (by rwa [String.toList_ofList])
  · intro g hg
    rw [hsome] at hg
    split at hg
    · rename_i hblank
      obtain rfl : f = g := Except.ok.inj (hf.symm.trans hg)
      rw [if_pos hblank]
      exact ⟨hname, renamed_of_under (by decide) (by decide) hunder hunder⟩
    · rename_i hblank
      rw [if_neg hblank, name_of_under (by decide) hg, String.toList_ofList]
      exact ⟨rfl, renamed_of_under (by decide) (by decide) hunder hg⟩

/-- A card whose prop types are assigned to its own name. -/
def labelledCard : String :=
  "const Card = (\x7b label \x7d) => <p>\x7blabel\x7d</p>;\nCard.propTypes = \x7b label: PropTypes.number \x7d;\n"

/-- Under another name the card is the same up to the type of its prop. -/
theorem labelledCard_renamed : ∃ f g : Facts,
    analyze labelledCard none = .ok f ∧ analyze labelledCard (some "Other") = .ok g ∧
      Renamed (blankComments labelledCard.toList) f g ∧ g.name.toList = "Other".toList ∧
      f.props = [⟨"label", "number", false, none⟩] ∧ g.props = [⟨"label", "unknown", true, none⟩] := by
  have hnames : (Declaration.all (blankComments labelledCard.toList)).map (·.name) = ["Card".toList] := by
    rw [labelledCard]
    repeat rw [String.toList_ofList]
    decide +kernel
  have hprops : (analyze labelledCard none).toOption.map (·.props) = some [⟨"label", "number", false, none⟩] := by
    decide +kernel
  have hother : (analyze labelledCard (some "Other")).toOption.map (·.props) =
      some [⟨"label", "unknown", true, none⟩] := by
    decide +kernel
  obtain ⟨d, hall, hname⟩ := List.map_eq_singleton_iff.1 hnames
  cases hf : analyze labelledCard none with
  | error e => simp [hf, Except.toOption] at hprops
  | ok f =>
    cases hg : analyze labelledCard (some "Other") with
    | error e => simp [hg, Except.toOption] at hother
    | ok g =>
      have hunnamed : ∀ d ∈ Declaration.all (blankComments labelledCard.toList),
          d.name ≠ trim "Other".toList := by
        rw [hall]
        simp only [List.mem_singleton, forall_eq, hname]
        decide
      obtain ⟨-, -, hrenamed⟩ := analyze_renamed (by rw [hall, List.head?_cons]) hunnamed hf
      obtain ⟨hgname, hsame⟩ := hrenamed g hg
      refine ⟨f, g, rfl, rfl, hsame, ?_, ?_, ?_⟩
      · rw [hgname, if_neg (by decide)]
        decide
      · simpa [hf, Except.toOption] using hprops
      · simpa [hg, Except.toOption] using hother

end Recast.Facts
