import Recast.Proofs.Artifact.Exports

/-!
# Import statements

Every artifact begins with its import statements. What it imports comes from a package, is
carried over from the source, or belongs to another artifact; what it imports of another
artifact follows from the plan alone.
-/

namespace Recast

open Text

/-- An import statement of a module. Braces may stand there without a name in them. -/
structure ImportStatement where
  origin : String
  typeOnly : Bool := false
  default? : Option String := none
  module? : Option String := none
  named? : Option (List String) := none

namespace ImportStatement

def clause (i : ImportStatement) : List String :=
  i.default?.toList ++ (i.module?.map ("* as " ++ ·)).toList ++
    (i.named?.map fun names => Str.braced (" " ++ String.intercalate ", " names ++ " ")).toList

def text (i : ImportStatement) : String :=
  let keyword := if i.typeOnly then "import type " else "import "
  if i.clause.isEmpty then "import '" ++ i.origin ++ "';"
  else keyword ++ String.intercalate ", " i.clause ++ " from '" ++ i.origin ++ "';"

/-- What is imported, each with the name that it is bound to. -/
def bound (i : ImportStatement) : List (String × String) :=
  i.default?.toList.map ("default", ·) ++ i.module?.toList.map ("*", ·) ++
    (i.named?.getD []).map fun name => (name, name)

def names (ns : List String) (origin : String) : ImportStatement := { origin, named? := some ns }

def types (ns : List String) (origin : String) : ImportStatement :=
  { origin, typeOnly := true, named? := some ns }

def effect (origin : String) : ImportStatement := { origin }

def ofEntry (e : ImportEntry) : ImportStatement :=
  { origin := e.origin, typeOnly := e.typeOnly, default? := e.default?, module? := e.module?
    named? := if e.named.isEmpty then none else some e.named }

theorem text_names (ns : List String) (origin : String) :
    (names ns origin).text = Template.importNames ns origin := by
  unfold Template.importNames
  simp [text, names, clause]

theorem text_types (ns : List String) (origin : String) :
    (types ns origin).text = Template.importTypes ns origin := by
  unfold Template.importTypes
  simp [text, types, clause]

theorem fst_mem_of_mem_bound_names {ns : List String} {origin : String} {x : String × String}
    (h : x ∈ (names ns origin).bound) : x.1 ∈ ns := by
  obtain ⟨name, hname, rfl⟩ := List.mem_map.1 (h : x ∈ ns.map fun name => (name, name))
  exact hname

theorem fst_mem_of_mem_bound_types {ns : List String} {origin : String} {x : String × String}
    (h : x ∈ (types ns origin).bound) : x.1 ∈ ns := by
  obtain ⟨name, hname, rfl⟩ := List.mem_map.1 (h : x ∈ ns.map fun name => (name, name))
  exact hname

theorem clause_ofEntry (e : ImportEntry) : (ofEntry e).clause = ImportSet.clause e := by
  unfold clause ofEntry ImportSet.clause
  cases e.named.isEmpty <;> rfl

theorem renderEntry?_eq (e : ImportEntry) :
    ImportSet.renderEntry? e = if (ImportSet.clause e).isEmpty then none else some (ofEntry e).text := by
  unfold ImportSet.renderEntry? text
  rw [clause_ofEntry]
  by_cases hclause : (ImportSet.clause e).isEmpty = true
  · simp only [hclause, if_true]
  · simp only [hclause, Bool.false_eq_true, if_false]
    rfl

theorem mem_bound_ofEntry {e : ImportEntry} {x : String × String} : x ∈ (ofEntry e).bound ↔
    (∃ name, e.default? = some name ∧ x = ("default", name)) ∨
      (∃ name, e.module? = some name ∧ x = ("*", name)) ∨ ∃ name ∈ e.named, x = (name, name) := by
  have hnamed : (ofEntry e).named?.getD [] = e.named := by
    unfold ofEntry
    cases h : e.named <;> simp
  unfold bound
  rw [hnamed]
  simp only [ofEntry, List.mem_append, List.mem_map, Option.mem_toList, or_assoc, eq_comm (a := x)]

theorem isBlank_text (i : ImportStatement) : Str.isBlank i.text = false := by
  have hkeyword : Str.isBlank (if i.typeOnly then "import type " else "import ") = false := by
    split <;> decide
  unfold text
  dsimp only
  split
  · exact Str.isBlank_append_left (Str.isBlank_append_left (by decide) _) _
  · exact Str.isBlank_append_left (Str.isBlank_append_left (Str.isBlank_append_left
      (Str.isBlank_append_left hkeyword _) _) _) _

theorem text_ne (i : ImportStatement) : i.text ≠ "" := by
  intro h
  have hblank := i.isBlank_text
  rw [h] at hblank
  cases hblank

end ImportStatement

/-- The lines of an import set are statements: one for every entry that binds something, then the effects. -/
theorem ImportSet.render_eq (s : ImportSet) : s.render =
    ((s.entries.filter fun e => !(clause e).isEmpty).map ImportStatement.ofEntry ++
      s.sideEffects.map ImportStatement.effect).map (·.text) := by
  have hentries (es : List ImportEntry) : es.filterMap renderEntry? =
      ((es.filter fun e => !(clause e).isEmpty).map ImportStatement.ofEntry).map (·.text) := by
    induction es with
    | nil => rfl
    | cons e es ih =>
      rw [List.filterMap_cons, ImportStatement.renderEntry?_eq, ih]
      by_cases h : (clause e).isEmpty = true
      · simp [h]
      · simp [h]
  have heffects : (s.sideEffects.map ImportStatement.effect).map (·.text) =
      s.sideEffects.map fun o => "import '" ++ o ++ "';" := by
    rw [List.map_map]
    rfl
  rw [render, List.map_append, heffects, hentries]

/-- The module begins with the import statements and goes on with something else. -/
def OpensWith (content : String) (imports : List ImportStatement) : Prop :=
  ∃ rest : List String, content = String.intercalate "\n" (imports.map (·.text) ++ rest) ++ "\n" ∧
    ∀ line ∈ rest.head?, Str.startsWith line "import " = false

namespace CodeBuilder

variable {b b' : CodeBuilder}

theorem written_blank {ls : List String} (hb : b.written = ls) (hne : ls ≠ []) (hls : ∀ s ∈ ls, s ≠ "") :
    b.blank.written = ls ++ [""] := by
  have hlast : b.endsBlank = false := by
    rw [endsBlank, beq_eq_false_iff_ne, hb, ne_eq, List.getLast?_eq_some_iff]
    rintro ⟨before, hbefore⟩
    exact hls "" (by simp [hbefore]) rfl
  simp [blank, hlast, hb, hne]

/-- The import statements, ended by a blank line. -/
def imported (imports : List ImportStatement) : CodeBuilder := (lineEach {} (imports.map (·.text))).blank

theorem opensWith_build {imports : List ImportStatement} (hne : imports ≠ [])
    (h : Extends (imported imports) b) : OpensWith b.build imports := by
  have htexts : ∀ s ∈ imports.map (·.text), s ≠ "" := by
    intro s hs
    obtain ⟨i, -, rfl⟩ := List.mem_map.1 hs
    exact i.text_ne
  have hblank : ∀ s ∈ imports.map (·.text), Str.isBlank s = false := by
    intro s hs
    obtain ⟨i, -, rfl⟩ := List.mem_map.1 hs
    exact i.isBlank_text
  have hstart : (imported imports).written = imports.map (·.text) ++ [""] :=
    written_blank (written_lineEach rfl hblank) (by simpa using hne) htexts
  obtain ⟨more, hmore⟩ := h
  have hwritten : b.written = imports.map (·.text) ++ ("" :: more) := by
    rw [← hmore, hstart, List.append_assoc, List.singleton_append]
  refine ⟨trimmed (collapse false ("" :: more)), ?_, ?_⟩
  · rw [build, finished_append htexts (by simpa using hne) hwritten]
  · intro line hline
    obtain ⟨tail, htail⟩ := prefix_of_trim (collapse false ("" :: more))
    cases htrim : trimmed (collapse false ("" :: more)) with
    | nil => simp [htrim] at hline
    | cons l ls =>
      have hcollapse : collapse false ("" :: more) = "" :: collapse true more := rfl
      rw [htrim, hcollapse, List.cons_append, List.cons.injEq] at htail
      rw [htrim, List.head?_cons, Option.mem_some_iff, htail.1] at hline
      rw [← hline]
      decide

/-- What is written does not begin with an import or a blank line. -/
def StartsBare (b : CodeBuilder) : Prop :=
  ∀ line ∈ b.written.head?, line ≠ "" ∧ Str.startsWith line "import " = false

theorem StartsBare.of_written {ls : List String} (hne : ls ≠ []) (h : ls <+: b.written)
    (hls : ∀ line ∈ ls.head?, line ≠ "" ∧ Str.startsWith line "import " = false) : StartsBare b := by
  obtain ⟨line, more, rfl⟩ := List.exists_cons_of_ne_nil hne
  obtain ⟨rest, hrest⟩ := h
  intro first hfirst
  rw [← hrest] at hfirst
  exact hls first hfirst

theorem StartsBare.extend (h : StartsBare b) (hne : b.written ≠ []) (he : Extends b b') : StartsBare b' :=
  .of_written hne he h

/-- Writing a line to an empty builder begins with it, and to any other changes no beginning. -/
theorem StartsBare.append (h : StartsBare b) {s : String} (hs : s ≠ "")
    (himport : Str.startsWith s "import " = false) (hp : b.written ++ [s] <+: b'.written) : StartsBare b' := by
  refine .of_written (by simp) hp ?_
  cases hb : b.written with
  | nil =>
    intro line hline
    cases hline
    exact ⟨hs, himport⟩
  | cons l ls =>
    intro line hline
    exact h line (by rw [hb]; exact hline)

theorem startsBare_empty : StartsBare {} := fun _ h => by cases h

theorem StartsBare.line (h : StartsBare b) (hdepth : b.depth = 0) {s : String} (hs : Str.isBlank s = false)
    (himport : Str.startsWith s "import " = false) : StartsBare (b.line s) :=
  h.append (Str.ne_empty_of_isBlank hs) himport (by rw [written_line hdepth hs])

theorem StartsBare.block (h : StartsBare b) (hdepth : b.depth = 0) {header footer : String}
    {body : CodeBuilder → CodeBuilder} (hs : Str.isBlank header = false)
    (himport : Str.startsWith header "import " = false) (hbody : ∀ b, Extends b (body b)) :
    StartsBare (b.block header footer body) :=
  h.append (Str.ne_empty_of_isBlank hs) himport (prefix_block hdepth hs hbody)

theorem StartsBare.blank (h : StartsBare b) : StartsBare b.blank := by
  unfold CodeBuilder.blank
  split
  · exact h
  · rename_i hne
    simp only [Bool.or_eq_true, not_or, List.isEmpty_iff] at hne
    exact h.extend hne.1 (List.prefix_append _ _)

theorem StartsBare.when (h : StartsBare b) (condition : Bool) {f : CodeBuilder → CodeBuilder}
    (hf : StartsBare (f b)) : StartsBare (b.when condition f) := by
  unfold CodeBuilder.when
  split
  · exact hf
  · exact h

/-- A module without imports. -/
theorem opensWith_nil (h : StartsBare b) : OpensWith b.build [] := by
  refine ⟨b.finished, rfl, ?_⟩
  cases hb : b.written with
  | nil => simp [finished_eq, hb, collapse, trimmed]
  | cons line more =>
    obtain ⟨hne, himport⟩ := h line (by rw [hb]; rfl)
    have hlines : ∀ s ∈ [line], s ≠ "" := by simpa using hne
    have hwritten : b.written = [line] ++ more := hb
    rw [finished_append hlines (by simp) hwritten]
    intro first hfirst
    cases hfirst
    exact himport

end CodeBuilder

/-- The packages that generated modules import. -/
def packages : List String :=
  ["react", "react-router-dom", "zustand", "@tanstack/react-query", "vitest", "@testing-library/react",
    "@testing-library/jest-dom/vitest"]

namespace Template

open CodeBuilder

variable (c : RenderContext)

/-- The import of the framework that the code needs. -/
def reactStatement? (code : String) : Option ImportStatement :=
  let names := reactNames.filter (usesReactName code)
  match Str.contains code "React.", names.isEmpty with
  | false, true => none
  | true, true => some { origin := "react", default? := some "React" }
  | false, false => some (.names names "react")
  | true, false => some { origin := "react", default? := some "React", named? := some names }

theorem reactImport?_eq (code : String) : reactImport? code = (reactStatement? code).map (·.text) := by
  unfold reactImport? reactStatement?
  generalize reactNames.filter (usesReactName code) = names
  dsimp only
  generalize names.isEmpty = none
  cases Str.contains code "React." <;> cases none
  · simp [ImportStatement.text_names]
  · rfl
  · refine congrArg some (String.toList_inj.1 ?_)
    simp [ImportStatement.text, ImportStatement.clause]
  · rfl

def componentStatements : List ImportStatement :=
  (reactStatement? (functionCodeOf c)).toList ++
    ((importsOf c).entries.filter fun e => !(ImportSet.clause e).isEmpty).map .ofEntry ++
    (importsOf c).sideEffects.map .effect

theorem map_text_componentStatements : (componentStatements c).map (·.text) =
    (reactImport? (functionCodeOf c)).toList ++ (importsOf c).render := by
  rw [ImportSet.render_eq, componentStatements, reactImport?_eq, List.map_append, List.map_append, List.map_append,
    List.append_assoc]
  cases reactStatement? (functionCodeOf c) <;> rfl

end Template

namespace RenderContext

variable (c : RenderContext)

/-- The names that an artifact imports of another because of the plan. -/
def uses : ArtifactKind → ArtifactKind → List String
  | .component, .hook =>
    if c.plan.hook && c.facts.features.remoteData then [c.layout.hookName] else []
  | .component, .store => if c.plan.store then [c.layout.storeHook] else []
  | .component, .types => if !c.facts.props.isEmpty && c.plan.types then [c.layout.propsType] else []
  | .hook, .service => if c.plan.service then [c.layout.serviceInstance] else []
  | .hook, .types => if c.plan.types && c.declaresData then [c.layout.dataType] else []
  | .service, .types => if c.plan.types && c.declaresData then [c.layout.dataType] else []
  | _, _ => []

/-- The import statements of an artifact. -/
def imports : ArtifactKind → List ImportStatement
  | .component => Template.componentStatements c
  | .types =>
    if (Template.reactTypesOf c.facts).isEmpty then [] else [.types (Template.reactTypesOf c.facts) "react"]
  | .hook =>
    [.names ["useQuery"] "@tanstack/react-query"] ++
      (if c.plan.service then [.names [c.layout.serviceInstance] (c.importPath .hook .service)] else []) ++
      if c.plan.types && c.declaresData then [.types [c.layout.dataType] (c.importPath .hook .types)] else []
  | .service =>
    if c.plan.types && c.declaresData then [.types [c.layout.dataType] (c.importPath .service .types)] else []
  | .store => [.names ["create"] "zustand"]
  | .test => []

variable {c}

theorem exports_of_uses {kind target : ArtifactKind} {name : String} (h : name ∈ c.uses kind target) :
    c.plan.includes target = true ∧ name ∈ c.exportNames target := by
  have hdeclares (hdata : (c.plan.types && c.declaresData) = true) (hname : name = c.layout.dataType) :
      c.plan.includes .types = true ∧ name ∈ c.exportNames .types := by
    obtain ⟨htypes, hdata⟩ := Bool.and_eq_true_iff.1 hdata
    refine ⟨htypes, List.mem_append_right _ ?_⟩
    simp [hdata, hname]
  unfold uses at h
  split at h
  case h_7 => cases h
  all_goals
    split at h
    case isFalse => cases h
    rename_i hplan
    have hname := List.mem_singleton.1 h
  · exact ⟨(Bool.and_eq_true_iff.1 hplan).1, by simp [exportNames, hname]⟩
  · exact ⟨hplan, by simp [exportNames, hname]⟩
  · obtain ⟨hprops, htypes⟩ := Bool.and_eq_true_iff.1 hplan
    refine ⟨htypes, List.mem_append_left _ (List.mem_append_left _ ?_)⟩
    simp only [Bool.not_eq_true'] at hprops
    simp [hprops, hname]
  · exact ⟨hplan, by simp [exportNames, hname]⟩
  · exact hdeclares hplan hname
  · exact hdeclares hplan hname

end RenderContext

namespace Template

open CodeBuilder

variable {c : RenderContext}

theorem opensWith_store : OpensWith (renderStore c) (c.imports .store) := by
  rw [renderStore_eq]
  refine opensWith_build (by simp [RenderContext.imports]) ?_
  have himported : imported (c.imports .store) =
      (CodeBuilder.line {} "import \x7b create \x7d from 'zustand';").blank := rfl
  rw [himported]
  exact (extends_storeInitial c _).block _ _ fun b => ((extends_line b _).lineEach _).line _

theorem opensWith_service : OpensWith (renderService c) (c.imports .service) := by
  rw [renderService_eq, serviceClass_eq]
  have hrest (b : CodeBuilder) : Extends b ((b.block ("export class " ++ c.layout.serviceClass ++ " \x7b") "\x7d"
      (serviceBody c)).blank.line
        ("export const " ++ c.layout.serviceInstance ++ " = new " ++ c.layout.serviceClass ++ "();")) :=
    (((Extends.refl b).block _ _ (extends_serviceBody c)).blank).line _
  have hconstants (b : CodeBuilder) : Extends b.blank (serviceConstants b) := ((Extends.refl b.blank).lineEach _).blank
  unfold RenderContext.imports serviceHead
  dsimp only
  split
  · refine opensWith_build (by simp) ?_
    rw [← ImportStatement.text_types]
    exact (hconstants _).trans (hrest _)
  · refine opensWith_nil ?_
    have hstart : StartsBare (CodeBuilder.line {} ("export type " ++ c.layout.dataType ++ " = unknown;")) :=
      startsBare_empty.line rfl (Str.isBlank_append_left (Str.isBlank_append_left (by decide) _) _)
        (Str.startsWith_append_left (fun _ => by rw [String.toList_append, List.append_assoc]; rfl) _)
    exact hstart.extend (by simp [CodeBuilder.line]) (((extends_blank _).trans (hconstants _)).trans (hrest _))

theorem hookImports_eq (c : RenderContext) : hookImports c {} =
    if c.plan.types && c.declaresData then imported (c.imports .hook)
    else ((imported (c.imports .hook)).line ("export type " ++ c.layout.dataType ++ " = unknown;")).blank := by
  have hquery : "import \x7b useQuery \x7d from '@tanstack/react-query';" =
      (ImportStatement.names ["useQuery"] "@tanstack/react-query").text := rfl
  unfold hookImports RenderContext.imports imported CodeBuilder.lineEach
  rw [hquery]
  cases c.plan.service <;> cases c.plan.types && c.declaresData <;>
    simp only [CodeBuilder.when, ImportStatement.text_names, ImportStatement.text_types, List.map_append,
      List.map_cons, List.map_nil, List.foldl_append, List.foldl_cons, List.foldl_nil, List.append_nil, if_true,
      Bool.false_eq_true, if_false]

theorem opensWith_hook : OpensWith (renderHook c) (c.imports .hook) := by
  rw [renderHook_eq, hookImports_eq]
  have hrest (b : CodeBuilder) : Extends b (hookFunction c (queryKeyPart c b)) :=
    ((extends_line b _).blank).trans (extends_hookFunction c _)
  refine opensWith_build (by simp [RenderContext.imports]) (Extends.trans ?_ (hrest _))
  split
  · exact .refl _
  · exact ((Extends.refl _).line _).blank

theorem startsBare_interfacePart {b : CodeBuilder} (h : StartsBare b) (hdepth : b.depth = 0) (present : Bool)
    (name : String) (entries : List String) : StartsBare (interfacePart b present name entries) :=
  h.when present (StartsBare.blank (h.block hdepth
    (Str.isBlank_append_left (Str.isBlank_append_left (by decide) _) _)
    (Str.startsWith_append_left (fun _ => by rw [String.toList_append, List.append_assoc]; rfl) _)
    fun b => (Extends.refl b).lineEach _))

theorem opensWith_types : OpensWith (renderTypes c) (c.imports .types) := by
  rw [renderTypes_eq]
  unfold RenderContext.imports
  dsimp only
  have hrest (b : CodeBuilder) : Extends b ((interfacePart (interfacePart b (!c.facts.props.isEmpty)
      c.layout.propsType (c.facts.props.map propLine)) (!c.facts.state.isEmpty) c.layout.stateType
        (c.facts.state.map stateLine)).when c.declaresData
      (·.line ("export type " ++ c.layout.dataType ++ " = unknown;"))) :=
    ((extends_interfacePart _ _ _ _).trans (extends_interfacePart _ _ _ _)).when _ fun b => extends_line b _
  split
  · rename_i hnone
    have hhead : typesHead c {} = {} := by simp [typesHead, CodeBuilder.when, hnone]
    rw [hhead]
    have hprops := startsBare_interfacePart startsBare_empty rfl (!c.facts.props.isEmpty)
      c.layout.propsType (c.facts.props.map propLine)
    have hdepth : (interfacePart {} (!c.facts.props.isEmpty) c.layout.propsType
        (c.facts.props.map propLine)).depth = 0 := depth_interfacePart _ _ _ _
    have hstate := startsBare_interfacePart hprops hdepth (!c.facts.state.isEmpty) c.layout.stateType
      (c.facts.state.map stateLine)
    refine opensWith_nil (hstate.when _ (hstate.line ((depth_interfacePart _ _ _ _).trans hdepth) ?_ ?_))
    · exact Str.isBlank_append_left (Str.isBlank_append_left (by decide) _) _
    · exact Str.startsWith_append_left (fun _ => by rw [String.toList_append, List.append_assoc]; rfl) _
  · rename_i hsome
    refine opensWith_build (by simp) ?_
    have hhead : typesHead c {} = imported [.types (reactTypesOf c.facts) "react"] := by
      simp [typesHead, CodeBuilder.when, hsome, imported, ImportStatement.text_types, CodeBuilder.lineEach]
    rw [hhead]
    exact hrest _

/-- What follows the imports of a component, up to its last line. -/
def afterImports (c : RenderContext) (b : CodeBuilder) : CodeBuilder :=
  let b := (b.lineEach (importsOf c).assetConstants).blank
  let b := b.when (!c.facts.props.isEmpty && !c.plan.types) fun b =>
    (b.block ("interface " ++ c.layout.propsType ++ " \x7b") "\x7d"
      (·.lineEach (c.facts.props.map propLine))).blank
  (b.lines (functionCodeOf c)).blank

theorem componentCode_eq (c : RenderContext) : componentCode c (importsOf c) (functionCodeOf c) =
    afterImports c (imported (componentStatements c)) := by
  unfold componentCode afterImports imported
  rw [map_text_componentStatements]

theorem extends_afterImports (c : RenderContext) (b : CodeBuilder) : Extends b (afterImports c b) :=
  (((((Extends.refl b).lineEach _).blank).when _ fun b =>
    ((Extends.refl b).block _ _ fun b => (Extends.refl b).lineEach _).blank).lines _).blank

/-- The function begins with its `const`. -/
theorem signature_head (c : RenderContext) (body : String) :
    ∃ first more r, (signature c body).1 ++ [(signature c body).2] = first :: more ∧
      first.toList = 'c' :: r := by
  have hconst (name rest : String) : ("const " ++ name ++ rest).toList =
      'c' :: ("onst ".toList ++ name.toList ++ rest.toList) := by simp
  unfold signature
  dsimp only
  split
  · exact ⟨_, [], _, rfl, hconst _ _⟩
  · split
    · exact ⟨_, [], _, rfl, by simp; rfl⟩
    · exact ⟨_, _, _, rfl, hconst _ _⟩

theorem functionCodeOf_head (c : RenderContext) : ∃ r, (functionCodeOf c).toList = 'c' :: r := by
  generalize hbody : (ComponentBody.ofContext c).build c = body
  obtain ⟨first, more, r, hsignature, hfirst⟩ := signature_head c body
  have hblank : Str.isBlank first = false := by
    unfold Str.isBlank
    rw [hfirst]
    rfl
  have hcode : functionCodeOf c = ((((CodeBuilder.lineEach {} (signature c body).1).opening
      (signature c body).2).lines body).closing "\x7d;").build := by
    rw [← hbody]
    rfl
  have hstart : [first] <+: ((((CodeBuilder.lineEach {} (signature c body).1).opening
      (signature c body).2).lines body).closing "\x7d;").written := by
    -- A signature of several lines begins before the one that opens the function.
    cases hbefore : (signature c body).1 with
    | nil =>
      rw [hbefore, List.nil_append, List.cons.injEq] at hsignature
      rw [hsignature.1]
      have hopened : [] ++ [first] <+: ((CodeBuilder.opening {} first).lines body).written := by
        have hwritten : (CodeBuilder.opening {} first).written = [first] := written_line rfl hblank
        exact hwritten ▸ (Extends.refl _).lines body
      exact prefix_closing (Str.ne_empty_of_isBlank hblank) hopened _
    | cons l ls =>
      rw [hbefore, List.cons_append, List.cons.injEq] at hsignature
      rw [hsignature.1]
      have hwritten : (CodeBuilder.line {} first).written = [first] := written_line rfl hblank
      have hlines : Extends (CodeBuilder.line {} first) (CodeBuilder.lineEach {} (first :: ls)) :=
        (Extends.refl (CodeBuilder.line {} first)).lineEach ls
      exact hwritten ▸ hlines.trans (((Extends.refl _).lines body).closing _)
  obtain ⟨rest, hrest⟩ := hstart
  have hone : ∀ s ∈ [first], s ≠ "" := by simpa using Str.ne_empty_of_isBlank hblank
  rw [hcode, build, finished_append hone (by simp) hrest.symm]
  cases trimmed (collapse false rest) <;> simp [hfirst]

/-- The first line of a text starts as the text does. -/
theorem lines_cons {x : Char} (hfeed : x ≠ '\n') (hreturn : x ≠ '\r') (r : List Char) :
    ∃ ls, Text.lines (x :: r) = (x :: (Text.lines r).headD []) :: ls := by
  rw [Text.lines]
  · cases Text.lines r with
    | nil => exact ⟨_, rfl⟩
    | cons l ls => exact ⟨_, rfl⟩
  · exact hfeed
  · intro r' heq
    exact absurd heq hreturn

theorem startsBare_lines {b : CodeBuilder} (h : StartsBare b) (hdepth : b.depth = 0) {s : String} {r : List Char}
    (hs : s.toList = 'c' :: r) : StartsBare (b.lines s) := by
  obtain ⟨ls, hls⟩ := lines_cons (x := 'c') (by decide) (by decide) r
  have hlines : Str.lines s = .ofList ('c' :: (Text.lines r).headD []) :: ls.map .ofList := by
    unfold Str.lines
    rw [hs, hls, List.map_cons]
  have hfirst : StartsBare (b.line (.ofList ('c' :: (Text.lines r).headD []))) := by
    refine h.line hdepth ?_ ?_
    · simp [Str.isBlank, Text.isBlankText, Text.isBlank]
    · simp [Str.startsWith, Text.startsWith, Text.dropPrefix?]
  have hextends : Extends (b.line (.ofList ('c' :: (Text.lines r).headD []))) (b.lines s) := by
    unfold CodeBuilder.lines
    rw [hlines]
    exact (Extends.refl _).lineEach _
  exact hfirst.extend (by simp [CodeBuilder.line]) hextends

theorem startsBare_assets (c : RenderContext) : StartsBare (CodeBuilder.lineEach {} (importsOf c).assetConstants) := by
  unfold ImportSet.assetConstants
  cases (importsOf c).assets with
  | nil => exact startsBare_empty
  | cons a as =>
    have hfirst : StartsBare (CodeBuilder.line {} ("const " ++ a.name ++ " = '" ++ a.path ++ "';")) := by
      refine startsBare_empty.line rfl ?_ ?_
      · exact Str.isBlank_append_left (Str.isBlank_append_left (Str.isBlank_append_left
          (Str.isBlank_append_left (by decide) _) _) _) _
      · refine Str.startsWith_append_left (fun _ => ?_) _
        simp [Text.startsWith, Text.dropPrefix?]
    exact hfirst.extend (by simp [CodeBuilder.line]) ((Extends.refl _).lineEach _)

theorem opensWith_component : OpensWith (renderComponent c) (c.imports .component) := by
  rw [renderComponent_eq, componentCode_eq]
  have himports : c.imports .component = componentStatements c := rfl
  rw [himports]
  by_cases hempty : componentStatements c = []
  -- Without imports the first line is that of an asset, of the interface or of the function.
  · rw [hempty]
    obtain ⟨r, hcode⟩ := functionCodeOf_head c
    have hassets := startsBare_assets c
    have hdepth : (CodeBuilder.lineEach {} (importsOf c).assetConstants).blank.depth = 0 := by simp
    have hinterface := hassets.blank.when (!c.facts.props.isEmpty && !c.plan.types)
      (f := fun b => (b.block ("interface " ++ c.layout.propsType ++ " \x7b") "\x7d"
        (·.lineEach (c.facts.props.map propLine))).blank)
      (StartsBare.blank (hassets.blank.block hdepth
        (Str.isBlank_append_left (Str.isBlank_append_left (by decide) _) _)
        (Str.startsWith_append_left (fun _ => by simp [Text.startsWith, Text.dropPrefix?]) _)
        fun b => (Extends.refl b).lineEach _))
    have hfunction := startsBare_lines hinterface ((depth_when (by simp) _).trans hdepth) hcode
    refine opensWith_nil (hfunction.blank.line ?_ ?_ ?_)
    · exact (depth_blank _).trans ((depth_lines _ _).trans ((depth_when (by simp) _).trans hdepth))
    · exact Str.isBlank_append_left (Str.isBlank_append_left (by decide) _) _
    · exact Str.startsWith_append_left (fun _ => by simp [Text.startsWith, Text.dropPrefix?]) _
  · exact opensWith_build hempty ((extends_afterImports c _).line _)

end Template

namespace ImportSet

open ImportStatement (ofEntry mem_bound_ofEntry)

/-- What the entries bind has the property, for the origin that it is imported from. -/
def Binds (P : String → String × String → Prop) (s : ImportSet) : Prop :=
  ∀ e ∈ s.entries, ∀ x ∈ (ofEntry e).bound, P e.origin x

variable {P : String → String × String → Prop} {s : ImportSet}

theorem Binds.update (h : Binds P s) {origin : String} {typeOnly : Bool} {f : ImportEntry → ImportEntry}
    (horigin : ∀ e, (f e).origin = e.origin)
    (hf : ∀ e : ImportEntry, ∀ x ∈ (ofEntry (f e)).bound, x ∈ (ofEntry e).bound ∨ P origin x) :
    Binds P (s.update origin typeOnly f) := by
  have hentry {e : ImportEntry} (he : e.origin = origin) (hbound : ∀ x ∈ (ofEntry e).bound, P origin x) :
      ∀ x ∈ (ofEntry (f e)).bound, P (f e).origin x := by
    intro x hx
    rw [horigin, he]
    exact (hf e x hx).elim (hbound x) id
  unfold Binds ImportSet.update at *
  dsimp only at *
  generalize s.entries = es at h
  -- An entry is changed where it stands. Where none matches, a new one is put at the end.
  induction es with
  | nil =>
    intro e he
    rw [updateEntry, List.mem_singleton] at he
    subst he
    exact hentry rfl (by simp [mem_bound_ofEntry])
  | cons e es ih =>
    obtain ⟨hfirst, hrest⟩ := List.forall_mem_cons.1 h
    rw [updateEntry]
    split
    · rename_i hmatch
      have heq : e.origin = origin := beq_iff_eq.1 (Bool.and_eq_true_iff.1 hmatch).1
      exact List.forall_mem_cons.2 ⟨hentry heq (heq ▸ hfirst), hrest⟩
    · exact List.forall_mem_cons.2 ⟨hfirst, ih hrest⟩

theorem mem_addOnce {xs : List String} {x y : String} : y ∈ addOnce xs x ↔ y ∈ xs ∨ y = x := by
  unfold addOnce
  split
  · rename_i hx
    refine ⟨.inl, ?_⟩
    rintro (hy | rfl)
    · exact hy
    · exact List.contains_iff_mem.1 hx
  · simp

theorem mem_bound_addOnce {e : ImportEntry} {name : String} {x : String × String}
    (hx : x ∈ (ofEntry { e with named := addOnce e.named name }).bound) :
    x ∈ (ofEntry e).bound ∨ x = (name, name) := by
  rw [mem_bound_ofEntry] at hx ⊢
  rcases hx with hx | hx | ⟨n, hn, rfl⟩
  · exact .inl (.inl hx)
  · exact .inl (.inr (.inl hx))
  · rcases mem_addOnce.1 hn with hn | rfl
    · exact .inl (.inr (.inr ⟨n, hn, rfl⟩))
    · exact .inr rfl

theorem eq_or_of_or_eq_some {o? : Option String} {x y : String} (h : o?.or (some x) = some y) :
    o? = some y ∨ x = y := by
  cases o? with
  | none => exact .inr (Option.some.inj h)
  | some z => exact .inl h

section

variable (h : Binds P s) {origin name : String}

include h

theorem Binds.addNamed (hp : P origin (name, name)) : Binds P (s.addNamed origin name) :=
  h.update (fun _ => rfl) fun _ _ hx => (mem_bound_addOnce hx).elim .inl fun heq => .inr (heq ▸ hp)

theorem Binds.addType (hp : P origin (name, name)) : Binds P (s.addType origin name) :=
  h.update (fun _ => rfl) fun _ _ hx => (mem_bound_addOnce hx).elim .inl fun heq => .inr (heq ▸ hp)

theorem Binds.addNamedIf {condition : Bool} (hp : condition = true → P origin (name, name)) :
    Binds P (if condition then s.addNamed origin name else s) := by
  split
  · exact h.addNamed (hp ‹_›)
  · exact h

theorem Binds.addDefault (hp : P origin ("default", name)) : Binds P (s.addDefault origin name) := by
  refine h.update (fun _ => rfl) fun e x hx => ?_
  rw [mem_bound_ofEntry] at hx ⊢
  rcases hx with ⟨n, hn, rfl⟩ | hx | hx
  · rcases eq_or_of_or_eq_some hn with hn | rfl
    · exact .inl (.inl ⟨n, hn, rfl⟩)
    · exact .inr hp
  · exact .inl (.inr (.inl hx))
  · exact .inl (.inr (.inr hx))

theorem Binds.addModule (hp : P origin ("*", name)) : Binds P (s.addModule origin name) := by
  refine h.update (fun _ => rfl) fun e x hx => ?_
  rw [mem_bound_ofEntry] at hx ⊢
  rcases hx with hx | ⟨n, hn, rfl⟩ | hx
  · exact .inl (.inl hx)
  · rcases eq_or_of_or_eq_some hn with hn | rfl
    · exact .inl (.inr (.inl ⟨n, hn, rfl⟩))
    · exact .inr hp
  · exact .inl (.inr (.inr hx))

end

variable {origin : String}

/-- Of an origin the entry that is not for types only. -/
def entryOf? (s : ImportSet) (origin : String) : Option ImportEntry :=
  s.entries.find? fun e => e.origin == origin && e.typeOnly == false

/-- An entry that is updated stays where it is found, and finds no other in its place. -/
theorem entryOf?_update {origin' : String} {typeOnly : Bool} {f : ImportEntry → ImportEntry}
    (hf : ∀ e, (f e).origin = e.origin ∧ (f e).typeOnly = e.typeOnly) :
    (s.update origin' typeOnly f).entryOf? origin =
      if origin' = origin ∧ typeOnly = false then
        some (f ((s.entryOf? origin).getD { origin := origin', typeOnly }))
      else s.entryOf? origin := by
  have hkey : (origin' == origin && typeOnly == false) = decide (origin' = origin ∧ typeOnly = false) := by
    simp [Bool.beq_eq_decide_eq]
  unfold entryOf? ImportSet.update
  dsimp only
  induction s.entries with
  | nil =>
    rw [updateEntry, List.find?_cons, (hf _).1, (hf _).2, hkey]
    by_cases h : origin' = origin ∧ typeOnly = false
    · rw [decide_eq_true h, if_pos h]
      rfl
    · rw [decide_eq_false h, if_neg h]
  | cons e es ih =>
    rw [updateEntry]
    by_cases hmatch : (e.origin == origin' && e.typeOnly == typeOnly) = true
    · obtain ⟨horigin, htype⟩ := Bool.and_eq_true_iff.1 hmatch
      rw [if_pos hmatch, List.find?_cons, List.find?_cons, (hf e).1, (hf e).2, beq_iff_eq.1 horigin,
        beq_iff_eq.1 htype, hkey]
      by_cases h : origin' = origin ∧ typeOnly = false
      · rw [decide_eq_true h, if_pos h]
        rfl
      · rw [decide_eq_false h, if_neg h]
    · rw [if_neg hmatch, List.find?_cons, List.find?_cons, ih]
      cases hfound : e.origin == origin && e.typeOnly == false with
      | false => rfl
      | true =>
        have h : ¬ (origin' = origin ∧ typeOnly = false) := by
          rintro ⟨rfl, rfl⟩
          exact hmatch hfound
        rw [if_neg h, if_neg h]

/-- The names are imported from there in one statement. -/
def Imports (s : ImportSet) (origin : String) (x : String × String) : Prop :=
  ∃ e, s.entryOf? origin = some e ∧ x ∈ (ofEntry e).bound

theorem Imports.update {origin' : String} {x : String × String} (h : s.Imports origin x) {typeOnly : Bool}
    {f : ImportEntry → ImportEntry} (hf : ∀ e, (f e).origin = e.origin ∧ (f e).typeOnly = e.typeOnly)
    (hbound : ∀ e, (ofEntry e).bound ⊆ (ofEntry (f e)).bound) :
    (s.update origin' typeOnly f).Imports origin x := by
  obtain ⟨e, he, hx⟩ := h
  unfold Imports
  rw [entryOf?_update hf, he]
  split
  · exact ⟨f e, rfl, hbound e hx⟩
  · exact ⟨e, rfl, hx⟩

theorem bound_subset_addOnce (e : ImportEntry) (name : String) :
    (ofEntry e).bound ⊆ (ofEntry { e with named := addOnce e.named name }).bound := by
  intro x hx
  rw [mem_bound_ofEntry] at hx ⊢
  rcases hx with hx | hx | ⟨n, hn, rfl⟩
  · exact .inl hx
  · exact .inr (.inl hx)
  · exact .inr (.inr ⟨n, mem_addOnce.2 (.inl hn), rfl⟩)

theorem imports_addNamed (s : ImportSet) (origin name : String) :
    (s.addNamed origin name).Imports origin (name, name) := by
  unfold Imports ImportSet.addNamed
  rw [entryOf?_update (f := fun e => { e with named := addOnce e.named name }) fun _ => ⟨rfl, rfl⟩,
    if_pos ⟨rfl, rfl⟩]
  refine ⟨_, rfl, mem_bound_ofEntry.2 (.inr (.inr ⟨name, mem_addOnce.2 (.inr rfl), rfl⟩))⟩

section

variable {origin' name' : String} {x : String × String} (h : s.Imports origin x)

include h

theorem Imports.addNamed : (s.addNamed origin' name').Imports origin x :=
  h.update (fun _ => ⟨rfl, rfl⟩) fun e => bound_subset_addOnce e name'

theorem Imports.addType : (s.addType origin' name').Imports origin x :=
  h.update (fun _ => ⟨rfl, rfl⟩) fun e => bound_subset_addOnce e name'

theorem Imports.addDefault : (s.addDefault origin' name').Imports origin x := by
  refine h.update (fun _ => ⟨rfl, rfl⟩) fun e y hy => ?_
  rw [mem_bound_ofEntry] at hy ⊢
  rcases hy with ⟨n, hn, rfl⟩ | hy
  · exact .inl ⟨n, by rw [hn]; rfl, rfl⟩
  · exact .inr hy

theorem Imports.addModule : (s.addModule origin' name').Imports origin x := by
  refine h.update (fun _ => ⟨rfl, rfl⟩) fun e y hy => ?_
  rw [mem_bound_ofEntry] at hy ⊢
  rcases hy with hy | ⟨n, hn, rfl⟩ | hy
  · exact .inl hy
  · exact .inr (.inl ⟨n, by rw [hn]; rfl, rfl⟩)
  · exact .inr (.inr hy)

theorem Imports.addNamedIf (condition : Bool) :
    (if condition then s.addNamed origin' name' else s).Imports origin x := by
  split
  · exact h.addNamed
  · exact h

theorem Imports.carry (hasService : Bool) (b : ImportBinding) : (s.carry hasService b).Imports origin x := by
  unfold ImportSet.carry
  split
  · exact h
  · split
    · unfold carryRouter
      split
      · exact h.addNamed
      · exact h
      · exact h.addNamed
    · split
      · split
        · exact h
        · exact h.addDefault
      · exact h.addNamed
      · exact h.addModule
      · exact h

theorem Imports.foldl_carry (hasService : Bool) (bs : List ImportBinding) :
    (bs.foldl (ImportSet.carry hasService) s).Imports origin x := by
  induction bs generalizing s with
  | nil => exact h
  | cons b bs ih => exact ih (h.carry hasService b)

end

theorem clause_ne_nil_of_mem_bound {e : ImportEntry} {x : String × String} (h : x ∈ (ofEntry e).bound) :
    (clause e).isEmpty = false := by
  rw [mem_bound_ofEntry] at h
  unfold clause
  rcases h with ⟨n, hn, -⟩ | ⟨n, hn, -⟩ | ⟨n, hn, -⟩
  · simp [hn]
  · simp [hn]
  · have hne : e.named ≠ [] := List.ne_nil_of_mem hn
    simp [hne]

end ImportSet

namespace RenderContext

open ImportSet

/-- The source imports the name from there. -/
def Carries (c : RenderContext) (origin : String) (x : String × String) : Prop :=
  ∃ b ∈ c.facts.imports, b.origin = origin ∧ b.name = x.2

/-- Where an import of an artifact comes from. -/
def Known (c : RenderContext) (kind : ArtifactKind) (origin : String) (x : String × String) : Prop :=
  origin ∈ packages ∨ (∃ target, origin = c.importPath kind target ∧ x.1 ∈ c.uses kind target) ∨
    (kind = .component ∧ c.Carries origin x)

variable {c : RenderContext}

theorem forall_mem_onlyIf {P : ImportStatement → Prop} {condition : Bool} {i : ImportStatement}
    (h : condition = true → P i) : ∀ j ∈ if condition then [i] else [], P j := by
  intro j hj
  split at hj
  · rename_i hcondition
    exact List.mem_singleton.1 hj ▸ h hcondition
  · cases hj

theorem Known.package {kind : ArtifactKind} {origin : String} (h : origin ∈ packages) (x : String × String) :
    c.Known kind origin x := .inl h

theorem Known.sibling {kind : ArtifactKind} (target : ArtifactKind) {x : String × String}
    (h : x.1 ∈ c.uses kind target) : c.Known kind (c.importPath kind target) x := .inr (.inl ⟨target, rfl, h⟩)

theorem binds_carry {s : ImportSet} (h : Binds (c.Known .component) s) {b : ImportBinding}
    (hb : b ∈ c.facts.imports) (hasService : Bool) : Binds (c.Known .component) (s.carry hasService b) := by
  have hcarried (x : String × String) (hx : x.2 = b.name) : c.Known .component b.origin x :=
    .inr (.inr ⟨rfl, b, hb, rfl, hx.symm⟩)
  have hrouter (n : String) : c.Known .component "react-router-dom" (n, n) := .package (by decide) _
  unfold carry
  split
  · exact h
  · split
    · unfold carryRouter
      split
      · exact h.addNamed (hrouter _)
      · exact h
      · exact h.addNamed (hrouter _)
    · split
      · split
        · exact h
        · exact h.addDefault (hcarried _ rfl)
      · exact h.addNamed (hcarried _ rfl)
      · exact h.addModule (hcarried _ rfl)
      · exact h

theorem binds_ofFacts (hasService : Bool) : Binds (c.Known .component) (.ofFacts c.facts hasService) := by
  have hfold {s : ImportSet} (h : Binds (c.Known .component) s) {bs : List ImportBinding}
      (hbs : ∀ b ∈ bs, b ∈ c.facts.imports) : Binds (c.Known .component) (bs.foldl (carry hasService) s) := by
    induction bs generalizing s with
    | nil => exact h
    | cons b bs ih =>
      obtain ⟨hb, hrest⟩ := List.forall_mem_cons.1 hbs
      exact ih (binds_carry h hb hasService) hrest
  exact hfold (fun e he => by cases he) fun _ hb => hb

theorem binds_addPropTypes {s : ImportSet} (h : Binds (c.Known .component) s) :
    Binds (c.Known .component) (Template.addPropTypes c s) := by
  unfold Template.addPropTypes
  split
  · exact h
  · rename_i hprops
    split
    · rename_i htypes
      exact h.addType (.sibling .types (by simp [uses, hprops, htypes]))
    · generalize Template.reactTypesOf c.facts = names
      induction names generalizing s with
      | nil => exact h
      | cons n ns ih => exact ih (h.addType (.package (by decide) _))

theorem binds_importsOf : Binds (c.Known .component) (Template.importsOf c) := by
  unfold Template.importsOf Template.componentImports
  dsimp only
  refine binds_addPropTypes (Binds.addNamedIf (Binds.addNamedIf (Binds.addNamedIf (binds_ofFacts _) ?_) ?_) ?_)
  · exact fun _ => .package (by decide) _
  · intro hquery
    have hplan : (c.plan.hook && c.facts.features.remoteData) = true := hquery
    exact .sibling .hook (by simp only [uses, if_pos hplan, List.mem_singleton])
  · intro hstore
    exact .sibling .store (by simp [uses, hstore])

theorem known_componentStatements {i : ImportStatement} (hi : i ∈ Template.componentStatements c)
    {x : String × String} (hx : x ∈ i.bound) : c.Known .component i.origin x := by
  unfold Template.componentStatements at hi
  rcases List.mem_append.1 hi with hi | hi
  · rcases List.mem_append.1 hi with hi | hi
    · have hreact : i.origin = "react" := by
        rw [Option.mem_toList, Template.reactStatement?] at hi
        split at hi <;> cases hi <;> rfl
      exact .package (hreact ▸ by decide) x
    · obtain ⟨e, he, rfl⟩ := List.mem_map.1 hi
      exact binds_importsOf e (List.mem_filter.1 he).1 x hx
  · obtain ⟨origin, -, rfl⟩ := List.mem_map.1 hi
    cases hx

/-- What an artifact imports belongs to a package, to another artifact by the plan, or was
imported by the source. -/
theorem known_imports {kind : ArtifactKind} {i : ImportStatement} (hi : i ∈ c.imports kind)
    {x : String × String} (hx : x ∈ i.bound) : c.Known kind i.origin x := by
  suffices hall : ∀ i ∈ c.imports kind, ∀ x ∈ i.bound, c.Known kind i.origin x from hall i hi x hx
  have htypes {kind : ArtifactKind} (hnames : c.uses kind .types =
        if c.plan.types && c.declaresData then [c.layout.dataType] else []) :
      ∀ i ∈ if c.plan.types && c.declaresData then [ImportStatement.types [c.layout.dataType] (c.importPath kind .types)]
        else [], ∀ x ∈ i.bound, c.Known kind i.origin x := by
    refine forall_mem_onlyIf fun hplan x hx => .sibling .types ?_
    rw [hnames, if_pos hplan]
    exact ImportStatement.fst_mem_of_mem_bound_types hx
  cases kind with
  | component => exact fun i hi x hx => known_componentStatements hi hx
  | types =>
    have hreact : "react" ∈ packages := by decide
    rw [imports]
    split
    · simp
    · rw [List.forall_mem_singleton]
      exact fun x _ => .package hreact x
  | hook =>
    have hquery : "@tanstack/react-query" ∈ packages := by decide
    refine List.forall_mem_append.2 ⟨List.forall_mem_append.2 ⟨?_, ?_⟩, htypes rfl⟩
    · rw [List.forall_mem_singleton]
      exact fun x _ => .package hquery x
    · refine forall_mem_onlyIf fun hservice x hx => .sibling .service ?_
      rw [uses, if_pos hservice]
      exact ImportStatement.fst_mem_of_mem_bound_names hx
  | service => exact htypes rfl
  | store =>
    have hzustand : "zustand" ∈ packages := by decide
    refine List.forall_mem_singleton.2 ?_
    exact fun x _ => .package hzustand x
  | test => exact fun i hi => nomatch hi

theorem opensWith_imports {kind : ArtifactKind} (h : kind ≠ .test) :
    OpensWith (c.contentOf kind) (c.imports kind) := by
  cases kind with
  | component => exact Template.opensWith_component
  | types => exact Template.opensWith_types
  | hook => exact Template.opensWith_hook
  | service => exact Template.opensWith_service
  | store => exact Template.opensWith_store
  | test => exact absurd rfl h

theorem imports_ofFacts {f : Facts} {b : ImportBinding} (hb : b ∈ f.imports) (hkind : b.kind = .named)
    {hasService : Bool} (hout : isLeftOut hasService b.origin = false) (hrouter : isRouter b.origin = false) :
    (ImportSet.ofFacts f hasService).Imports b.origin (b.name, b.name) := by
  obtain ⟨before, after, hsplit⟩ := List.append_of_mem hb
  have hcarry (s : ImportSet) : s.carry hasService b = s.addNamed b.origin b.name := by
    simp [carry, hout, hrouter, hkind]
  unfold ImportSet.ofFacts
  rw [hsplit, List.foldl_append, List.foldl_cons, hcarry]
  exact (imports_addNamed _ b.origin b.name).foldl_carry hasService after

theorem imports_addPropTypes {s : ImportSet} {origin : String} {x : String × String} (h : s.Imports origin x) :
    (Template.addPropTypes c s).Imports origin x := by
  unfold Template.addPropTypes
  split
  · exact h
  · split
    · exact h.addType
    · generalize Template.reactTypesOf c.facts = names
      induction names generalizing s with
      | nil => exact h
      | cons n ns ih => exact ih h.addType

/-- What the source imports from the place of the store stands in one statement with the
store itself. -/
theorem exists_shared_statement {b : ImportBinding} (hb : b ∈ c.facts.imports) (hkind : b.kind = .named)
    (horigin : b.origin = c.importPath .component .store) (hstore : c.plan.store = true)
    (hout : ∀ hasService, isLeftOut hasService b.origin = false) (hrouter : isRouter b.origin = false) :
    ∃ i ∈ c.imports .component, i.origin = c.importPath .component .store ∧
      (c.layout.storeHook, c.layout.storeHook) ∈ i.bound ∧ (b.name, b.name) ∈ i.bound := by
  have hcarried := imports_ofFacts hb hkind (hout (!Str.hasWord (Template.functionCodeOf c) "axios")) hrouter
  have hname : (Template.importsOf c).Imports b.origin (b.name, b.name) :=
    imports_addPropTypes (((hcarried.addNamedIf _).addNamedIf _).addNamedIf _)
  have hstoreHook : (Template.importsOf c).Imports b.origin (c.layout.storeHook, c.layout.storeHook) := by
    unfold Template.importsOf Template.componentImports
    dsimp only
    rw [if_pos hstore, horigin]
    exact imports_addPropTypes (imports_addNamed _ _ _)
  -- Both stand in the one entry that is found for the place.
  obtain ⟨e, he, hbound⟩ := hname
  obtain ⟨e', he', hbound'⟩ := hstoreHook
  obtain rfl : e = e' := Option.some.inj (he.symm.trans he')
  have hfound := List.find?_some he
  have hentry : e ∈ (Template.importsOf c).entries.filter fun e => !(clause e).isEmpty :=
    List.mem_filter.2 ⟨List.mem_of_find?_eq_some he, by rw [clause_ne_nil_of_mem_bound hbound]; rfl⟩
  refine ⟨.ofEntry e, ?_, (beq_iff_eq.1 (Bool.and_eq_true_iff.1 hfound).1).trans horigin, hbound', hbound⟩
  exact List.mem_append_left _ (List.mem_append_right _ (List.mem_map_of_mem hentry))

end RenderContext

end Recast
