import Recast.Proofs.Artifact.Building
import Recast.Proofs.Artifact.Generated

/-!
# Exports

The names that a module exports are read off its lines. Each artifact exports the names by
which the others refer to it.
-/

namespace Recast

open Text

/-- Words that begin a declaration. -/
def declaringWords : List String := ["const", "function", "class", "interface", "type"]

def declaredBy? (declaration : List Char) : Option String :=
  declaringWords.findSome? fun word =>
    (dropPrefix? (word.toList ++ [' ']) declaration).map fun rest =>
      .ofList (rest.takeWhile isIdentChar)

/-- The name that a line exports. A default export goes by the name `default`. -/
def exportedBy? (line : List Char) : Option String :=
  (dropPrefix? "export ".toList line).bind fun declaration =>
    if startsWith declaration "default ".toList then some "default" else declaredBy? declaration

def exportsOf (content : String) : List String :=
  (splitOn '\n' content.toList).filterMap exportedBy?

theorem declaredBy?_eq {word : String} (hw : word ∈ declaringWords) (rest : List Char) :
    declaredBy? (word.toList ++ ' ' :: rest) = some (.ofList (rest.takeWhile isIdentChar)) := by
  simp only [declaringWords, List.mem_cons, List.not_mem_nil, or_false] at hw
  rcases hw with rfl | rfl | rfl | rfl | rfl <;> rfl

theorem not_startsWith_default {word : String} (hw : word ∈ declaringWords) (rest : List Char) :
    startsWith (word.toList ++ ' ' :: rest) "default ".toList = false := by
  simp only [declaringWords, List.mem_cons, List.not_mem_nil, or_false] at hw
  rcases hw with rfl | rfl | rfl | rfl | rfl <;> rfl

/-- Every character may stand in an identifier. -/
def IsName (name : String) : Prop := ∀ c ∈ name.toList, isIdentChar c = true

instance (name : String) : Decidable (IsName name) :=
  decidable_of_iff (name.toList.all isIdentChar = true) List.all_eq_true

theorem IsName.append {s t : String} (hs : IsName s) (ht : IsName t) : IsName (s ++ t) := by
  intro c hc
  rw [String.toList_append] at hc
  exact (List.mem_append.1 hc).elim (hs c) (ht c)

theorem IsName.not_mem {name : String} (h : IsName name) {x : Char} (hx : isIdentChar x = false) :
    x ∉ name.toList := by
  intro hmem
  rw [h x hmem] at hx
  cases hx

theorem isIdentChar_of_isAlphanum {c : Char} (h : c.isAlphanum = true) : isIdentChar c = true := by
  simp [isIdentChar, h]

theorem exportedBy?_declaration {word name : String} {rest : List Char} (hw : word ∈ declaringWords)
    (hname : IsName name) (hrest : rest.takeWhile isIdentChar = []) :
    exportedBy? ("export ".toList ++ (word.toList ++ ' ' :: (name.toList ++ rest))) = some name := by
  have htake : (name.toList ++ rest).takeWhile isIdentChar = name.toList := by
    rw [List.takeWhile_append_of_pos hname, hrest, List.append_nil]
  unfold exportedBy?
  rw [dropPrefix?_eq_some_iff.2 rfl, Option.bind_some, not_startsWith_default hw, declaredBy?_eq hw, htake,
    String.ofList_toList]
  rfl

namespace Text

/-- What is put before a text without separator goes before its first piece. -/
theorem splitOn_append_left {sep : Char} {start : List Char} (h : sep ∉ start) (rest : List Char) :
    ∃ piece pieces, splitOn sep rest = piece :: pieces ∧
      splitOn sep (start ++ rest) = (start ++ piece) :: pieces := by
  obtain ⟨piece, pieces, hrest⟩ := List.exists_cons_of_ne_nil (splitOn_ne_nil sep rest)
  refine ⟨piece, pieces, hrest, ?_⟩
  induction start with
  | nil => exact hrest
  | cons c r ih =>
    simp only [List.mem_cons, not_or] at h
    have hc : (c == sep) = false := by simpa using Ne.symm h.1
    have hr := ih h.2
    unfold splitOn at hr ⊢
    rw [List.cons_append, splitWhen, hr]
    simp [hc]

theorem takeWhile_of_splitOn {rest piece : List Char} {pieces : List (List Char)}
    (h : splitOn '\n' rest = piece :: pieces) (hrest : rest.takeWhile isIdentChar = []) :
    piece.takeWhile isIdentChar = [] := by
  cases rest with
  | nil => cases h; rfl
  | cons c r =>
    have hc : isIdentChar c = false := by
      by_contra hident
      rw [List.takeWhile_cons_of_pos (by simpa using hident)] at hrest
      cases hrest
    obtain ⟨p, ps, hr⟩ := List.exists_cons_of_ne_nil (splitOn_ne_nil '\n' r)
    unfold splitOn at h hr
    rw [splitWhen, hr] at h
    split at h
    · cases h; rfl
    · cases h
      rw [List.takeWhile_cons_of_neg (by simp [hc])]

end Text

namespace CodeBuilder

theorem splitOn_intercalate {ls : List String} (hne : ls ≠ []) :
    splitOn '\n' (['\n'].intercalate (ls.map String.toList) ++ ['\n']) =
      (ls.flatMap fun l => splitOn '\n' l.toList) ++ [[]] := by
  have hempty : splitOn '\n' [] = [[]] := rfl
  induction ls with
  | nil => exact absurd rfl hne
  | cons l ls ih =>
    cases ls with
    | nil => simp [splitOn_append, hempty]
    | cons l' ls =>
      rw [List.map_cons, List.map_cons, List.intercalate_cons_cons, ← List.map_cons, List.append_assoc,
        List.append_assoc, List.singleton_append, splitOn_append, ih (by simp), ← List.append_assoc]
      rfl

/-- The exports of a text are those of its lines. -/
theorem mem_exportsOf_build_iff {b : CodeBuilder} {name : String} : name ∈ exportsOf b.build ↔
    ∃ line ∈ b.finished, ∃ piece ∈ splitOn '\n' line.toList, exportedBy? piece = some name := by
  have hnone : exportedBy? [] = none := rfl
  unfold exportsOf
  rw [List.mem_filterMap, build, String.toList_append, String.toList_intercalate]
  have hnewline : "\n".toList = ['\n'] := rfl
  rw [hnewline]
  by_cases hne : b.finished = []
  · have hblank : splitOn '\n' (['\n'].intercalate (([] : List String).map String.toList) ++ ['\n']) = [[], []] := rfl
    rw [hne, hblank]
    simp [hnone]
  · rw [splitOn_intercalate hne]
    simp only [List.mem_append, List.mem_flatMap, List.mem_singleton]
    constructor
    · rintro ⟨piece, ⟨line, hline, hpiece⟩ | rfl, hname⟩
      · exact ⟨line, hline, piece, hpiece, hname⟩
      · cases hname
    · rintro ⟨line, hline, piece, hpiece, hname⟩
      exact ⟨piece, .inl ⟨line, hline, hpiece⟩, hname⟩

/-- What the first line of something written exports, the finished text exports. -/
theorem mem_exportsOf {b : CodeBuilder} {line name : String} {start rest : List Char}
    (h : line ∈ b.written) (hline : line.toList = start ++ rest) (hne : start ≠ []) (hstart : '\n' ∉ start)
    (hexports : ∀ piece pieces, splitOn '\n' rest = piece :: pieces → exportedBy? (start ++ piece) = some name) :
    name ∈ exportsOf b.build := by
  obtain ⟨piece, pieces, hpieces, hsplit⟩ := splitOn_append_left hstart rest
  have hblank : line ≠ "" := by
    rintro rfl
    exact hne (List.append_eq_nil_iff.1 hline.symm).1
  have hfirst : start ++ piece ∈ splitOn '\n' line.toList := by
    rw [hline, hsplit]
    exact List.mem_cons_self
  exact mem_exportsOf_build_iff.2 ⟨line, mem_finished hblank h, _, hfirst, hexports piece pieces hpieces⟩

theorem declared_mem_exportsOf (word : String) (rest : List Char) {b : CodeBuilder} {line name : String}
    (h : line ∈ b.written) (hline : line.toList = "export ".toList ++ (word.toList ++ ' ' :: (name.toList ++ rest)))
    (hw : word ∈ declaringWords) (hname : IsName name) (hrest : rest.takeWhile isIdentChar = []) :
    name ∈ exportsOf b.build := by
  have hnewline : '\n' ∉ "export ".toList ++ (word.toList ++ ' ' :: name.toList) := by
    have hword : '\n' ∉ word.toList := by
      simp only [declaringWords, List.mem_cons, List.not_mem_nil, or_false] at hw
      rcases hw with rfl | rfl | rfl | rfl | rfl <;> decide
    have hident : '\n' ∉ name.toList := fun hc => absurd (hname _ hc) (by decide)
    simp [hword, hident]
  have hstart : line.toList = ("export ".toList ++ (word.toList ++ ' ' :: name.toList)) ++ rest := by
    simpa using hline
  refine mem_exportsOf h hstart (by simp) hnewline ?_
  intro piece pieces hpieces
  simpa using exportedBy?_declaration hw hname (takeWhile_of_splitOn hpieces hrest)

theorem default_mem_exportsOf (rest : List Char) {b : CodeBuilder} {line : String} (h : line ∈ b.written)
    (hline : line.toList = "export default ".toList ++ rest) : "default" ∈ exportsOf b.build :=
  mem_exportsOf h hline (by decide) (by decide) fun _ _ _ => rfl

end CodeBuilder

namespace ArtifactLayout.Clean

variable {l : ArtifactLayout} (h : l.Clean)

include h

theorem isName_name : IsName l.name := fun c hc => isIdentChar_of_isAlphanum (h.name c hc)

theorem isName_camel : IsName l.camel := fun c hc => isIdentChar_of_isAlphanum (h.camel c hc)

theorem isName_propsType : IsName l.propsType := h.isName_name.append (by decide)

theorem isName_stateType : IsName l.stateType := h.isName_name.append (by decide)

theorem isName_dataType : IsName l.dataType := h.isName_name.append (by decide)

theorem isName_hookName : IsName l.hookName := (IsName.append (by decide) h.isName_name).append (by decide)

theorem isName_queryKey : IsName l.queryKey := h.isName_camel.append (by decide)

theorem isName_serviceClass : IsName l.serviceClass := h.isName_name.append (by decide)

theorem isName_serviceInstance : IsName l.serviceInstance := h.isName_camel.append (by decide)

theorem isName_storeHook : IsName l.storeHook := (IsName.append (by decide) h.isName_name).append (by decide)

end ArtifactLayout.Clean

namespace Template

open CodeBuilder

variable (c : RenderContext) (b : CodeBuilder)

/-- The import that starts a types module. -/
def typesHead : CodeBuilder :=
  b.when (!(reactTypesOf c.facts).isEmpty) fun b => (b.line (importTypes (reactTypesOf c.facts) "react")).blank

/-- An interface with a line for each entry, where there are any. -/
def interfacePart (present : Bool) (name : String) (entries : List String) : CodeBuilder :=
  b.when present fun b =>
    (b.block ("export interface " ++ name ++ " \x7b") "\x7d" (·.lineEach entries)).blank

theorem renderTypes_eq : renderTypes c =
    ((interfacePart (interfacePart (typesHead c {}) (!c.facts.props.isEmpty) c.layout.propsType
        (c.facts.props.map propLine)) (!c.facts.state.isEmpty) c.layout.stateType
        (c.facts.state.map stateLine)).when c.declaresData
      (·.line ("export type " ++ c.layout.dataType ++ " = unknown;"))).build := rfl

theorem depth_typesHead : (typesHead c b).depth = b.depth := depth_when (by simp) _

theorem depth_interfacePart (present : Bool) (name : String) (entries : List String) :
    (interfacePart b present name entries).depth = b.depth := depth_when (by simp) _

theorem extends_interfacePart (present : Bool) (name : String) (entries : List String) :
    Extends b (interfacePart b present name entries) :=
  (Extends.refl b).when _ fun b => ((Extends.refl b).block _ _ fun b => (Extends.refl b).lineEach _).blank

theorem mem_interfacePart {b : CodeBuilder} (hdepth : b.depth = 0) (name : String) (entries : List String) :
    "export interface " ++ name ++ " \x7b" ∈ (interfacePart b true name entries).written := by
  have hblock : "export interface " ++ name ++ " \x7b" ∈
      (b.block ("export interface " ++ name ++ " \x7b") "\x7d" (·.lineEach entries)).written :=
    mem_written_block hdepth (Str.isBlank_append_left (Str.isBlank_append_left (by decide) _) _) fun b => (Extends.refl b).lineEach _
  exact (extends_blank _).mem hblock

/-- The key under which the data is cached. -/
def queryKeyPart : CodeBuilder :=
  (b.line ("export const " ++ c.layout.queryKey ++ " = ['" ++ c.layout.kebab ++ "'] as const;")).blank

def hookFunction : CodeBuilder :=
  b.block ("export function " ++ c.layout.hookName ++ "() \x7b") "\x7d" fun b =>
    let b := b.block ("const query = useQuery<" ++ c.layout.dataType ++ ", Error>(\x7b") "\x7d);" fun b =>
      (queryFunction c (b.line ("queryKey: " ++ c.layout.queryKey ++ ","))).line
        ("staleTime: " ++ staleTime ++ ",")
    b.blank.block "return \x7b" "\x7d;" (·.lineEach ["data: query.data,",
      "isLoading: query.isLoading,", "error: query.error,", "refetch: query.refetch,"])

theorem renderHook_eq : renderHook c = (hookFunction c (queryKeyPart c (hookImports c {}))).build := rfl

theorem depth_hookImports : (hookImports c b).depth = b.depth := by
  have hstart := depth_when (b := b.line "import \x7b useQuery \x7d from '@tanstack/react-query';")
    (f := (·.line (importNames [c.layout.serviceInstance] (c.importPath .hook .service)))) rfl c.plan.service
  unfold hookImports
  dsimp only
  split <;> simpa using hstart

theorem depth_queryKeyPart : (queryKeyPart c b).depth = b.depth := by simp [queryKeyPart]

theorem extends_queryFunction : Extends b (queryFunction c b) := by
  unfold queryFunction
  dsimp only
  split
  · exact extends_line b _
  · refine (Extends.refl b).block _ _ fun b => ?_
    exact (((Extends.refl b).line _).block _ _ fun b => extends_line b _).line _

theorem extends_queryBody : Extends b
    ((queryFunction c (b.line ("queryKey: " ++ c.layout.queryKey ++ ","))).line ("staleTime: " ++ staleTime ++ ",")) :=
  ((extends_line b _).trans (extends_queryFunction c _)).line _

theorem mem_hookFunction {b : CodeBuilder} (hdepth : b.depth = 0) :
    "export function " ++ c.layout.hookName ++ "() \x7b" ∈ (hookFunction c b).written := by
  refine mem_written_block hdepth (Str.isBlank_append_left (Str.isBlank_append_left (by decide) _) _) fun b => ?_
  exact (((Extends.refl b).block _ _ fun b => extends_queryBody c b).blank).block _ _ fun b =>
    (Extends.refl b).lineEach _

theorem extends_hookFunction : Extends b (hookFunction c b) := by
  refine (Extends.refl b).block _ _ fun b => ?_
  exact (((Extends.refl b).block _ _ fun b => extends_queryBody c b).blank).block _ _ fun b =>
    (Extends.refl b).lineEach _

/-- The type of the data, imported or declared. -/
def serviceHead : CodeBuilder :=
  if c.plan.types && c.declaresData then
    b.line (importTypes [c.layout.dataType] (c.importPath .service .types))
  else b.line ("export type " ++ c.layout.dataType ++ " = unknown;")

def serviceConstants : CodeBuilder :=
  (b.blank.lineEach ["const API_BASE_URL = import.meta.env.VITE_API_URL ?? '';",
    "const MAX_RETRIES = " ++ toString maxRetries ++ ";",
    "const RETRY_DELAY_MS = " ++ toString retryDelayMs ++ ";"]).blank

theorem renderService_eq : renderService c =
    ((serviceClass c (serviceConstants (serviceHead c {}))).blank.line
      ("export const " ++ c.layout.serviceInstance ++ " = new " ++ c.layout.serviceClass ++ "();")).build := rfl

theorem depth_serviceHead : (serviceHead c b).depth = b.depth := by
  unfold serviceHead
  split <;> rfl

theorem depth_serviceConstants : (serviceConstants b).depth = b.depth := by simp [serviceConstants]

theorem depth_requestMethod : (requestMethod b).depth = b.depth := by simp [requestMethod]

theorem extends_requestMethod : Extends b (requestMethod b) := by
  unfold requestMethod
  dsimp only
  refine (Extends.refl b).block _ _ fun b => ?_
  refine (Extends.line (Extends.block ((Extends.refl b).line _) _ _ fun b => ?_) _)
  refine (?_ : Extends (b.opening "try \x7b") _).closing _
  refine Extends.block ?_ _ _ fun b => extends_line b _
  refine Extends.line (Extends.branch (Extends.line ?_ _) _) _
  refine Extends.block (Extends.block (Extends.refl _) _ _ fun b => ?_) _ _ fun b => extends_line b _
  exact (Extends.refl b).lineEach _

/-- What stands between the lines of the service class. -/
def serviceBody : CodeBuilder :=
  let l := c.layout
  let b := (b.line "constructor(private readonly baseUrl: string = API_BASE_URL) \x7b\x7d").blank
  let b := (requestMethod b).blank
  let b := b.block (l.fetchMethod ++ "(): Promise<" ++ l.dataType ++ "> \x7b") "\x7d"
    (·.line (requestLine l.dataType (primaryPath c.facts l)))
  (furtherMethods [l.fetchMethod] ((endpointPaths c.facts).drop 1)).foldl (fun b (method, path) =>
    b.blank.block (method ++ "<T = unknown>(): Promise<T> \x7b") "\x7d" (·.line (requestLine "T" path))) b

theorem serviceClass_eq : serviceClass c b =
    b.block ("export class " ++ c.layout.serviceClass ++ " \x7b") "\x7d" (serviceBody c) := rfl

theorem depth_serviceBody : (serviceBody c b).depth = b.depth := by
  unfold serviceBody
  dsimp only
  rw [depth_foldl (by simp)]
  simp [depth_requestMethod]

theorem extends_serviceBody : Extends b (serviceBody c b) := by
  have hrequest := (((extends_line b "constructor(private readonly baseUrl: string = API_BASE_URL) \x7b\x7d").blank).trans
    (extends_requestMethod _)).blank
  exact (hrequest.block _ _ fun b => extends_line b _).foldl
    (fun b _ => ((extends_blank b).block _ _ fun b => extends_line b _)) _

/-- The type of the values in the store. -/
def storeValues : CodeBuilder :=
  (b.block ("export type " ++ (c.layout.name ++ "StoreValues") ++ " = \x7b") "\x7d;" (·.lineEach
    (c.facts.state.map fun s => s.name ++ ": " ++ s.type ++ ";"))).blank

def storeType : CodeBuilder :=
  (b.block ("export interface " ++ (c.layout.name ++ "StoreState") ++ " extends " ++
      (c.layout.name ++ "StoreValues") ++ " \x7b") "\x7d"
    fun b => (b.lineEach (c.facts.state.map setterType)).line "reset: () => void;").blank

def storeInitial : CodeBuilder :=
  (b.block ("const initialState: " ++ (c.layout.name ++ "StoreValues") ++ " = \x7b") "\x7d;" fun b =>
    c.facts.state.foldl (fun b s => b.lines (s.name ++ ": " ++ initialValue s ++ ",")) b).blank

def storeHookPart : CodeBuilder :=
  b.block ("export const " ++ c.layout.storeHook ++ " = create<" ++ (c.layout.name ++ "StoreState") ++
      ">()((set) => (\x7b") "\x7d));" fun b =>
    ((b.line "...initialState,").lineEach (c.facts.state.flatMap setterLines)).line
      "reset: () => set(initialState),"

theorem renderStore_eq : renderStore c =
    (storeHookPart c (storeInitial c (storeType c (storeValues c
      (CodeBuilder.line {} "import \x7b create \x7d from 'zustand';").blank)))).build := rfl

theorem depth_storeInitial : (storeInitial c (storeType c (storeValues c b))).depth = b.depth := by
  have hfold (b : CodeBuilder) : (c.facts.state.foldl (fun b s =>
      b.lines (s.name ++ ": " ++ initialValue s ++ ",")) b).depth = b.depth :=
    depth_foldl (fun b s => depth_lines b _) c.facts.state b
  simp [storeInitial, storeType, storeValues, hfold]

theorem extends_storeInitial : Extends b (storeInitial c (storeType c (storeValues c b))) := by
  have hvalues : Extends b (storeValues c b) :=
    ((Extends.refl b).block _ _ fun b => (Extends.refl b).lineEach _).blank
  have htype : Extends b (storeType c (storeValues c b)) :=
    (hvalues.block _ _ fun b => ((Extends.refl b).lineEach _).line _).blank
  exact (htype.block _ _ fun b => (Extends.refl b).foldl
    (fun b s => (Extends.refl b).lines (s.name ++ ": " ++ initialValue s ++ ",")) _).blank

/-- The types that a types module declares. -/
def declaredTypes : List String :=
  (if c.facts.props.isEmpty then [] else [c.layout.propsType]) ++
    (if c.facts.state.isEmpty then [] else [c.layout.stateType]) ++
    if c.declaresData then [c.layout.dataType] else []

variable {c}

theorem interface_mem_exportsOf {b b' : CodeBuilder} (hdepth : b.depth = 0) {name : String} (hname : IsName name)
    {present : Bool} (hpresent : present = true) {entries : List String}
    (hextends : Extends (interfacePart b present name entries) b') : name ∈ exportsOf b'.build := by
  subst hpresent
  refine declared_mem_exportsOf "interface" " \x7b".toList (hextends.mem (mem_interfacePart hdepth name entries))
    ?_ (by decide) hname (by decide)
  simp

theorem declaredTypes_subset_exportsOf (h : c.layout.Clean) {name : String} (hname : name ∈ declaredTypes c) :
    name ∈ exportsOf (renderTypes c) := by
  rw [renderTypes_eq]
  have hprops := depth_typesHead c {}
  have hstate := depth_interfacePart (typesHead c {}) (!c.facts.props.isEmpty) c.layout.propsType
    (c.facts.props.map propLine)
  have hdata := depth_interfacePart (interfacePart (typesHead c {}) (!c.facts.props.isEmpty) c.layout.propsType
    (c.facts.props.map propLine)) (!c.facts.state.isEmpty) c.layout.stateType (c.facts.state.map stateLine)
  unfold declaredTypes at hname
  rcases List.mem_append.1 hname with hname | hname
  · rcases List.mem_append.1 hname with hname | hname
    · split at hname
      · cases hname
      · rename_i hempty
        rw [List.mem_singleton.1 hname]
        exact interface_mem_exportsOf hprops h.isName_propsType (by simpa using hempty)
          ((extends_interfacePart _ _ _ _).when _ fun b => extends_line b _)
    · split at hname
      · cases hname
      · rename_i hempty
        rw [List.mem_singleton.1 hname]
        exact interface_mem_exportsOf (hstate.trans hprops) h.isName_stateType (by simpa using hempty)
          ((Extends.refl _).when _ fun b => extends_line b _)
  · split at hname
    · rename_i hdeclares
      rw [List.mem_singleton.1 hname, hdeclares]
      exact declared_mem_exportsOf "type" " = unknown;".toList
        (mem_written_line ((hdata.trans hstate).trans hprops)
          (Str.isBlank_append_left (Str.isBlank_append_left (by decide) _) _))
        (by simp) (by decide) h.isName_dataType (by decide)
    · cases hname

theorem hook_subset_exportsOf (h : c.layout.Clean) {name : String}
    (hname : name ∈ [c.layout.hookName, c.layout.queryKey]) : name ∈ exportsOf (renderHook c) := by
  rw [renderHook_eq]
  have hkey := depth_hookImports c {}
  have hfunction := (depth_queryKeyPart c (hookImports c {})).trans hkey
  rcases List.mem_cons.1 hname with rfl | hname
  · exact declared_mem_exportsOf "function" "() \x7b".toList (mem_hookFunction c hfunction) (by simp)
      (by decide) h.isName_hookName (by decide)
  · rw [List.mem_singleton.1 hname]
    have hline := mem_written_line (s := "export const " ++ c.layout.queryKey ++ " = ['" ++ c.layout.kebab ++
        "'] as const;") hkey
      (Str.isBlank_append_left (Str.isBlank_append_left (Str.isBlank_append_left
        (Str.isBlank_append_left (by decide) _) _) _) _)
    exact declared_mem_exportsOf "const" (" = ['" ++ c.layout.kebab ++ "'] as const;").toList
      ((extends_hookFunction c _).mem ((extends_blank _).mem hline)) (by simp) (by decide) h.isName_queryKey
      (by simp [isIdentChar])

theorem service_subset_exportsOf (h : c.layout.Clean) {name : String}
    (hname : name ∈ [c.layout.serviceClass, c.layout.serviceInstance]) :
    name ∈ exportsOf (renderService c) := by
  rw [renderService_eq, serviceClass_eq]
  have hclass : (serviceConstants (serviceHead c {})).depth = 0 :=
    (depth_serviceConstants _).trans (depth_serviceHead c {})
  rcases List.mem_cons.1 hname with rfl | hname
  · have hheader : "export class " ++ c.layout.serviceClass ++ " \x7b" ∈
        ((serviceConstants (serviceHead c {})).block ("export class " ++ c.layout.serviceClass ++ " \x7b") "\x7d"
          (serviceBody c)).written :=
      mem_written_block hclass (Str.isBlank_append_left (Str.isBlank_append_left (by decide) _) _)
        (extends_serviceBody c)
    exact declared_mem_exportsOf "class" " \x7b".toList ((extends_line _ _).mem ((extends_blank _).mem hheader))
      (by simp) (by decide) h.isName_serviceClass (by decide)
  · rw [List.mem_singleton.1 hname]
    refine declared_mem_exportsOf "const" (" = new " ++ c.layout.serviceClass ++ "();").toList
      (mem_written_line ?_ (Str.isBlank_append_left (Str.isBlank_append_left (Str.isBlank_append_left
        (Str.isBlank_append_left (by decide) _) _) _) _)) (by simp) (by decide) h.isName_serviceInstance
      (by simp [isIdentChar])
    rw [depth_blank, depth_block, depth_serviceBody, depth_opening, hclass]

theorem store_subset_exportsOf (h : c.layout.Clean) : c.layout.storeHook ∈ exportsOf (renderStore c) := by
  rw [renderStore_eq]
  have hdepth : ((CodeBuilder.line {} "import \x7b create \x7d from 'zustand';").blank).depth = 0 := by simp
  have hheader : "export const " ++ c.layout.storeHook ++ " = create<" ++ (c.layout.name ++ "StoreState") ++
      ">()((set) => (\x7b" ∈ (storeHookPart c (storeInitial c (storeType c (storeValues c
        (CodeBuilder.line {} "import \x7b create \x7d from 'zustand';").blank)))).written := by
    refine mem_written_block ((depth_storeInitial c _).trans hdepth) (Str.isBlank_append_left
      (Str.isBlank_append_left (Str.isBlank_append_left (Str.isBlank_append_left (by decide) _) _) _) _) ?_
    exact fun b => ((extends_line b _).lineEach _).line _
  exact declared_mem_exportsOf "const" (" = create<" ++ (c.layout.name ++ "StoreState") ++ ">()((set) => (\x7b").toList
    hheader (by simp) (by decide) h.isName_storeHook (by simp [isIdentChar])

/-- The builder of the component up to its last line. -/
def componentCode (c : RenderContext) (imports : ImportSet) (functionCode : String) : CodeBuilder :=
  let b := CodeBuilder.lineEach {} ((reactImport? functionCode).toList ++ imports.render)
  let b := (b.blank.lineEach imports.assetConstants).blank
  let b := b.when (!c.facts.props.isEmpty && !c.plan.types) fun b =>
    (b.block ("interface " ++ c.layout.propsType ++ " \x7b") "\x7d"
      (·.lineEach (c.facts.props.map propLine))).blank
  (b.lines functionCode).blank

/-- The code of the component function. -/
def functionCodeOf (c : RenderContext) : String :=
  componentFunction c ((ComponentBody.ofContext c).build c)

def importsOf (c : RenderContext) : ImportSet :=
  componentImports c (ComponentBody.ofContext c) (functionCodeOf c)

theorem renderComponent_eq : renderComponent c =
    ((componentCode c (importsOf c) (functionCodeOf c)).line
      ("export default " ++ c.layout.name ++ ";")).build := rfl

theorem depth_componentCode (imports : ImportSet) (functionCode : String) :
    (componentCode c imports functionCode).depth = 0 := by
  unfold componentCode
  dsimp only
  rw [depth_blank, depth_lines, depth_when (by simp)]
  simp

theorem component_subset_exportsOf : "default" ∈ exportsOf (renderComponent c) := by
  rw [renderComponent_eq]
  exact default_mem_exportsOf (c.layout.name.toList ++ [';']) (mem_written_line (depth_componentCode _ _)
    (Str.isBlank_append_left (Str.isBlank_append_left (by decide) _) _)) (by simp)

end Template

namespace RenderContext

/-- The names by which the other files refer to an artifact. -/
def exportNames (c : RenderContext) : ArtifactKind → List String
  | .component => ["default"]
  | .types => Template.declaredTypes c
  | .hook => [c.layout.hookName, c.layout.queryKey]
  | .service => [c.layout.serviceClass, c.layout.serviceInstance]
  | .store => [c.layout.storeHook]
  | .test => []

/-- The text of an artifact exports them. -/
theorem exportNames_subset_exportsOf {c : RenderContext} (h : c.layout.Clean) {kind : ArtifactKind}
    {name : String} (hname : name ∈ c.exportNames kind) : name ∈ exportsOf (c.contentOf kind) := by
  cases kind with
  | component =>
    rw [List.mem_singleton.1 hname]
    exact Template.component_subset_exportsOf
  | types => exact Template.declaredTypes_subset_exportsOf h hname
  | hook => exact Template.hook_subset_exportsOf h hname
  | service => exact Template.service_subset_exportsOf h hname
  | store =>
    rw [List.mem_singleton.1 hname]
    exact Template.store_subset_exportsOf h
  | test => cases hname

end RenderContext

end Recast
