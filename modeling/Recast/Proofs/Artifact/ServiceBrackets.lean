import Mathlib.Data.Bool.AllAny
import Recast.Optimize.ResponseCache
import Recast.Proofs.Artifact.ServiceText
import Recast.Proofs.Text.Balance
import Recast.Proofs.Text.Occurrence
import Recast.Proofs.Text.Once

/-!
# The brackets of a service

A method requests its path in a literal that escapes it. So the brackets of a path count for
nothing, and a service is balanced whatever its component is called and whatever its endpoints
hold (`isBalanced_service`).
-/

namespace Recast

open Text ResponseCache

namespace ArtifactLayout

open Segment

/-- Where the service finds the types. -/
theorem Clean.importPath_types {l : ArtifactLayout} (h : l.Clean) :
    (l.importPath .service .types).toList = joinWith ['/'] [['.', '.'], "components".toList,
      l.tier.label.toList, l.name.toList, l.name.toList ++ ".types".toList] := by
  obtain ⟨-, hsource, -⟩ := h.segments_eq (h.toList_pathFor .service)
  obtain ⟨-, htarget, hstem⟩ := h.segments_eq (h.toList_pathFor .types)
  have hcommon : commonLength [.name "services".toList] ((l.dirs .types).map .name) = 0 := by
    simp [dirs, commonLength]
  rw [importPath, String.toList_ofList, Segment.importPath, hsource, htarget, hstem]
  have hbetween : between ((l.dirs .service).map .name) ((l.dirs .types).map .name) =
      [['.', '.'], "components".toList, l.tier.label.toList, l.name.toList] := by
    unfold between
    have hdirs : (l.dirs .service).map Segment.name = [.name "services".toList] := rfl
    rw [hdirs, hcommon]
    rfl
  rw [hbetween]
  rfl

theorem Clean.mem_importPath_types {l : ArtifactLayout} (h : l.Clean) {x : Char}
    (hx : x ∈ (l.importPath .service .types).toList) : x.isAlphanum = true ∨ x = '/' ∨ x = '.' := by
  have htier : ∀ y ∈ l.tier.label.toList, y.isAlphanum = true := by
    cases l.tier <;> exact List.all_eq_true.1 (by decide)
  rw [h.importPath_types] at hx
  rcases mem_joinWith hx with hslash | ⟨p, hp, hx⟩
  · exact .inr (.inl (List.mem_singleton.1 hslash))
  simp only [List.mem_cons, List.not_mem_nil, or_false] at hp
  rcases hp with rfl | rfl | rfl | rfl | rfl
  · exact .inr (.inr (by simpa using hx))
  · have hcomponents : ∀ y ∈ "components".toList, y.isAlphanum = true := List.all_eq_true.1 (by decide)
    exact .inl (hcomponents x hx)
  · exact .inl (htier x hx)
  · exact .inl (h.name x hx)
  · have htypes : ∀ y ∈ ".types".toList, y.isAlphanum = true ∨ y = '/' ∨ y = '.' :=
      List.all_iff_forall_prop.1 (by decide)
    rcases List.mem_append.1 hx with hx | hx
    · exact .inl (h.name x hx)
    · exact htypes x hx

end ArtifactLayout

theorem IsName.neutral {name : String} (h : IsName name) : name.toList.all isNeutral = true :=
  List.all_eq_true.2 fun c hc => isNeutral_of_isIdentChar (h c hc)

namespace Template

variable {c : RenderContext}

/-! ### The methods -/

/-- What the optimizer relies on in a method. -/
structure ServiceMethod.Sound (m : ServiceMethod) : Prop where
  opens : ∃ head, m.header.toList = head ++ ['{'] ∧ head.all isPlain = true ∧ Closed head
  no_comma : ',' ∉ m.header.toList
  isName_type : IsName m.type
  no_cache : contains m.path.toList cacheField = false

theorem furtherMethod_sound {method path : String} (hmethod : IsName method)
    (hpath : contains path.toList cacheField = false) : (furtherMethod method path).Sound where
  opens := by
    refine ⟨method.toList ++ "<T = unknown>(): Promise<T> ".toList, ?_, ?_, ?_⟩
    · simp [furtherMethod, String.toList_append]
    · rw [List.all_append, all_isPlain_of_neutral hmethod.neutral]
      decide
    · exact (closed_of_neutral hmethod.neutral).append (by decide)
  no_comma := by
    have hname := hmethod.not_mem (x := ',') (by decide)
    simp [furtherMethod, String.toList_append, hname]
  isName_type := by
    show IsName "T"
    decide
  no_cache := hpath

theorem isName_of_methodFor? {path method : String} (h : methodFor? path = some method) : IsName method := by
  obtain ⟨segment, -, hmethod⟩ := Option.bind_eq_some_iff.1 h
  dsimp only at hmethod
  split at hmethod
  · cases hmethod
  · cases hmethod
    refine IsName.append (by decide) fun x hx => ?_
    rw [String.toList_ofList] at hx
    exact isIdentChar_of_isAlphanum (isAlphanum_pascalCase segment x hx)

theorem mem_furtherMethods {taken paths : List String} {m : String × String}
    (h : m ∈ furtherMethods taken paths) : IsName m.1 ∧ m.2 ∈ paths := by
  induction paths generalizing taken with
  | nil => cases h
  | cons path paths ih =>
    have hrest {taken : List String} (h : m ∈ furtherMethods taken paths) : IsName m.1 ∧ m.2 ∈ path :: paths :=
      ⟨(ih h).1, List.mem_cons_of_mem _ (ih h).2⟩
    rw [furtherMethods] at h
    split at h
    · rename_i method hmethod
      split at h
      · exact hrest h
      · rcases List.mem_cons.1 h with rfl | h
        · exact ⟨isName_of_methodFor? hmethod, List.mem_cons_self⟩
        · exact hrest h
    · exact hrest h

theorem endpointPaths_eq (f : Facts) : endpointPaths f = (f.endpoints.map endpointPath).eraseDups :=
  foldl_addOnce _

theorem mem_endpointPaths {f : Facts} {path : String} (h : path ∈ endpointPaths f) :
    ∃ e ∈ f.endpoints, path = endpointPath e := by
  rw [endpointPaths_eq, List.mem_eraseDups] at h
  obtain ⟨e, he, rfl⟩ := List.mem_map.1 h
  exact ⟨e, he, rfl⟩

/-- An endpoint behind its origin. -/
def barePath (e : String) : List Char :=
  match cut? e.toList "://".toList with
  | some (_, rest) => rest.dropWhile (· != '/')
  | none => e.toList

theorem barePath_suffix (e : String) : barePath e <:+ e.toList := by
  unfold barePath
  split
  · rename_i before rest hcut
    obtain ⟨i, -, hparts⟩ := Option.map_eq_some_iff.1 hcut
    cases hparts
    exact (List.dropWhile_suffix _).trans (List.drop_suffix _ _)
  · exact List.suffix_refl _

theorem endpointPath_eq (e : String) : endpointPath e =
    if (barePath e).head? == some '/' then .ofList (barePath e) else .ofList ('/' :: barePath e) := rfl

theorem toList_endpointPath (e : String) :
    (endpointPath e).toList = barePath e ∨ (endpointPath e).toList = '/' :: barePath e := by
  rw [endpointPath_eq]
  split
  · exact .inl String.toList_ofList
  · exact .inr String.toList_ofList

theorem no_cache_endpointPath {e : String} (h : contains e.toList cacheField = false) :
    contains (endpointPath e).toList cacheField = false := by
  have hrest : contains (barePath e) cacheField = false := by
    by_contra hword
    rw [contains_of_suffix (barePath_suffix e) (by simpa using hword)] at h
    cases h
  rcases toList_endpointPath e with hpath | hpath
  · rw [hpath, hrest]
  · rw [hpath, contains_cons, hrest]
    rfl

theorem mem_kebabCase {text : List Char} {x : Char} (h : x ∈ kebabCase text) :
    x = '-' ∨ x.isAlphanum = true := by
  have hwords {w : List Char} (hw : w ∈ words text) : ∀ x ∈ w, x.isAlphanum = true :=
    isAlphanum_of_mem_wordsFrom (by simp) hw
  rcases mem_joinWith h with h | ⟨w, hw, hx⟩
  · exact .inl (List.mem_singleton.1 h)
  · obtain ⟨v, hv, rfl⟩ := List.mem_map.1 hw
    obtain ⟨y, hy, rfl⟩ := List.mem_map.1 hx
    exact .inr (isAlphanum_toLower (hwords hv y hy))

theorem no_cache_primaryPath {f : Facts} (l : ArtifactLayout)
    (h : ∀ e ∈ f.endpoints, contains e.toList cacheField = false) :
    contains (primaryPath f l).toList cacheField = false := by
  unfold primaryPath
  cases hpaths : endpointPaths f with
  | nil =>
    refine not_contains_of_mem (c := ' ') (by decide) fun hmem => ?_
    simp only [List.headD_nil, String.toList_append, List.mem_append] at hmem
    rcases hmem with hmem | hmem
    · exact absurd hmem (by decide)
    · rw [ArtifactLayout.kebab, String.toList_ofList] at hmem
      rcases mem_kebabCase hmem with h | h <;> cases h
  | cons path paths =>
    obtain ⟨e, he, rfl⟩ := mem_endpointPaths (hpaths ▸ List.mem_cons_self)
    exact no_cache_endpointPath (h e he)

theorem serviceMethods_sound (hclean : c.layout.Clean)
    (h : ∀ e ∈ c.facts.endpoints, contains e.toList cacheField = false) :
    ∀ m ∈ serviceMethods c, m.Sound := by
  have hfetch : IsName c.layout.fetchMethod :=
    (IsName.append (by decide) hclean.isName_name).append (by decide)
  refine List.forall_mem_cons.2 ⟨?_, ?_⟩
  · constructor
    case opens =>
      refine ⟨c.layout.fetchMethod.toList ++ ("(): Promise<".toList ++
        (c.layout.dataType.toList ++ "> ".toList)), ?_, ?_, ?_⟩
      · simp [String.toList_append]
      · simp only [List.all_append, all_isPlain_of_neutral hfetch.neutral,
          all_isPlain_of_neutral hclean.isName_dataType.neutral]
        decide
      · refine (closed_of_neutral hfetch.neutral).append (Closed.append (by decide) ?_)
        exact (closed_of_neutral hclean.isName_dataType.neutral).append (by decide)
    case no_comma =>
      have hfetch := hfetch.not_mem (x := ',') (by decide)
      have htype := hclean.isName_dataType.not_mem (x := ',') (by decide)
      simp [String.toList_append, hfetch, htype]
    case isName_type => exact hclean.isName_dataType
    case no_cache => exact no_cache_primaryPath _ h
  · intro m hm
    obtain ⟨⟨method, path⟩, hmem, rfl⟩ := List.mem_map.1 hm
    obtain ⟨hmethod, hpath⟩ := mem_furtherMethods hmem
    obtain ⟨e, he, rfl⟩ := mem_endpointPaths (List.mem_of_mem_drop hpath)
    exact furtherMethod_sound hmethod (no_cache_endpointPath (h e he))

/-! ### Brackets -/

theorem toList_requestLine (type path : String) : (requestLine type path).toList =
    "return this.request<".toList ++ (type.toList ++ ">('".toList ++ (escapeQuoted path.toList ++ "');".toList)) := by
  have hquoted : (Str.quoted path).toList = escapeQuoted path.toList := String.toList_ofList
  unfold requestLine
  rw [String.toList_append, String.toList_append, String.toList_append, String.toList_append, hquoted,
    List.append_assoc, List.append_assoc, List.append_assoc, List.append_assoc]

theorem ServiceMethod.Sound.tidy {m : ServiceMethod} (h : m.Sound) : Tidy (ofLines ("" :: m.lines)) := by
  obtain ⟨head, hheader, hplain, hclosed⟩ := h.opens
  have hcall : (("    return this.request<".toList ++ m.type.toList ++ ['>']).all isPlain) = true := by
    simp only [List.all_append, all_isPlain_of_neutral h.isName_type.neutral]
    decide
  have htype : Closed ("    return this.request<".toList ++ m.type.toList ++ ['>'] ++
      '(' :: (");".toList ++ ['\n'])) := by
    refine Closed.append (Closed.append (Closed.append (by decide) ?_) (by decide)) (by decide)
    exact closed_of_neutral h.isName_type.neutral
  have hrequest := Tidy.of_quoted hcall (d := '(') (by decide) (by decide) (b := ");".toList) (by decide) htype
    m.path.toList
  have hhead : ("\n  ".toList ++ head).all isPlain = true := by
    rw [List.all_append, hplain]
    rfl
  have hindent : "  ".toList.all (· == ' ') = true := by decide
  have hblock := Tidy.block hhead (Closed.append (by decide) hclosed) hindent hrequest
  have hcode : ofLines ("" :: m.lines) = "\n  ".toList ++ head ++ ['{', '\n'] ++
      ("    return this.request<".toList ++ m.type.toList ++ ['>'] ++
        '(' :: '\'' :: (escapeQuoted m.path.toList ++ '\'' :: (");".toList ++ ['\n']))) ++
      "  ".toList ++ ['}', '\n'] := by
    have hlines : ofLines ("" :: m.lines) = '\n' :: (("  " ++ m.header).toList ++ ['\n'] ++
        (("    " ++ requestLine m.type m.path).toList ++ ['\n'] ++ ("  \x7d".toList ++ ['\n']))) := by
      simp [ofLines, ServiceMethod.lines]
    rw [hlines, String.toList_append, String.toList_append, hheader, toList_requestLine]
    simp
  rw [hcode]
  exact hblock

theorem ofLines_append (ls ms : List String) : ofLines (ls ++ ms) = ofLines ls ++ ofLines ms :=
  List.flatMap_append

theorem ofLines_cons (l : String) (ls : List String) :
    ofLines (l :: ls) = l.toList ++ ['\n'] ++ ofLines ls := rfl

theorem toList_importTypes (name path : String) : (importTypes [name] path).toList =
    "import type \x7b ".toList ++ (name.toList ++ (" \x7d from '".toList ++ (path.toList ++ "';".toList))) := by
  have hnames : String.intercalate ", " [name] = name := rfl
  have hopen : "import type ".toList ++ ("\x7b".toList ++ " ".toList) = "import type \x7b ".toList := by decide
  have hclose : " ".toList ++ ("\x7d".toList ++ " from '".toList) = " \x7d from '".toList := by decide
  unfold importTypes
  rw [← hopen, ← hclose, hnames, Str.braced]
  simp only [String.toList_append, List.append_assoc]

theorem quotedChar_importPath_types (h : c.layout.Clean) :
    ∀ x ∈ (c.importPath .service .types).toList, quotedChar x = [x] := by
  intro x hx
  unfold quotedChar
  split
  · exact absurd (h.mem_importPath_types hx) (by decide)
  · exact absurd (h.mem_importPath_types hx) (by decide)
  · exact absurd (h.mem_importPath_types hx) (by decide)
  · rfl

theorem tidy_dataTypeLine (h : c.layout.Clean) : Tidy (ofLines [dataTypeLine c]) := by
  have htype := h.isName_dataType.neutral
  have hsingle (l : String) : ofLines [l] = l.toList ++ ['\n'] := List.flatMap_singleton _ l
  rw [hsingle]
  unfold dataTypeLine
  split
  · have hplain : ("import type \x7b ".toList ++ c.layout.dataType.toList ++
        " \x7d from".toList).all isPlain = true := by
      rw [List.all_append, List.all_append, all_isPlain_of_neutral htype]
      decide
    have hclosed : Closed ("import type \x7b ".toList ++ c.layout.dataType.toList ++ " \x7d from".toList ++
        ' ' :: (";".toList ++ ['\n'])) := by
      have hbraces : Closed ('{' :: (' ' :: (c.layout.dataType.toList ++ " ".toList) ++ ['}'])) :=
        Closed.enclose ((Closed.append (u := [' ']) rfl (closed_of_neutral htype)).append (v := [' ']) rfl) .curly
      have hline := (Closed.append (u := "import type ".toList) (by decide) hbraces).append
        (v := " from ;\n".toList) (by decide)
      simpa using hline
    have hline := Tidy.of_quoted hplain (d := ' ') (by decide) (by decide) (b := ";".toList) (by decide) hclosed
      (c.importPath .service .types).toList
    rw [escapeQuoted_eq_self (quotedChar_importPath_types h)] at hline
    rw [toList_importTypes]
    simpa using hline
  · have hline : ("export type " ++ c.layout.dataType ++ " = unknown;").toList.all isNeutral = true := by
      simp only [String.toList_append, List.all_append, htype]
      decide
    exact .of_plain (all_isPlain_of_neutral hline) (closed_of_neutral hline)

/-- The lines between the type of the data and the class. -/
def constantLines : List String :=
  ["", "const API_BASE_URL = import.meta.env.VITE_API_URL ?? '';", "const MAX_RETRIES = 3;",
    "const RETRY_DELAY_MS = 500;", ""]

theorem headLines_eq (c : RenderContext) :
    headLines c = [dataTypeLine c] ++ constantLines ++ [classLine c] := rfl

/-- Up to the class nothing is called and nothing is generic. -/
theorem not_mem_headLines (hclean : c.layout.Clean) {x : Char} (hx : x = '(' ∨ x = '<') :
    ∀ l ∈ headLines c, x ∉ l.toList := by
  have hident : isIdentChar x = false := by rcases hx with rfl | rfl <;> decide
  have htype := hclean.isName_dataType.not_mem hident
  have hservice := hclean.isName_serviceClass.not_mem hident
  have hpath : x ∉ (c.importPath .service .types).toList := by
    intro hmem
    rcases hx with rfl | rfl <;> exact absurd (hclean.mem_importPath_types hmem) (by decide)
  rw [headLines_eq]
  intro l hl
  simp only [List.mem_append, List.mem_singleton, constantLines] at hl
  rcases hl with (rfl | hl) | rfl
  · unfold dataTypeLine
    split
    · rw [toList_importTypes]
      rcases hx with rfl | rfl <;> simp [htype, hpath]
    · rcases hx with rfl | rfl <;> simp [String.toList_append, htype]
  · rcases hx with rfl | rfl <;> revert l <;> decide
  · unfold classLine
    rcases hx with rfl | rfl <;> simp [String.toList_append, hservice]

/-- Whatever members stand in the class before the methods, the brackets of a service are closed if
those of the members are. -/
theorem isBalanced_service (hclean : c.layout.Clean)
    (hmethods : ∀ m ∈ serviceMethods c, m.Sound) {members : List String} (hmembers : Tidy (ofLines members)) :
    isBalanced (ofLines (headLines c ++ (members ++ tailLines c))) = true := by
  have hconstants : Tidy (ofLines constantLines) := by
    unfold constantLines ofLines
    simp only [List.flatMap_cons, List.flatMap_nil]
    repeat rw [String.toList_ofList]
    exact .of_settled (by decide +kernel) (by decide +kernel)
  have hbody : Tidy (ofLines members ++ (serviceMethods c).flatMap fun m => ofLines ("" :: m.lines)) :=
    hmembers.append (.flatMap fun m hm => (hmethods m hm).tidy)
  have hname := hclean.isName_serviceClass.neutral
  have hinstance : (instanceLine c).toList.all isPlain = true ∧ Closed (instanceLine c).toList := by
    have hcamel := hclean.isName_serviceInstance.neutral
    unfold instanceLine
    simp only [String.toList_append, List.all_append, all_isPlain_of_neutral hname, all_isPlain_of_neutral hcamel]
    refine ⟨by decide, ?_⟩
    refine Closed.append (Closed.append (Closed.append (Closed.append (by decide) ?_) (by decide)) ?_) (by decide)
    · exact closed_of_neutral hcamel
    · exact closed_of_neutral hname
  have hclass : ("export class ".toList ++ c.layout.serviceClass.toList ++ [' ']).all isNeutral = true := by
    simp only [List.all_append, hname]
    decide
  have hindent : ([] : List Char).all (· == ' ') = true := rfl
  have hblock := Tidy.block (all_isPlain_of_neutral hclass) (closed_of_neutral hclass) hindent hbody
  have htext : ofLines (headLines c ++ (members ++ tailLines c)) =
      ofLines [dataTypeLine c] ++ ofLines constantLines ++
        ("export class ".toList ++ c.layout.serviceClass.toList ++ [' '] ++ ['{', '\n'] ++
          (ofLines members ++ (serviceMethods c).flatMap fun m => ofLines ("" :: m.lines)) ++ [] ++
          ['}', '\n']) ++
        (['\n'] ++ ((instanceLine c).toList ++ ['\n'])) := by
    have hmethods : ofLines ((serviceMethods c).flatMap fun m => "" :: m.lines) =
        (serviceMethods c).flatMap fun m => ofLines ("" :: m.lines) := List.flatMap_assoc
    have hline : (classLine c).toList =
        "export class ".toList ++ (c.layout.serviceClass.toList ++ " \x7b".toList) := by
      unfold classLine
      simp only [String.toList_append, List.append_assoc]
    have hend : ofLines ["\x7d", "", instanceLine c] =
        ['}', '\n'] ++ (['\n'] ++ ((instanceLine c).toList ++ ['\n'])) := by
      simp [ofLines]
    rw [headLines_eq, tailLines, ofLines_append, ofLines_append, ofLines_append, ofLines_append, ofLines_append,
      hmethods, hend, ofLines_cons (classLine c), hline]
    simp [ofLines]
  rw [htext]
  exact ((((tidy_dataTypeLine hclean).append hconstants).append hblock).append
    ((Tidy.of_plain (l := []) rfl rfl).append (.of_plain hinstance.1 hinstance.2))).isBalanced

end Template

end Recast
