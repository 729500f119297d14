import Recast.Optimize.BuiltIn
import Recast.Proofs.Artifact.ServiceBrackets
import Recast.Proofs.Optimize.Anchors

/-!
# The cache fits every service

Whatever the component is called and whatever its endpoints hold, the anchors of the cache are
found in a service where they are meant to be, for its other lines lack what is sought
(`service_cached`).
-/

namespace Recast

open Text ResponseCache

/-! ### The lines of a service with a cache -/

/-- What becomes of a line. -/
inductive LineEdit
  | kept (line : String)
  | added (line : String)
  | changed (old new : String)

namespace LineEdit

def before? : LineEdit → Option String
  | kept line => some line
  | added _ => none
  | changed old _ => some old

def after? : LineEdit → Option String
  | kept line => some line
  | added line => some line
  | changed _ new => some new

def added? : LineEdit → Option String
  | added line => some line
  | _ => none

def changed? : LineEdit → Option (String × String)
  | changed old new => some (old, new)
  | _ => none

end LineEdit

namespace Template

open LineEdit

variable {c : RenderContext}

/-- The text before the edits. -/
def textBefore (edits : List LineEdit) : String := .ofList (ofLines (edits.filterMap before?))

def textAfter (edits : List LineEdit) : String := .ofList (ofLines (edits.filterMap after?))

/-- The members before the methods. -/
def memberLines : List String := constructorLine :: "" :: requestLines

def dataLine : String := "        const data = (await response.json()) as T;"

/-- What the cache makes of them. -/
def memberEdits : List LineEdit :=
  [added "  private readonly cache = new Map<string, unknown>();", added "", kept constructorLine,
    added "", added "  clearCache(): void \x7b", added "    this.cache.clear();", added "  \x7d",
    kept "", kept signatureLine,
    added "    const cacheable = (init?.method ?? 'GET').toUpperCase() === 'GET';",
    added "    if (cacheable && this.cache.has(path)) \x7b",
    added "      return this.cache.get(path) as T;", added "    \x7d"] ++
    attemptLines.map kept ++
    [changed answerLine dataLine, added "        if (cacheable) \x7b",
      added "          this.cache.set(path, data);", added "        \x7d", added "        return data;"] ++
    retryLines.map kept

def serviceEdits (c : RenderContext) : List LineEdit :=
  (headLines c).map kept ++ (memberEdits ++ (tailLines c).map kept)

theorem serviceLines_eq (c : RenderContext) : serviceLines c = headLines c ++ (memberLines ++ tailLines c) := by
  simp [serviceLines, memberLines]

theorem filterMap_serviceEdits {β : Type} (g : LineEdit → Option β) (c : RenderContext) :
    (serviceEdits c).filterMap g = (headLines c).filterMap (g ∘ kept) ++
      (memberEdits.filterMap g ++ (tailLines c).filterMap (g ∘ kept)) := by
  rw [serviceEdits, List.filterMap_append, List.filterMap_append, List.filterMap_map, List.filterMap_map]

theorem before_serviceEdits (c : RenderContext) : (serviceEdits c).filterMap before? = serviceLines c := by
  have hmembers : memberEdits.filterMap before? = memberLines := rfl
  rw [filterMap_serviceEdits, hmembers, serviceLines_eq]
  exact congrArg₂ (fun before after => before ++ (memberLines ++ after)) List.filterMap_some List.filterMap_some

theorem after_serviceEdits (c : RenderContext) : (serviceEdits c).filterMap after? =
    headLines c ++ (memberEdits.filterMap after? ++ tailLines c) := by
  rw [filterMap_serviceEdits]
  exact congrArg₂ (fun before after => before ++ (memberEdits.filterMap after? ++ after))
    List.filterMap_some List.filterMap_some

/-- What the edit does besides keeping lines, it does to the members. -/
theorem filterMap_serviceEdits_of_not_kept {β : Type} {g : LineEdit → Option β} (hg : ∀ l, g (kept l) = none)
    (c : RenderContext) : (serviceEdits c).filterMap g = memberEdits.filterMap g := by
  have hnone (ls : List String) : ls.filterMap (g ∘ kept) = [] :=
    List.filterMap_eq_nil_iff.2 fun l _ => hg l
  rw [filterMap_serviceEdits, hnone, hnone, List.nil_append, List.append_nil]

/-- A service as the cache finds it. -/
def laid (head tail : List Char) : Laid where
  head := head
  indent := "  ".toList
  parameters := "private readonly baseUrl: string = API_BASE_URL) \x7b\x7d".toList
  result := "path: string, init?: RequestInit): Promise<T> ".toList
  attempt := ofLines attemptLines
  deep := "        ".toList
  rest := '\n' :: ofLines retryLines ++ tail

/-! The texts below are fixed. Their literals are turned into characters first, for a literal that is left
would be decoded at every step of the computation. -/

theorem members_text : ofLines memberLines = (laid [] []).text := by
  unfold laid Laid.text Laid.constructorLine Laid.requestLines memberLines requestLines attemptLines retryLines
    constructorLine signatureLine answerLine ofLines ResponseCache.signature jsonReturn
  simp only [List.flatMap_cons, List.flatMap_nil, List.flatMap_append]
  repeat rw [String.toList_ofList]
  decide +kernel

theorem members_cached : ofLines (memberEdits.filterMap after?) = (laid [] []).cached := by
  unfold laid Laid.cached Laid.constructorLine Laid.requestLines clearMethod lookUp ResponseCache.store linesAt
    memberEdits attemptLines retryLines constructorLine signatureLine dataLine ofLines ResponseCache.signature
    cacheField
  simp only [List.map_cons, List.map_nil, List.cons_append, List.nil_append, List.filterMap_cons,
    List.filterMap_nil, after?]
  simp only [List.flatMap_cons, List.flatMap_nil]
  repeat rw [String.toList_ofList]
  decide +kernel

theorem tidy_memberLines : Tidy (ofLines memberLines) := by
  unfold memberLines requestLines attemptLines retryLines constructorLine signatureLine answerLine ofLines
  simp only [List.flatMap_cons, List.flatMap_nil, List.flatMap_append]
  repeat rw [String.toList_ofList]
  exact .of_settled (by decide +kernel) (by decide +kernel)

theorem tidy_editedLines : Tidy (ofLines (memberEdits.filterMap after?)) := by
  unfold memberEdits attemptLines retryLines constructorLine signatureLine dataLine ofLines
  simp only [List.map_cons, List.map_nil, List.cons_append, List.nil_append, List.filterMap_cons,
    List.filterMap_nil, after?]
  simp only [List.flatMap_cons, List.flatMap_nil]
  repeat rw [String.toList_ofList]
  exact .of_settled (by decide +kernel) (by decide +kernel)

theorem no_cache_memberLines : ∀ l ∈ memberLines, contains l.toList cacheField = false := by
  unfold memberLines requestLines attemptLines retryLines constructorLine signatureLine answerLine cacheField
  simp only [List.cons_append, List.nil_append, List.forall_mem_cons]
  repeat rw [String.toList_ofList]
  decide +kernel

/-- The lines before the return of the answer. -/
def beforeAnswer : List String := constructorLine :: "" :: signatureLine :: attemptLines

theorem no_answer_beforeAnswer : ∀ l ∈ beforeAnswer, contains l.toList jsonReturn = false := by
  unfold beforeAnswer attemptLines constructorLine signatureLine jsonReturn
  simp only [List.forall_mem_cons]
  repeat rw [String.toList_ofList]
  decide

theorem no_request_beforeRequest :
    ∀ l ∈ [constructorLine, ""], contains l.toList ResponseCache.signature = false := by
  unfold constructorLine ResponseCache.signature
  simp only [List.forall_mem_cons]
  repeat rw [String.toList_ofList]
  decide

theorem beforeAnswer_text : ofLines beforeAnswer ++ "        ".toList =
    (laid [] []).constructorLine ++ ((laid [] []).requestLines ++
      ((laid [] []).attempt ++ (laid [] []).deep)) := by
  unfold laid Laid.constructorLine Laid.requestLines beforeAnswer attemptLines constructorLine signatureLine
    ofLines ResponseCache.signature
  simp only [List.flatMap_cons, List.flatMap_nil]
  repeat rw [String.toList_ofList]
  rfl

theorem beforeRequest_text : ofLines [constructorLine, ""] ++ "  ".toList =
    (laid [] []).constructorLine ++ (['\n'] ++ "  ".toList) := by
  unfold laid Laid.constructorLine constructorLine ofLines
  simp only [List.flatMap_cons, List.flatMap_nil]
  repeat rw [String.toList_ofList]
  rfl

theorem laid_text (head tail : List Char) : (laid head tail).text = head ++ (ofLines memberLines ++ tail) := by
  rw [members_text]
  simp only [laid, Laid.text, Laid.constructorLine, Laid.requestLines, List.append_assoc, List.nil_append,
    List.append_nil, List.cons_append]

theorem laid_cached (head tail : List Char) :
    (laid head tail).cached = head ++ (ofLines (memberEdits.filterMap after?) ++ tail) := by
  rw [members_cached]
  simp only [laid, Laid.cached, Laid.constructorLine, Laid.requestLines, List.append_assoc, List.nil_append,
    List.append_nil, List.cons_append]

/-! ### What the lines lack -/

theorem contains_ofLines {word : List Char} (hline : '\n' ∉ word) (hne : word ≠ []) {ls : List String}
    (h : ∀ l ∈ ls, contains l.toList word = false) : contains (ofLines ls) word = false := by
  induction ls with
  | nil =>
    rw [Bool.eq_false_iff]
    intro hword
    exact hne (List.infix_nil.1 (contains_iff.1 hword))
  | cons l ls ih =>
    obtain ⟨hl, hrest⟩ := List.forall_mem_cons.1 h
    rw [ofLines_cons, List.append_assoc, List.singleton_append, contains_append_cons hline, hl, ih hrest]
    rfl

theorem firstAfter_ofLines {word text : List Char} (hline : '\n' ∉ word) (hne : word ≠ [])
    (htext : FirstAfter word text) {ls : List String} (h : ∀ l ∈ ls, contains l.toList word = false) :
    FirstAfter word (ofLines ls ++ text) := by
  induction ls with
  | nil => exact htext
  | cons l ls ih =>
    obtain ⟨hl, hrest⟩ := List.forall_mem_cons.1 h
    rw [ofLines_cons, List.append_assoc, List.append_assoc, List.singleton_append]
    exact (ih hrest).line hline hne hl

theorem endsLine_ofLines (ls : List String) : EndsLine (ofLines ls) := by
  induction ls with
  | nil => rfl
  | cons l ls ih =>
    have hline : EndsLine (l.toList ++ ['\n']) := by simp [EndsLine]
    exact hline.append ih

theorem anchored_laid (hclean : c.layout.Clean) (tail : List Char) :
    (laid (ofLines (headLines c)) tail).Anchored := by
  have hlacks {word : List Char} (hword : '(' ∈ word) {members : List String}
      (hmembers : ∀ l ∈ members, contains l.toList word = false) :
      ∀ l ∈ headLines c ++ members, contains l.toList word = false := by
    intro l hl
    rcases List.mem_append.1 hl with hl | hl
    · exact not_contains_of_mem hword (not_mem_headLines hclean (.inl rfl) l hl)
    · exact hmembers l hl
  constructor
  case head_ends => exact endsLine_ofLines _
  case attempt_ends => exact endsLine_ofLines _
  case indent =>
    show ∀ x ∈ "  ".toList, x = ' '
    exact List.all_iff_forall_prop.1 (by decide)
  case deep =>
    show ∀ x ∈ "        ".toList, x = ' '
    exact List.all_iff_forall_prop.1 (by decide)
  case parameters =>
    show '\n' ∉ "private readonly baseUrl: string = API_BASE_URL) \x7b\x7d".toList
    decide
  case result =>
    show '{' ∉ "path: string, init?: RequestInit): Promise<T> ".toList
    decide
  case constructor =>
    have htext : FirstAfter "constructor(".toList "  ".toList :=
      firstAfter_of_head (by decide) (List.all_iff_forall_prop.1 (by decide))
    have hfirst := firstAfter_ofLines (by decide) (by decide) htext (hlacks (by decide) (List.forall_mem_nil _))
    rwa [List.append_nil] at hfirst
  case request =>
    have htext : FirstAfter ResponseCache.signature "  ".toList :=
      firstAfter_of_head (by decide) (List.all_iff_forall_prop.1 (by decide))
    have hfirst := firstAfter_ofLines (by decide) (by decide) htext (hlacks (by decide) no_request_beforeRequest)
    rw [ofLines_append, List.append_assoc, beforeRequest_text, ← List.append_assoc] at hfirst
    exact hfirst
  case answer =>
    have htext : FirstAfter jsonReturn "        ".toList :=
      firstAfter_of_head (by decide) (List.all_iff_forall_prop.1 (by decide))
    have hfirst := firstAfter_ofLines (by decide) (by decide) htext (hlacks (by decide) no_answer_beforeAnswer)
    rw [ofLines_append, List.append_assoc, beforeAnswer_text, ← List.append_assoc, ← List.append_assoc] at hfirst
    exact hfirst

theorem no_cache_requestLine {m : ServiceMethod} (h : m.Sound) :
    contains ("    " ++ requestLine m.type m.path).toList cacheField = false := by
  have hpath : contains (escapeQuoted m.path.toList) cacheField = false := by
    by_contra hword
    have hfound := contains_of_contains_escapeQuoted (by decide) (by decide) (by decide)
      (Bool.not_eq_false _ ▸ hword)
    rw [h.no_cache] at hfound
    cases hfound
  -- The quotes cut the line into three pieces, none of which holds the field.
  have hstart : contains ("    return this.request<".toList ++ (m.type.toList ++ ">(".toList)) cacheField =
      false := by
    have htype := h.isName_type.not_mem (x := ',') (by decide)
    exact not_contains_of_mem (c := ',') (by decide) (by simp [htype])
  have hend : contains ");".toList cacheField = false := by decide
  have hline : ("    " ++ requestLine m.type m.path).toList =
      ("    return this.request<".toList ++ (m.type.toList ++ ">(".toList)) ++
        '\'' :: (escapeQuoted m.path.toList ++ '\'' :: ");".toList) := by
    rw [String.toList_append, toList_requestLine]
    simp
  rw [hline, contains_append_cons (by decide), contains_append_cons (by decide), hstart, hpath, hend]
  rfl

/-- The field of the cache is not in a service. -/
theorem no_cache_service (hclean : c.layout.Clean) (hmethods : ∀ m ∈ serviceMethods c, m.Sound) :
    contains (ofLines (serviceLines c)) cacheField = false := by
  refine contains_ofLines (by decide) (by decide) fun l hl => ?_
  have hinstance : contains (instanceLine c).toList cacheField = false := by
    have hname := hclean.isName_serviceClass.not_mem (x := '<') (by decide)
    have hcamel := hclean.isName_serviceInstance.not_mem (x := '<') (by decide)
    unfold instanceLine
    exact not_contains_of_mem (c := '<') (by decide) (by simp [String.toList_append, hname, hcamel])
  have hbetween : contains "".toList cacheField = false ∧ contains "  \x7d".toList cacheField = false ∧
      contains "\x7d".toList cacheField = false := by decide
  rw [serviceLines_eq, tailLines] at hl
  simp only [List.mem_append, List.mem_flatMap, List.mem_cons, List.not_mem_nil, or_false] at hl
  rcases hl with hl | hl | ⟨m, hm, rfl | hl⟩ | rfl | rfl | rfl
  · exact not_contains_of_mem (c := '<') (by decide) (not_mem_headLines hclean (.inr rfl) l hl)
  · exact no_cache_memberLines l hl
  · exact hbetween.1
  · have hheader : ',' ∉ ("  " ++ m.header).toList := by
      simp [String.toList_append, (hmethods m hm).no_comma]
    simp only [ServiceMethod.lines, List.mem_cons, List.not_mem_nil, or_false] at hl
    rcases hl with rfl | rfl | rfl
    · exact not_contains_of_mem (by decide) hheader
    · exact no_cache_requestLine (hmethods m hm)
    · exact hbetween.2.1
  · exact hbetween.2.2
  · exact hbetween.1
  · exact hinstance

theorem isApplicable_responseCache (s : String) :
    Pass.responseCache.isApplicable s = ResponseCache.isApplicable s.toList := rfl

theorem transform_responseCache (s : String) :
    Pass.responseCache.transform s = .ok ((ResponseCache.transform s.toList).map String.ofList) := rfl

/-- A service is balanced, the cache is put into it, and what comes out is balanced and takes no second
cache. The cache adds fourteen lines and writes the return of the answer anew. All other lines are kept, so
that without the added lines and with the return put back it is the service again. -/
theorem service_cached (f : Facts) (plan : ArtifactPlan)
    (hname : isIdentifier (pascalCase f.name.toList) = true)
    (hfield : ∀ e ∈ f.endpoints, contains e.toList cacheField = false) :
    ∃ text edits, service.render ⟨f, .ofName f.name f.tier, plan⟩ = .ok text ∧
      Pass.isBalancedText text = true ∧
      Pass.responseCache.isApplicable text = true ∧
      Pass.responseCache.transform text = .ok (.ok (textAfter edits)) ∧
      Pass.isBalancedText (textAfter edits) = true ∧
      Pass.responseCache.isApplicable (textAfter edits) = false ∧
      textBefore edits = text ∧
      edits.filterMap LineEdit.changed? = [("        return (await response.json()) as T;",
        "        const data = (await response.json()) as T;")] ∧
      edits.filterMap LineEdit.added? =
        ["  private readonly cache = new Map<string, unknown>();", "",
          "", "  clearCache(): void \x7b", "    this.cache.clear();", "  \x7d",
          "    const cacheable = (init?.method ?? 'GET').toUpperCase() === 'GET';",
          "    if (cacheable && this.cache.has(path)) \x7b",
          "      return this.cache.get(path) as T;", "    \x7d",
          "        if (cacheable) \x7b", "          this.cache.set(path, data);", "        \x7d",
          "        return data;"] := by
  let c : RenderContext := ⟨f, .ofName f.name f.tier, plan⟩
  have hclean : c.layout.Clean :=
    ArtifactLayout.clean_ofName (by rwa [ArtifactLayout.ofName, String.toList_ofList])
  have hmethods := serviceMethods_sound hclean hfield
  let l := laid (ofLines (headLines c)) (ofLines (tailLines c))
  have htext : (renderService c).toList = l.text := by
    rw [toList_renderService, laid_text, serviceLines_eq, ofLines_append, ofLines_append]
  have hcached : l.cached = ofLines ((serviceEdits c).filterMap LineEdit.after?) := by
    rw [laid_cached, after_serviceEdits, ofLines_append, ofLines_append]
  have hlacks : contains l.text cacheField = false := by
    rw [← htext, toList_renderService]
    exact no_cache_service hclean hmethods
  have hafter : (textAfter (serviceEdits c)).toList = l.cached := String.toList_ofList.trans hcached.symm
  refine ⟨renderService c, serviceEdits c, rfl, ?_, ?_, ?_, ?_, ?_, ?_, ?_, ?_⟩
  · rw [Pass.isBalancedText, toList_renderService, serviceLines_eq]
    exact isBalanced_service hclean hmethods tidy_memberLines
  · rw [isApplicable_responseCache, htext]
    exact Laid.isApplicable_text hlacks
  · rw [transform_responseCache, htext, (anchored_laid hclean _).transform_eq, hcached]
    rfl
  · rw [Pass.isBalancedText, hafter, hcached, after_serviceEdits]
    exact isBalanced_service hclean hmethods tidy_editedLines
  · rw [isApplicable_responseCache, hafter]
    exact Laid.not_isApplicable_cached l
  · rw [textBefore, before_serviceEdits, ← toList_renderService, String.ofList_toList]
  · exact filterMap_serviceEdits_of_not_kept (fun _ => rfl) c
  · exact filterMap_serviceEdits_of_not_kept (fun _ => rfl) c

/-- A component that fetches from an address with a quote and with brackets. -/
def quotedCard : Facts :=
  { name := "quoted-card", tier := .leaf, endpoints := ["https://shop.test/it's/[0]?q=\x7b", "/cards"] }

theorem quotedCard_cached : isIdentifier (pascalCase quotedCard.name.toList) = true ∧
    (∀ e ∈ quotedCard.endpoints, contains e.toList cacheField = false) ∧
    ∃ text edits, service.render ⟨quotedCard, .ofName "quoted-card" .leaf, {}⟩ = .ok text ∧
      Pass.responseCache.transform text = .ok (.ok (textAfter edits)) ∧
      Pass.isBalancedText (textAfter edits) = true ∧ textBefore edits = text := by
  have hname : isIdentifier (pascalCase quotedCard.name.toList) = true := by decide
  have hfield : ∀ e ∈ quotedCard.endpoints, contains e.toList cacheField = false := by decide
  obtain ⟨text, edits, hrender, -, -, htransform, hbalanced, -, hbefore, -⟩ :=
    service_cached quotedCard {} hname hfield
  exact ⟨hname, hfield, text, edits, hrender, htransform, hbalanced, hbefore⟩

end Template

end Recast
