import Recast.Proofs.Artifact.ServiceBrackets
import Recast.Proofs.Artifact.WrittenLines
import Recast.Proofs.Names.Reading
import Recast.Proofs.Suite.Scenarios
import Recast.Proofs.Text.Escapes

/-!
# The path that is requested and the one that is expected

A service requests its path in a literal that escapes it, and the test of the service expects the path in
a literal that does not. So the first stands for the path whatever that is, and the second exactly if there
is nothing to escape (`expects_requested_path_iff`).
-/

namespace Recast

open Text

namespace Text

/-- The text between the quotes of the literal with which the text begins, after `prev`. -/
def literalContents? (prev : Option Char) : List Char → Option (List Char)
  | '\'' :: r => (literal? prev ('\'' :: r)).map fun l => r.take (l.2 - 2)
  | _ => none

/-- What the literal stands for that is the first argument where `call` first stands. -/
def argument? (call text : List Char) : Option (List Char) :=
  (cut? text call).bind fun parts => (literalContents? call.getLast? parts.2).bind unescape?

theorem literalContents?_eq {prev : Option Char} (hprev : prev.any isIdentChar = false) (r : List Char) :
    literalContents? prev ('\'' :: r) = (stringLength? '\'' r).map fun n => r.take (n - 1) := by
  show (literal? prev ('\'' :: r)).map _ = _
  rw [literal?_string (.inl rfl), hprev, if_neg Bool.false_ne_true, Option.map_map]
  rfl

theorem argument?_of_firstAfter {call x r : List Char} (hcall : call.getLast? = some '(') (hx : FirstAfter call x) :
    argument? call (x ++ (call ++ '\'' :: r)) =
      ((stringLength? '\'' r).map fun n => r.take (n - 1)).bind unescape? := by
  have hcut : cut? (x ++ (call ++ '\'' :: r)) call = some (x, '\'' :: r) := by
    rw [cut?, hx, Option.map_some, List.take_left, ← List.drop_drop, List.drop_left, List.drop_left]
  rw [argument?, hcut, Option.bind_some, hcall, literalContents?_eq (by decide)]

/-- An escaped argument stands for the text that was escaped. -/
theorem argument?_escapeQuoted {call x : List Char} (hcall : call.getLast? = some '(') (hx : FirstAfter call x)
    (s rest : List Char) : argument? call (x ++ (call ++ '\'' :: (escapeQuoted s ++ '\'' :: rest))) = some s := by
  rw [argument?_of_firstAfter hcall hx, stringLength?_escapeQuoted, Option.map_some, Nat.add_sub_cancel,
    List.take_left, Option.bind_some, unescape_escapeQuoted]

/-- The text needs no escape between single quotes. -/
def IsLiteral (s : List Char) : Prop := '\\' ∉ s ∧ '\'' ∉ s ∧ '\n' ∉ s

theorem isLiteral_append_iff {s t : List Char} : IsLiteral (s ++ t) ↔ IsLiteral s ∧ IsLiteral t := by
  simp only [IsLiteral, List.mem_append, not_or]
  tauto

theorem IsLiteral.escapeQuoted {s : List Char} (h : IsLiteral s) : escapeQuoted s = s := by
  refine escapeQuoted_eq_self fun c hc => ?_
  unfold quotedChar
  split
  · exact absurd hc h.1
  · exact absurd hc h.2.1
  · exact absurd hc h.2.2
  · rfl

/-- An argument that is not escaped stands for a text with as much ink only if it needs no escape. -/
theorem isLiteral_of_argument? {call x p s v : List Char} (hcall : call.getLast? = some '(')
    (hx : FirstAfter call x) (hp : (ink p).length ≤ (ink s).length) (hv : stringLength? '\'' v = none)
    (h : argument? call (x ++ (call ++ '\'' :: (p ++ '\'' :: v))) = some s) : IsLiteral s := by
  rw [argument?_of_firstAfter hcall hx] at h
  obtain ⟨contents, hcontents, hs⟩ := Option.bind_eq_some_iff.1 h
  obtain ⟨n, hn, rfl⟩ := Option.map_eq_some_iff.1 hcontents
  have hle := stringLength?_le (by decide) (by decide) hv hn
  obtain ⟨k, rfl⟩ : ∃ k, n = k + 1 := by
    obtain ⟨u, -, -, rfl⟩ := FreeNames.stringLength?_split hn
    exact ⟨u.length, rfl⟩
  rw [Nat.add_sub_cancel] at hs
  have hshort : (ink ((p ++ '\'' :: v).take k)).length ≤ (ink p).length := by
    rw [List.take_append_of_le_length (by omega)]
    exact ((List.take_sublist k p).filter _).length_le
  have hink := ink_unescape hs
  -- An escape would cost ink that is not there.
  have hslash : '\\' ∉ (p ++ '\'' :: v).take k := by
    intro hmem
    rw [if_pos hmem] at hink
    omega
  rw [unescape_of_not_mem hslash, Option.some.injEq] at hs
  subst hs
  exact ⟨hslash, not_mem_of_stringLength? hn hslash⟩

/-- Lines lack a word of which a part is in none of them. -/
theorem lacks_of_part {part : String} {word : List Char} (hphrase : IsPhrase part.toList)
    (hpart : part.toList <:+: word) {ss : List String}
    (h : ∀ s ∈ ss, Str.contains s part = false) : ∀ l ∈ ss.flatMap Str.inkLines, contains l word = false := by
  intro l hl
  obtain ⟨s, hs, hl⟩ := List.mem_flatMap.1 hl
  refine Bool.eq_false_iff.2 fun hword => ?_
  have hin := (Str.contains_iff_inkLines hphrase).2
    ⟨l, hl, contains_iff.2 (hpart.trans (contains_iff.1 hword))⟩
  rw [h s hs] at hin
  cases hin

end Text

namespace TestSuite

/-- The parts of a written suite, in their order. -/
def aroundParts (opening : String) (ls : List String) : List String :=
  if ls.isEmpty then [] else opening :: (ls ++ ["\x7d);"])

def scenarioParts (t : Scenario) : List String := header t :: (t.body ++ ["\x7d);"])

def describeLine (s : TestSuite) : String := "describe('" ++ Str.title s.name ++ "', () => \x7b"

def parts (s : TestSuite) : List String :=
  Template.importNames s.usedGlobals "vitest" :: (s.imports ++ (s.preamble ++ (describeLine s ::
    (aroundParts "beforeEach(() => \x7b" s.setup ++ (aroundParts "afterEach(() => \x7b" s.teardown ++
      (s.tests.flatMap scenarioParts ++ ["\x7d);"]))))))

theorem inkLines_writeAround (b : CodeBuilder) (opening : String) (ls : List String) :
    (writeAround b opening ls).inkLines = b.inkLines ++ (aroundParts opening ls).flatMap Str.inkLines := by
  unfold writeAround aroundParts
  rw [CodeBuilder.inkLines_when]
  cases hempty : ls.isEmpty with
  | true => exact (List.append_nil _).symm
  | false =>
    simp [CodeBuilder.inkLines_foldl CodeBuilder.inkLines_lines]

theorem inkLines_writeScenario (b : CodeBuilder) (t : Scenario) :
    (writeScenario b t).inkLines = b.inkLines ++ (scenarioParts t).flatMap Str.inkLines := by
  simp [writeScenario, scenarioParts]

/-- A written suite holds its parts and nothing else. -/
theorem inkLines_code (s : TestSuite) : Str.inkLines s.code = s.parts.flatMap Str.inkLines := by
  have hpreamble (b : CodeBuilder) (block : String) :
      (b.lines block).blank.inkLines = b.inkLines ++ Str.inkLines block := by simp
  have hsuite : Str.inkLines s.suiteCode = (describeLine s ::
      (aroundParts "beforeEach(() => \x7b" s.setup ++ (aroundParts "afterEach(() => \x7b" s.teardown ++
        (s.tests.flatMap scenarioParts ++ ["\x7d);"])))).flatMap Str.inkLines := by
    unfold suiteCode
    simp only [CodeBuilder.inkLines_build, CodeBuilder.inkLines_block,
      CodeBuilder.inkLines_foldl inkLines_writeScenario, inkLines_writeAround, CodeBuilder.inkLines_opening]
    simp [describeLine, List.flatMap_assoc]
  unfold code
  simp only [CodeBuilder.inkLines_build, CodeBuilder.inkLines_lines, CodeBuilder.inkLines_foldl hpreamble, hsuite]
  simp [parts, List.flatMap_append]

end TestSuite

/-! ### The service -/

namespace Template

variable (c : RenderContext)

def requestCall (l : ArtifactLayout) : String := "return this.request<" ++ l.dataType ++ ">("

/-- The lines of a service before its first request. -/
def linesBeforeRequest : List String :=
  headLines c ++ constructorLine :: "" :: (requestLines ++
    ["", "  " ++ (c.layout.fetchMethod ++ "(): Promise<" ++ c.layout.dataType ++ "> \x7b")])

theorem exists_serviceLines : ∃ rest, serviceLines c = linesBeforeRequest c ++
    ("    " ++ requestLine c.layout.dataType (primaryPath c.facts c.layout)) :: rest := by
  refine ⟨"  \x7d" :: ((serviceMethods c).tail.flatMap (fun m => "" :: m.lines) ++ ["\x7d", "", instanceLine c]), ?_⟩
  simp [serviceLines, tailLines, serviceMethods, ServiceMethod.lines, linesBeforeRequest]

variable {c}

theorem toList_requestCall (l : ArtifactLayout) : (requestCall l).toList =
    "return this.request<".toList ++ (l.dataType.toList ++ ">(".toList) := by
  unfold requestCall
  rw [String.toList_append, String.toList_append, List.append_assoc]

set_option maxRecDepth 1000 in
theorem not_contains_request : ∀ s ∈ constructorLine :: "" :: (requestLines ++ [""]),
    Str.contains s "this.request<" = false := by
  unfold requestLines attemptLines retryLines constructorLine signatureLine answerLine
  simp only [List.cons_append, List.nil_append, List.forall_mem_cons]
  repeat' apply And.intro
  case right => simp
  all_goals exact Str.contains_of_chars rfl rfl (by decide)

theorem lacks_request (hclean : c.layout.Clean) :
    ∀ l ∈ (linesBeforeRequest c).flatMap Str.inkLines, contains l (requestCall c.layout).toList = false := by
  have hpart : "this.request<".toList <:+: (requestCall c.layout).toList := by
    have hreturn : "return this.request<".toList = "return ".toList ++ "this.request<".toList := by decide
    refine ⟨"return ".toList, c.layout.dataType.toList ++ ">(".toList, ?_⟩
    rw [toList_requestCall, hreturn, List.append_assoc]
  have hfetch : IsName c.layout.fetchMethod :=
    (IsName.append (by decide) hclean.isName_name).append (by decide)
  have hmethod : '.' ∉ ("  " ++ (c.layout.fetchMethod ++ "(): Promise<" ++ c.layout.dataType ++ "> \x7b")).toList := by
    have hfetch := hfetch.not_mem (x := '.') (by decide)
    have htype := hclean.isName_dataType.not_mem (x := '.') (by decide)
    simp [String.toList_append, hfetch, htype]
  refine lacks_of_part (by decide) hpart fun s hs => ?_
  rcases List.mem_append.1 hs with hs | hs
  · exact not_contains_of_mem (c := '<') (by decide) (not_mem_headLines hclean (.inr rfl) s hs)
  · have hsplit : s ∈ constructorLine :: "" :: (requestLines ++ [""]) ∨
        s = "  " ++ (c.layout.fetchMethod ++ "(): Promise<" ++ c.layout.dataType ++ "> \x7b") := by
      simpa only [List.mem_cons, List.mem_append, List.not_mem_nil, or_false, or_assoc] using hs
    rcases hsplit with hs | rfl
    · exact not_contains_request s hs
    · exact not_contains_of_mem (c := '.') (by decide) hmethod

theorem not_mem_feed_escapeQuoted (s : List Char) : '\n' ∉ escapeQuoted s := by
  intro h
  obtain ⟨c, -, hc⟩ := List.mem_flatMap.1 h
  unfold quotedChar at hc
  split at hc
  case h_4 hfeed => exact hfeed (List.mem_singleton.1 hc).symm
  all_goals exact absurd hc (by decide)

/-- The literal that the service requests stands for the path. -/
theorem argument?_renderService (hclean : c.layout.Clean) :
    argument? (requestCall c.layout).toList (renderService c).toList =
      some (primaryPath c.facts c.layout).toList := by
  let path := (primaryPath c.facts c.layout).toList
  have hname : '\n' ∉ c.layout.dataType.toList := hclean.isName_dataType.not_mem (by decide)
  have hphrase : IsPhrase (requestCall c.layout).toList := by
    rw [toList_requestCall]
    exact IsPhrase.append (by decide) hname (by decide)
  have hopening : IsPhrase ((requestCall c.layout).toList ++ ([] ++ ['\''])) :=
    hphrase.append (by simp) (by decide)
  have hlast : (requestCall c.layout).toList.getLast? = some '(' := by
    rw [toList_requestCall, List.getLast?_append, List.getLast?_append]
    rfl
  obtain ⟨rest, hrest⟩ := exists_serviceLines c
  have hrequest : Str.inkLines ("    " ++ requestLine c.layout.dataType (primaryPath c.facts c.layout)) =
      Text.inkLines (((requestCall c.layout).toList ++ ([] ++ ['\''])) ++ (escapeQuoted path ++ "');".toList)) := by
    rw [Str.inkLines, String.toList_append, Text.inkLines_blank_append (by decide), toList_requestLine,
      toList_requestCall]
    simp only [List.append_assoc, List.nil_append, path]
    rfl
  have hlines : Text.inkLines (renderService c).toList = (linesBeforeRequest c).flatMap Str.inkLines ++
      (Text.inkLines (((requestCall c.layout).toList ++ ([] ++ ['\''])) ++ (escapeQuoted path ++ "');".toList)) ++
        rest.flatMap Str.inkLines) := by
    show Str.inkLines (renderService c) = _
    rw [renderService_built, CodeBuilder.inkLines_build, ← hrequest, ← List.flatMap_cons, ← List.flatMap_append, ← hrest]
    rfl
  obtain ⟨x, p', y, htext, -, hp, hx, -, hstart, -⟩ := exists_phrase_of_inkLines hopening (by decide) hlines
  have hfirst := firstAfter_of_inkLines hphrase hstart (hx ▸ lacks_request hclean)
  have hliteral := argument?_escapeQuoted hlast hfirst path (");".toList ++ y)
  rw [htext, hp (not_mem_feed_escapeQuoted path), ← hliteral]
  simp

end Template

/-! ### Its test -/

theorem inkLines_body_ofBlocks (name : String) (kind : ScenarioKind) (blocks : List String) :
    (Scenario.ofBlocks name kind blocks).body.flatMap Str.inkLines = blocks.flatMap Str.inkLines := by
  unfold Scenario.ofBlocks
  rw [List.flatMap_assoc]
  exact List.flatMap_congr fun s _ => Str.flatMap_inkLines_lines s

namespace ServiceSuite

def expectCall : String := "expect(fetch).toHaveBeenCalledWith("

def expectEnd : String := "', expect.objectContaining(\x7b headers: expect.any(Object) \x7d));"

/-- The parts that are the same in every test of a service. -/
def fixedParts : List String :=
  ["beforeEach(() => \x7b", "vi.stubGlobal('fetch', vi.fn());", "vi.useFakeTimers();", "\x7d);",
    "afterEach(() => \x7b", "vi.useRealTimers();", "vi.unstubAllGlobals();", "\x7d);",
    "it('fetches data from the primary endpoint', async () => \x7b", answers "jsonResponse([\x7b id: 1 \x7d])"]

/-- The parts of the test before it says which address it expects. -/
def partsBefore (c : SuiteContext) : List String :=
  [Template.importNames (build c).usedGlobals "vitest",
    c.importNames [c.layout.serviceClass, c.layout.serviceInstance] .service, jsonResponse,
    "describe('" ++ Str.title c.layout.serviceClass ++ "', () => \x7b"] ++ fixedParts ++
  ["const service = new " ++ c.layout.serviceClass ++ "('" ++ baseUrl ++ "');",
    "await expect(" ++ ("service." ++ c.layout.fetchMethod ++ "()") ++ ").resolves.toEqual([\x7b id: 1 \x7d]);"]

theorem exists_inkLines_code (c : SuiteContext) : ∃ rest : List String,
    Str.inkLines (build c).code = (partsBefore c).flatMap Str.inkLines ++
      (Text.inkLines ((expectCall.toList ++ ('\'' :: baseUrl.toList)) ++
        ((Template.primaryPath c.facts c.layout).toList ++ expectEnd.toList)) ++
          ("\x7d);" :: rest).flatMap Str.inkLines) := by
  obtain ⟨first, more, hscenarios, hheader, hbody⟩ : ∃ first more, scenarios c = first :: more ∧
      TestSuite.header first = "it('fetches data from the primary endpoint', async () => \x7b" ∧
      first.body.flatMap Str.inkLines = [answers "jsonResponse([\x7b id: 1 \x7d])",
        "const service = new " ++ c.layout.serviceClass ++ "('" ++ baseUrl ++ "');",
        "await expect(" ++ ("service." ++ c.layout.fetchMethod ++ "()") ++ ").resolves.toEqual([\x7b id: 1 \x7d]);"].flatMap
          Str.inkLines ++
        Text.inkLines ((expectCall.toList ++ ('\'' :: baseUrl.toList)) ++
          ((Template.primaryPath c.facts c.layout).toList ++ expectEnd.toList)) := by
    have htitle : "it('" ++ Str.title "fetches data from the primary endpoint" ++ "', " ++ "async " ++ "() => \x7b" =
        "it('fetches data from the primary endpoint', async () => \x7b" := by decide
    refine ⟨_, _, rfl, htitle, ?_⟩
    have hcall : ("expect(fetch).toHaveBeenCalledWith('" ++ baseUrl ++ Template.primaryPath c.facts c.layout ++
        expectEnd).toList = (expectCall.toList ++ ('\'' :: baseUrl.toList)) ++
          ((Template.primaryPath c.facts c.layout).toList ++ expectEnd.toList) := by
      have hopening : "expect(fetch).toHaveBeenCalledWith('".toList = expectCall.toList ++ ['\''] := by decide
      rw [String.toList_append, String.toList_append, String.toList_append, hopening]
      simp only [List.append_assoc, List.singleton_append]
    rw [← hcall]
    refine (inkLines_body_ofBlocks "fetches data from the primary endpoint" .data _).trans ?_
    simp only [List.flatMap_cons, List.flatMap_nil, List.append_nil, List.append_assoc]
    rfl
  have htests : (build c).tests = scenarios c := rfl
  refine ⟨more.flatMap TestSuite.scenarioParts ++ ["\x7d);"], ?_⟩
  rw [TestSuite.inkLines_code, TestSuite.parts, htests, hscenarios, List.flatMap_cons]
  simp only [List.flatMap_append, List.flatMap_cons, hbody, TestSuite.scenarioParts, hheader]
  simp [partsBefore, fixedParts, build, TestSuite.aroundParts, TestSuite.describeLine]

/-- The test imports the service from the directory above its own. -/
theorem toList_importPath {c : SuiteContext} (hclean : c.layout.Clean) (htarget : c.target = .service) :
    (c.importPath .service).toList = "../".toList ++ c.layout.serviceInstance.toList := by
  obtain ⟨-, hparent, hstem⟩ := hclean.segments_eq (hclean.toList_pathFor .service)
  have hbetween : Segment.between ((c.layout.dirs .service ++ ["__tests__".toList]).map Segment.name)
      ((c.layout.dirs .service).map Segment.name) = [['.', '.']] := by
    simp [Segment.between, Segment.commonLength, ArtifactLayout.dirs, Segment.text]
  have hbase : c.layout.base .service = c.layout.serviceInstance.toList := rfl
  rw [SuiteContext.importPath, SuiteContext.testPath, htarget, String.toList_ofList, Segment.importPath,
    hclean.parent_testPathFor, hparent, hstem, hbetween, hbase]
  rfl

/-- Import lines hold no call. -/
theorem paren_not_mem_importNames {names : List String} {origin : String} (hnames : ∀ n ∈ names, ')' ∉ n.toList)
    (horigin : ')' ∉ origin.toList) : ')' ∉ (Template.importNames names origin).toList := by
  have hlist := Str.not_mem_intercalate (show ')' ∉ ", ".toList by decide) hnames
  simp only [Template.importNames, Str.braced, String.toList_append, List.mem_append, not_or]
  exact ⟨⟨⟨⟨by decide, ⟨by decide, ⟨by decide, hlist⟩, by decide⟩, by decide⟩, by decide⟩, horigin⟩, by decide⟩

theorem dot_not_mem_title {s : String} (h : '.' ∉ s.toList) : '.' ∉ (Str.title s).toList := by
  rw [Str.title, String.toList_ofList]
  intro hmem
  obtain ⟨c, hc, hmem⟩ := List.mem_flatMap.1 hmem
  unfold titleChar quotedChar at hmem
  split at hmem
  · exact absurd hmem (by decide)
  · split at hmem
    case h_4 => exact h (List.mem_singleton.1 hmem ▸ hc)
    all_goals exact absurd hmem (by decide)

theorem lacks_expectCall {c : SuiteContext} (hclean : c.layout.Clean) (htarget : c.target = .service) :
    ∀ l ∈ (partsBefore c).flatMap Str.inkLines, contains l expectCall.toList = false := by
  have hpart : "h).t".toList <:+: expectCall.toList :=
    ⟨"expect(fetc".toList, "oHaveBeenCalledWith(".toList, by decide⟩
  have hclass (x : Char) (hx : isIdentChar x = false) := hclean.isName_serviceClass.not_mem hx
  have hfetch : IsName c.layout.fetchMethod := (IsName.append (by decide) hclean.isName_name).append (by decide)
  have hglobals : ')' ∉ (Template.importNames (build c).usedGlobals "vitest").toList := by
    refine paren_not_mem_importNames (fun n hn => ?_) (by decide)
    have hall : ∀ n ∈ TestSuite.globals, ')' ∉ n.toList := by decide
    exact hall n (List.mem_filter.1 hn).1
  have himport : ')' ∉ (c.importNames [c.layout.serviceClass, c.layout.serviceInstance] .service).toList := by
    have hinstance := hclean.isName_serviceInstance.not_mem (x := ')') (by decide)
    refine paren_not_mem_importNames ?_ ?_
    · simpa using ⟨hclass ')' (by decide), hinstance⟩
    · rw [toList_importPath hclean htarget]
      simp [hinstance]
  have hdescribe : '.' ∉ ("describe('" ++ Str.title c.layout.serviceClass ++ "', () => \x7b").toList := by
    simp only [String.toList_append, List.mem_append, not_or]
    exact ⟨⟨by decide, dot_not_mem_title (hclass '.' (by decide))⟩, by decide⟩
  have hclient : Str.contains ("const service = new " ++ c.layout.serviceClass ++ "('" ++ baseUrl ++ "');")
      "h).t" = false := by
    have htext : ("const service = new " ++ c.layout.serviceClass ++ "('" ++ baseUrl ++ "');").toList =
        ("const service = new ".toList ++ c.layout.serviceClass.toList ++ ['(']) ++
          '\'' :: (baseUrl.toList ++ "');".toList) := by
      simp [String.toList_append]
    have hnew : '.' ∉ "const service = new ".toList ++ c.layout.serviceClass.toList ++ ['('] := by
      simp only [List.mem_append, not_or]
      exact ⟨⟨by decide, hclass '.' (by decide)⟩, by decide⟩
    rw [Str.contains, htext, contains_append_cons (by decide), not_contains_of_mem (c := '.') (by decide) hnew]
    decide
  have hresolves : Str.contains ("await expect(" ++ ("service." ++ c.layout.fetchMethod ++ "()") ++
      ").resolves.toEqual([\x7b id: 1 \x7d]);") "h).t" = false := by
    have htext : ("await expect(" ++ ("service." ++ c.layout.fetchMethod ++ "()") ++
        ").resolves.toEqual([\x7b id: 1 \x7d]);").toList = "await expect".toList ++
          '(' :: (("service.".toList ++ c.layout.fetchMethod.toList) ++
            '(' :: ")).resolves.toEqual([\x7b id: 1 \x7d]);".toList) := by
      simp [String.toList_append]
    have hmethod : ')' ∉ "service.".toList ++ c.layout.fetchMethod.toList := by
      rw [List.mem_append, not_or]
      exact ⟨by decide, hfetch.not_mem (by decide)⟩
    rw [Str.contains, htext, contains_append_cons (by decide), contains_append_cons (by decide),
      not_contains_of_mem (c := ')') (by decide) hmethod]
    decide
  have hfixed : ∀ s ∈ fixedParts, Str.contains s "h).t" = false := by decide
  refine lacks_of_part (by decide) hpart ?_
  simp only [partsBefore, List.forall_mem_append, List.forall_mem_cons]
  exact ⟨⟨⟨not_contains_of_mem (c := ')') (by decide) hglobals, not_contains_of_mem (c := ')') (by decide) himport,
    by decide +kernel, not_contains_of_mem (c := '.') (by decide) hdescribe, by simp⟩, hfixed⟩,
    hclient, hresolves, by simp⟩

/-- The literal of the test stands for the address exactly if nothing in the path needs an escape. -/
theorem argument?_code_iff {c : SuiteContext} (hclean : c.layout.Clean) (htarget : c.target = .service) :
    argument? expectCall.toList (build c).code.toList =
        some (baseUrl.toList ++ (Template.primaryPath c.facts c.layout).toList) ↔
      IsLiteral (Template.primaryPath c.facts c.layout).toList := by
  let path := (Template.primaryPath c.facts c.layout).toList
  obtain ⟨rest, hlines⟩ := exists_inkLines_code c
  obtain ⟨x, p, y, htext, hink, hsame, hx, hy, hstart, hend⟩ :=
    exists_phrase_of_inkLines (by decide) (by decide) hlines
  have hfirst := firstAfter_of_inkLines (by decide) hstart (hx ▸ lacks_expectCall hclean htarget)
  have hcode : (build c).code.toList =
      x ++ (expectCall.toList ++ '\'' :: ((baseUrl.toList ++ p) ++ '\'' :: (expectEnd.toList.tail ++ y))) := by
    rw [htext]
    simp [expectEnd]
  have hlast : expectCall.toList.getLast? = some '(' := by decide
  have hbase : IsLiteral baseUrl.toList := by unfold IsLiteral; decide
  constructor
  · intro h
    rw [hcode] at h
    -- Behind the address its line goes on without another quote, and then ends.
    have hrest : stringLength? '\'' (expectEnd.toList.tail ++ y) = none := by
      obtain ⟨v, hv, rfl | ⟨r, rfl⟩⟩ := hend
      · have hclose : Str.inkLines "\x7d);" = ["\x7d);".toList] := by decide
        rw [inkLines_of_blank hv, List.flatMap_cons, hclose] at hy
        cases hy
      · have hblank {c : Char} (hc : isBlank c = false) : c ∉ v := fun hmem => by
          rw [List.all_eq_true.1 hv c hmem] at hc
          cases hc
        rw [← List.append_assoc]
        refine stringLength?_line ?_ ?_ r
        · exact fun hmem => (List.mem_append.1 hmem).elim (by decide) (hblank (by decide))
        · exact fun hmem => (List.mem_append.1 hmem).elim (by decide) (hblank (by decide))
    have hle : (ink (baseUrl.toList ++ p)).length ≤ (ink (baseUrl.toList ++ path)).length := by
      rw [ink_append, ink_append, hink]
    exact (isLiteral_append_iff.1 (isLiteral_of_argument? hlast hfirst hle hrest h)).2
  · intro h
    have hliteral : IsLiteral (baseUrl.toList ++ path) := isLiteral_append_iff.2 ⟨hbase, h⟩
    have hargument := argument?_escapeQuoted hlast hfirst (baseUrl.toList ++ path) (expectEnd.toList.tail ++ y)
    rw [hliteral.escapeQuoted] at hargument
    rw [hcode, hsame h.2.2]
    exact hargument

end ServiceSuite

open Template in
/-- A generated service requests the path of the component in a literal that stands for it, and the test
that is generated for the service expects the request of that path in a literal that stands for the address
exactly if the path holds no backslash, no quote and no line feed. -/
theorem expects_requested_path_iff {config : Config} {f : Facts} {files tests : List GeneratedFile}
    (hfiles : ({ config } : Synthesizer).generate f = .ok files) (htests : TestSuite.generate f files = .ok tests)
    (hservice : (({ config } : Synthesizer).plan f).service = true) :
    let layout := ArtifactLayout.ofName f.name f.tier
    let path := (primaryPath f layout).toList
    ∃ service ∈ files, ∃ test ∈ tests, service.kind = .service ∧
      TestSuite.IsTestOf f (({ config } : Synthesizer).plan f) service test ∧
      argument? (requestCall layout).toList service.content.toList = some path ∧
      (argument? ServiceSuite.expectCall.toList test.content.toList =
        some (ServiceSuite.baseUrl.toList ++ path) ↔ '\\' ∉ path ∧ '\'' ∉ path ∧ '\n' ∉ path) := by
  obtain ⟨hname, rfl⟩ := Synthesizer.generate_eq_ok_iff.1 hfiles
  rw [RenderContext.generate_tests_eq] at htests
  cases htests
  have hclean : (contextOf config f).layout.Clean := ArtifactLayout.clean_ofName hname
  have hkind : ArtifactKind.service ∈ (contextOf config f).kinds := RenderContext.mem_kinds_iff.2 hservice
  have hservice := argument?_renderService (c := contextOf config f) hclean
  have htest := ServiceSuite.argument?_code_iff (c := (contextOf config f).suiteContext .service) hclean rfl
  have hcode : ((contextOf config f).test .service).content =
      (ServiceSuite.build ((contextOf config f).suiteContext .service)).code := rfl
  refine ⟨(contextOf config f).artifact .service, List.mem_map_of_mem hkind, (contextOf config f).test .service,
    List.mem_map_of_mem hkind, rfl, RenderContext.isTestOf_test hkind, hservice, ?_⟩
  rw [hcode]
  exact htest

/-- A component that requests a path with a line feed before its query. -/
def pagedUsers : Facts :=
  { Facts.bare "Panel" with features := { remoteData := true }, endpoints := ["/api/users\n?page=1"] }

open Template in
/-- The line feed ends the literal in the test. -/
theorem pagedUsers_not_expected : ∃ files tests, ({ config := {} } : Synthesizer).generate pagedUsers = .ok files ∧
    TestSuite.generate pagedUsers files = .ok tests ∧
    (({ config := {} } : Synthesizer).plan pagedUsers).service = true ∧
    ∃ service ∈ files, ∃ test ∈ tests, service.kind = .service ∧
      argument? (requestCall (.ofName "Panel" pagedUsers.tier)).toList service.content.toList =
        some "/api/users\n?page=1".toList ∧
      argument? ServiceSuite.expectCall.toList test.content.toList ≠
        some "http://api.test/api/users\n?page=1".toList := by
  have hname : isIdentifier (contextOf {} pagedUsers).layout.name.toList = true := by decide
  have hfiles : ({ config := {} } : Synthesizer).generate pagedUsers = .ok (contextOf {} pagedUsers).artifacts :=
    Synthesizer.generate_eq_ok_iff.2 ⟨hname, rfl⟩
  have htests := RenderContext.generate_tests_eq {} pagedUsers
  have hservice : (({ config := {} } : Synthesizer).plan pagedUsers).service = true := by decide
  have hpath : (primaryPath pagedUsers (.ofName pagedUsers.name pagedUsers.tier)).toList =
      "/api/users\n?page=1".toList := by decide
  obtain ⟨service, hs, test, ht, hkind, -, hrequested, hexpected⟩ :=
    expects_requested_path_iff hfiles htests hservice
  rw [hpath] at hrequested hexpected
  refine ⟨_, _, hfiles, htests, hservice, service, hs, test, ht, hkind, hrequested, fun h => ?_⟩
  exact absurd (hexpected.1 h).2.2 (by decide)

end Recast
