import Recast.Proofs.Artifact.Exports

/-!
# The text of a service

A service is written line by line: its imports and constants, the class with its constructor
and its request method, a method for each endpoint, and the instance that is imported by the
other artifacts (`toList_renderService`).
-/

namespace Recast

namespace CodeBuilder

/-! ### One operation after the other -/

theorem line_of_visible {s : String} (h : Str.isBlank s = false) (ws : List String) (d : Nat) :
    line ⟨ws, d⟩ s = ⟨ws ++ [indentation d ++ s], d⟩ := by
  simp [line, h]

theorem indented_ne {s : String} (h : Str.isBlank s = false) (d : Nat) : indentation d ++ s ≠ "" := by
  intro hempty
  obtain ⟨-, rfl⟩ : indentation d = "" ∧ s = "" := by simpa using congrArg String.toList hempty
  cases h

theorem opening_of_visible {s : String} (h : Str.isBlank s = false) (ws : List String) (d : Nat) :
    opening ⟨ws, d⟩ s = ⟨ws ++ [indentation d ++ s], d + 1⟩ := by
  rw [opening, line_of_visible h]

theorem branch_of_visible {s : String} (h : Str.isBlank s = false) (ws : List String) (d : Nat) :
    branch ⟨ws, d + 1⟩ s = ⟨ws ++ [indentation d ++ s], d + 1⟩ := by
  rw [branch, Nat.add_sub_cancel, line_of_visible h]

theorem blank_of_visible {s : String} (h : s ≠ "") (ws : List String) (d : Nat) :
    blank ⟨ws ++ [s], d⟩ = ⟨ws ++ [s] ++ [""], d⟩ := by
  simp [blank, endsBlank, h]

theorem closing_of_visible {s footer : String} (h : s ≠ "") (hf : Str.isBlank footer = false)
    (ws : List String) (d : Nat) :
    closing ⟨ws ++ [s], d + 1⟩ footer = ⟨ws ++ [s] ++ [indentation d ++ footer], d⟩ := by
  have hends : endsBlank ⟨ws ++ [s], d + 1⟩ = false := by simp [endsBlank, h]
  rw [closing, hends, if_neg Bool.false_ne_true, Nat.add_sub_cancel, line_of_visible hf]

/-! ### The finished text -/

theorem toList_build {b : CodeBuilder} (h : b.finished ≠ []) :
    b.build.toList = b.finished.flatMap fun l => l.toList ++ ['\n'] := by
  have hjoin : ∀ {ls : List String}, ls ≠ [] →
      ['\n'].intercalate (ls.map String.toList) ++ ['\n'] = ls.flatMap fun l => l.toList ++ ['\n'] := by
    intro ls hls
    induction ls with
    | nil => exact absurd rfl hls
    | cons l ls ih =>
      cases ls with
      | nil => simp
      | cons l' ls =>
        rw [List.map_cons, List.map_cons, List.intercalate_cons_cons, ← List.map_cons, List.append_assoc,
          ih (List.cons_ne_nil l' ls)]
        rfl
  rw [build, String.toList_append, String.toList_intercalate]
  exact hjoin h

theorem collapse_visible {s : String} (h : s ≠ "") (afterBlank : Bool) (rest : List String) :
    collapse afterBlank (s :: rest) = s :: collapse false rest := by
  have hempty : s.isEmpty = false := by simpa using h
  rw [collapse, hempty]
  rfl

theorem collapse_blank (rest : List String) : collapse false ("" :: rest) = "" :: collapse true rest := rfl

theorem trimmed_concat {s : String} (h : s ≠ "") (ls : List String) : trimmed (ls ++ [s]) = ls ++ [s] := by
  have hempty : s.isEmpty = false := by simpa using h
  unfold trimmed
  rw [List.reverse_concat, List.dropWhile_cons_of_neg (by simp [hempty]), List.reverse_cons,
    List.reverse_reverse]

end CodeBuilder

namespace Template

open CodeBuilder

/-! ### The lines of a service -/

def constructorLine : String := "  constructor(private readonly baseUrl: string = API_BASE_URL) \x7b\x7d"

def signatureLine : String :=
  "  private async request<T>(path: string, init?: RequestInit): Promise<T> \x7b"

/-- The request method from its first statement up to the return of the answer. -/
def attemptLines : List String :=
  ["    let lastError: unknown;",
    "    for (let attempt = 0; attempt <= MAX_RETRIES; attempt++) \x7b",
    "      try \x7b",
    "        const response = await fetch(`$\x7bthis.baseUrl\x7d$\x7bpath\x7d`, \x7b",
    "          ...init,",
    "          headers: \x7b 'Content-Type': 'application/json', ...init?.headers \x7d,",
    "        \x7d);",
    "        if (!response.ok) \x7b",
    "          throw new Error(`Request to $\x7bpath\x7d failed with status $\x7bresponse.status\x7d`);",
    "        \x7d"]

def answerLine : String := "        return (await response.json()) as T;"

/-- The request method behind the return of the answer. -/
def retryLines : List String :=
  ["      \x7d catch (error) \x7b",
    "        lastError = error;",
    "        if (attempt < MAX_RETRIES) \x7b",
    "          await new Promise((resolve) => setTimeout(resolve, RETRY_DELAY_MS * 2 ** attempt));",
    "        \x7d",
    "      \x7d",
    "    \x7d",
    "    throw lastError;",
    "  \x7d"]

def requestLines : List String := signatureLine :: (attemptLines ++ answerLine :: retryLines)

theorem requestMethod_mk (ws : List String) : requestMethod ⟨ws, 1⟩ = ⟨ws ++ requestLines, 1⟩ := by
  simp (disch := decide) only [requestMethod, block, lineEach, List.foldl_cons, List.foldl_nil,
    line_of_visible, opening_of_visible, branch_of_visible, closing_of_visible]
  simp only [List.append_assoc, List.singleton_append]
  refine congrArg (fun lines => (⟨ws ++ lines, 1⟩ : CodeBuilder)) ?_
  decide

/-- A method that requests a path. -/
structure ServiceMethod where
  header : String
  type : String
  path : String

def ServiceMethod.lines (m : ServiceMethod) : List String :=
  ["  " ++ m.header, "    " ++ requestLine m.type m.path, "  \x7d"]

def furtherMethod (method path : String) : ServiceMethod :=
  ⟨method ++ "<T = unknown>(): Promise<T> \x7b", "T", path⟩

/-- The methods of a service, each with the path that it requests. -/
def serviceMethods (c : RenderContext) : List ServiceMethod :=
  ⟨c.layout.fetchMethod ++ "(): Promise<" ++ c.layout.dataType ++ "> \x7b", c.layout.dataType,
      primaryPath c.facts c.layout⟩ ::
    (furtherMethods [c.layout.fetchMethod] ((endpointPaths c.facts).drop 1)).map fun (method, path) =>
      furtherMethod method path

/-- Where the type of the data comes from. -/
def dataTypeLine (c : RenderContext) : String :=
  if c.plan.types && c.declaresData then importTypes [c.layout.dataType] (c.importPath .service .types)
  else "export type " ++ c.layout.dataType ++ " = unknown;"

def classLine (c : RenderContext) : String := "export class " ++ c.layout.serviceClass ++ " \x7b"

def instanceLine (c : RenderContext) : String :=
  "export const " ++ c.layout.serviceInstance ++ " = new " ++ c.layout.serviceClass ++ "();"

/-- The lines up to the constructor. -/
def headLines (c : RenderContext) : List String :=
  [dataTypeLine c, "", "const API_BASE_URL = import.meta.env.VITE_API_URL ?? '';",
    "const MAX_RETRIES = 3;", "const RETRY_DELAY_MS = 500;", "", classLine c]

/-- The lines behind the request method. -/
def tailLines (c : RenderContext) : List String :=
  ((serviceMethods c).flatMap fun m => "" :: m.lines) ++ ["\x7d", "", instanceLine c]

def serviceLines (c : RenderContext) : List String :=
  headLines c ++ constructorLine :: "" :: (requestLines ++ tailLines c)

theorem isBlank_requestLine (type path : String) : Str.isBlank (requestLine type path) = false := by
  have hreturn : Str.isBlank "return this.request<" = false := by decide
  unfold requestLine
  exact Str.isBlank_append_left (Str.isBlank_append_left (Str.isBlank_append_left
    (Str.isBlank_append_left hreturn type) _) _) _

theorem indentation_one : indentation 1 = "  " := by decide

theorem indentation_two : indentation (1 + 1) = "    " := by decide

theorem block_method (m : ServiceMethod) (hm : Str.isBlank m.header = false) (ws : List String) :
    block ⟨ws, 1⟩ m.header "\x7d" (fun b => b.line (requestLine m.type m.path)) =
      ⟨ws ++ m.lines, 1⟩ := by
  have hrequest := isBlank_requestLine m.type m.path
  have hend : "  " ++ "\x7d" = "  \x7d" := by decide
  rw [block, opening_of_visible hm, line_of_visible hrequest,
    closing_of_visible (indented_ne hrequest _) (by decide), indentation_one, indentation_two, hend]
  simp only [List.append_assoc, List.cons_append, List.nil_append, ServiceMethod.lines]

def withFurther (b : CodeBuilder) (m : String × String) : CodeBuilder :=
  b.blank.block (m.1 ++ "<T = unknown>(): Promise<T> \x7b") "\x7d" fun b => b.line (requestLine "T" m.2)

/-- The further methods, each after a blank line. -/
theorem foldl_withFurther (ms : List (String × String)) {s : String} (hs : s ≠ "") (ws : List String) :
    ms.foldl withFurther ⟨ws ++ [s], 1⟩ =
      ⟨ws ++ [s] ++ (ms.map fun m => furtherMethod m.1 m.2).flatMap fun m => "" :: m.lines, 1⟩ := by
  induction ms generalizing ws s with
  | nil => rw [List.map_nil, List.flatMap_nil, List.append_nil, List.foldl_nil]
  | cons m ms ih =>
    have hheader : Str.isBlank (furtherMethod m.1 m.2).header = false :=
      Str.isBlank_append_right (by decide) _
    have hblock := block_method (furtherMethod m.1 m.2) hheader (ws ++ [s] ++ [""])
    have hstep : withFurther ⟨ws ++ [s], 1⟩ m =
        ⟨ws ++ [s] ++ [""] ++ (furtherMethod m.1 m.2).lines, 1⟩ := by
      rw [withFurther, blank_of_visible hs]
      exact hblock
    have hlines : ws ++ [s] ++ [""] ++ (furtherMethod m.1 m.2).lines =
        ws ++ [s] ++ [""] ++ ["  " ++ (furtherMethod m.1 m.2).header,
          "    " ++ requestLine "T" m.2] ++ ["  \x7d"] := by
      simp [ServiceMethod.lines, furtherMethod]
    rw [List.foldl_cons, hstep, hlines, ih (by decide)]
    simp [ServiceMethod.lines, furtherMethod]

/-! ### Writing them -/

variable (c : RenderContext)

theorem isBlank_dataTypeLine : Str.isBlank (dataTypeLine c) = false := by
  unfold dataTypeLine
  split
  · exact Str.isBlank_append_right (by decide) _
  · exact Str.isBlank_append_right (by decide) _

theorem isBlank_classLine : Str.isBlank (classLine c) = false := Str.isBlank_append_right (by decide) _

theorem isBlank_instanceLine : Str.isBlank (instanceLine c) = false := Str.isBlank_append_right (by decide) _

theorem serviceHead_empty : serviceHead c {} = ⟨[dataTypeLine c], 0⟩ := by
  have hline : (CodeBuilder.line {} (dataTypeLine c)) = ⟨[dataTypeLine c], 0⟩ := by
    rw [line_of_visible (isBlank_dataTypeLine c), indentation_zero, String.empty_append]
    rfl
  rw [← hline]
  unfold serviceHead dataTypeLine
  split <;> rfl

theorem serviceConstants_mk {s : String} (hs : s ≠ "") (ws : List String) :
    serviceConstants ⟨ws ++ [s], 0⟩ = ⟨ws ++ [s] ++
      ["", "const API_BASE_URL = import.meta.env.VITE_API_URL ?? '';", "const MAX_RETRIES = 3;",
        "const RETRY_DELAY_MS = 500;", ""], 0⟩ := by
  have hretries : "const MAX_RETRIES = " ++ toString maxRetries ++ ";" = "const MAX_RETRIES = 3;" := by decide
  have hdelay : "const RETRY_DELAY_MS = " ++ toString retryDelayMs ++ ";" = "const RETRY_DELAY_MS = 500;" := by
    decide
  rw [serviceConstants, blank_of_visible hs, hretries, hdelay]
  simp (disch := decide) only [lineEach, List.foldl_cons, List.foldl_nil, line_of_visible, indentation_zero,
    String.empty_append, blank_of_visible]
  simp only [List.append_assoc, List.cons_append, List.nil_append]

/-- What stands between the lines of the class. -/
def bodyLines : List String :=
  constructorLine :: "" :: (requestLines ++ (serviceMethods c).flatMap fun m => "" :: m.lines)

theorem serviceBody_mk (ws : List String) : serviceBody c ⟨ws, 1⟩ = ⟨ws ++ bodyLines c, 1⟩ := by
  let first : ServiceMethod := ⟨c.layout.fetchMethod ++ "(): Promise<" ++ c.layout.dataType ++ "> \x7b",
    c.layout.dataType, primaryPath c.facts c.layout⟩
  have hheader : Str.isBlank first.header = false := Str.isBlank_append_right (by decide) _
  have hconstructor : (CodeBuilder.line ⟨ws, 1⟩
      "constructor(private readonly baseUrl: string = API_BASE_URL) \x7b\x7d").blank =
      ⟨ws ++ [constructorLine, ""], 1⟩ := by
    have hindent : indentation 1 ++ "constructor(private readonly baseUrl: string = API_BASE_URL) \x7b\x7d" =
        constructorLine := by decide
    rw [line_of_visible (by decide), hindent, blank_of_visible (by decide), List.append_assoc,
      List.singleton_append]
  have hrequest : (requestMethod ⟨ws ++ [constructorLine, ""], 1⟩).blank =
      ⟨ws ++ constructorLine :: "" :: requestLines ++ [""], 1⟩ := by
    have hlast : requestLines = requestLines.dropLast ++ ["  \x7d"] := by decide
    rw [requestMethod_mk, hlast, ← List.append_assoc, blank_of_visible (by decide)]
    simp only [List.append_assoc, List.cons_append, List.nil_append]
  have hbody : serviceBody c ⟨ws, 1⟩ =
      (furtherMethods [c.layout.fetchMethod] ((endpointPaths c.facts).drop 1)).foldl withFurther
        (block ⟨ws ++ constructorLine :: "" :: requestLines ++ [""], 1⟩ first.header "\x7d"
          fun b => b.line (requestLine first.type first.path)) := by
    rw [← hrequest, ← hconstructor]
    rfl
  have hlines : ws ++ constructorLine :: "" :: requestLines ++ [""] ++ first.lines =
      ws ++ constructorLine :: "" :: requestLines ++ ["", "  " ++ first.header,
        "    " ++ requestLine first.type first.path] ++ ["  \x7d"] := by
    simp [ServiceMethod.lines]
  rw [hbody, block_method first hheader, hlines, foldl_withFurther _ (by decide)]
  simp [bodyLines, serviceMethods, ServiceMethod.lines, first]

theorem bodyLines_ends : ∃ ls, bodyLines c = ls ++ ["  \x7d"] := by
  obtain ⟨ms, m, hms⟩ : ∃ ms m, serviceMethods c = ms ++ [m] :=
    ⟨_, _, (List.dropLast_concat_getLast (List.cons_ne_nil _ _)).symm⟩
  refine ⟨constructorLine :: "" :: (requestLines ++ (ms.flatMap fun m => "" :: m.lines) ++
    ["", "  " ++ m.header, "    " ++ requestLine m.type m.path]), ?_⟩
  simp [bodyLines, hms, ServiceMethod.lines]

theorem renderService_built : renderService c = CodeBuilder.build ⟨serviceLines c, 0⟩ := by
  have hheads : serviceConstants (serviceHead c {}) = ⟨(headLines c).dropLast, 0⟩ := by
    rw [serviceHead_empty, ← List.nil_append [dataTypeLine c],
      serviceConstants_mk (Str.ne_empty_of_isBlank (isBlank_dataTypeLine c))]
    rfl
  have hopening : opening ⟨(headLines c).dropLast, 0⟩ (classLine c) = ⟨headLines c, 1⟩ := by
    rw [opening_of_visible (isBlank_classLine c), indentation_zero, String.empty_append]
    rfl
  have hclass : serviceClass c (serviceConstants (serviceHead c {})) =
      closing ⟨headLines c ++ bodyLines c, 1⟩ "\x7d" := by
    rw [hheads, ← serviceBody_mk, ← hopening]
    rfl
  obtain ⟨ls, hls⟩ := bodyLines_ends c
  have hlines : headLines c ++ bodyLines c ++ ["\x7d"] ++ [""] ++ [instanceLine c] = serviceLines c := by
    simp [serviceLines, bodyLines, tailLines]
  have hinstance : renderService c =
      ((serviceClass c (serviceConstants (serviceHead c {}))).blank.line (instanceLine c)).build := rfl
  rw [hinstance, hclass, hls, ← List.append_assoc, closing_of_visible (by decide) (by decide),
    indentation_zero, String.empty_append, blank_of_visible (by decide),
    line_of_visible (isBlank_instanceLine c), indentation_zero, String.empty_append,
    List.append_assoc (headLines c), ← hls, hlines]

theorem collapse_methods (ms : List ServiceMethod) (rest : List String) :
    collapse false ((ms.flatMap fun m => "" :: m.lines) ++ rest) =
      (ms.flatMap fun m => "" :: m.lines) ++ collapse false rest := by
  induction ms with
  | nil => rfl
  | cons m ms ih =>
    have hheader : "  " ++ m.header ≠ "" := by simp
    have hrequest : "    " ++ requestLine m.type m.path ≠ "" := by simp
    rw [List.flatMap_cons, List.append_assoc, ServiceMethod.lines]
    simp only [List.cons_append, List.nil_append]
    rw [collapse_blank, collapse_visible hheader, collapse_visible hrequest, collapse_visible (by decide), ih]

theorem finished_serviceLines : CodeBuilder.finished ⟨serviceLines c, 0⟩ = serviceLines c := by
  have hdataType := Str.ne_empty_of_isBlank (isBlank_dataTypeLine c)
  have hclass := Str.ne_empty_of_isBlank (isBlank_classLine c)
  have hinstance := Str.ne_empty_of_isBlank (isBlank_instanceLine c)
  have hcollapse : collapse true (serviceLines c) = serviceLines c := by
    rw [serviceLines, headLines, tailLines]
    simp only [List.cons_append, List.nil_append]
    rw [collapse_visible hdataType, collapse_blank, collapse_visible (by decide), collapse_visible (by decide),
      collapse_visible (by decide), collapse_blank, collapse_visible hclass, collapse_visible (by decide),
      collapse_blank, collapse_append (by decide) (by decide), collapse_methods, collapse_visible (by decide),
      collapse_blank, collapse_visible hinstance]
    rfl
  obtain ⟨ls, hls⟩ : ∃ ls, serviceLines c = ls ++ [instanceLine c] := by
    refine ⟨headLines c ++ constructorLine :: "" :: (requestLines ++
      (((serviceMethods c).flatMap fun m => "" :: m.lines) ++ ["\x7d", ""])), ?_⟩
    simp [serviceLines, tailLines]
  rw [finished_eq, hcollapse, hls, trimmed_concat hinstance]

/-- The text of the lines, each with its line feed. -/
def ofLines (ls : List String) : List Char := ls.flatMap fun l => l.toList ++ ['\n']

/-- A service holds its lines and nothing else. -/
theorem toList_renderService : (renderService c).toList = ofLines (serviceLines c) := by
  have hne : CodeBuilder.finished ⟨serviceLines c, 0⟩ ≠ [] := by
    rw [finished_serviceLines]
    exact List.cons_ne_nil _ _
  rw [renderService_built, toList_build hne, finished_serviceLines]
  rfl

end Template

end Recast
