import Mathlib.Data.List.Flatten
import Recast.Proofs.Tool.LineReports
import Recast.Tool.Outcome

/-!
# The verdict on tool runs

Every enabled step runs, whatever became of those before it. The outcome is a failure exactly
if one of the runs fails, it then says why, and what the tools printed is all in it, in the
order in which they printed it (`runSteps_verdict`).

The total is the sum of the sizes of the chunks. One size is at most the largest word, but the
sum of several need not be, and it is taken in words. So it is the sum modulo the number of
words, and it is right exactly if the sum is a word (`total_eq_sum_iff`).
-/

namespace Recast

/-- The sizes of the chunks together, a number without bound. -/
def Chunk.sumBytes (chunks : List Chunk) : ℕ := (chunks.map (·.bytes.toNat)).sum

theorem RunOutput.succeeded_eq_false_iff {out : RunOutput} :
    out.succeeded = false ↔ out.exitCode? ≠ some 0 := by
  simp [succeeded]

namespace ToolRun

variable (threshold : Float) (r : ToolRun)

/-- What the command printed. One that did not end has printed nothing. -/
def report : ToolReport :=
  match r.result with
  | .error _ => {}
  | .ok out => .read out.output.toList

/-- The chunks on the rows of sizes that the command printed, in order. -/
def rows : List Chunk :=
  match r.result with
  | .error _ => []
  | .ok out => (ToolReport.readLines out.output.toList).filterMap ReportLine.chunk?

theorem chunks_report : r.report.chunks = r.rows := by
  cases hr : r.result with
  | error e => rw [report, rows, hr]
  | ok out =>
    rw [report, rows, hr]
    exact ToolReport.chunks_read _

/-- The tests ran and cover less than they must. -/
def CoversTooLittle : Prop :=
  r.step = .test ∧ ∃ coverage, r.report.coverage? = some coverage ∧ coverage < threshold

/-- The command did not end, or ended otherwise than with code zero, or the tests cover too
little. -/
def Fails : Prop :=
  (∃ e, r.result = .error e) ∨ (∃ out, r.result = .ok out ∧ out.exitCode? ≠ some 0) ∨
    r.CoversTooLittle threshold

/-- What is said of the end of a command: the errors that it printed, or, where it failed
without any, that it failed. -/
def exitErrors (out : RunOutput) : List String :=
  if out.succeeded = false ∧ r.report.errors = [] then
    ["`" ++ r.command.display ++ "` failed with " ++ out.exitLabel]
  else r.report.errors

def coverageErrors : List String :=
  match r.step, r.report.coverage? with
  | .test, some coverage =>
    if coverage < threshold then [Outcome.lowCoverage coverage threshold] else []
  | _, _ => []

/-- All that is said to be wrong with a run. -/
def errors : List String :=
  match r.result with
  | .error e => [e.message]
  | .ok out => r.exitErrors out ++ r.coverageErrors threshold

theorem coverageErrors_ne_nil_iff : r.coverageErrors threshold ≠ [] ↔ r.CoversTooLittle threshold := by
  unfold coverageErrors CoversTooLittle
  cases r.step with
  | build => simp
  | test => cases r.report.coverage? <;> simp

theorem printed_sublist : r.report.errors.Sublist (r.errors threshold) := by
  unfold errors report
  split
  · exact List.nil_sublist _
  · refine List.Sublist.trans ?_ (List.sublist_append_left ..)
    unfold exitErrors
    split
    · rename_i h
      rw [report, ‹r.result = _›] at h
      simp [h.2]
    · simp [report, ‹r.result = _›]

/-- A run that fails does not go without a reason. -/
theorem errors_ne_nil (h : r.Fails threshold) : r.errors threshold ≠ [] := by
  rcases h with ⟨e, he⟩ | ⟨out, hout, hcode⟩ | hcoverage
  · simp [errors, he]
  · have hfailed := RunOutput.succeeded_eq_false_iff.2 hcode
    by_cases hprinted : r.report.errors = []
    · simp [errors, exitErrors, hout, hfailed, hprinted]
    · simp [errors, exitErrors, hout, hprinted]
  · have hne := (coverageErrors_ne_nil_iff threshold r).2 hcoverage
    unfold errors
    split
    · simp
    · simp [hne]

end ToolRun

namespace Outcome

/-- The second outcome tells, besides what the first does, of the runs. -/
structure Tells (threshold : Float) (runs : List ToolRun) (o o' : Outcome) : Prop where
  errors : o'.errors = o.errors ++ runs.flatMap (·.errors threshold)
  warnings : o'.warnings = o.warnings ++ runs.flatMap (·.report.warnings)
  chunks : o'.metrics.chunks = o.metrics.chunks ++ runs.flatMap (·.report.chunks)
  failed : o'.success = false ↔ o.success = false ∨ ∃ r ∈ runs, r.Fails threshold

variable {threshold : Float}

theorem Tells.nil (o : Outcome) : Tells threshold [] o o where
  errors := by simp
  warnings := by simp
  chunks := by simp
  failed := by simp

theorem Tells.append {runs runs' : List ToolRun} {o o' o'' : Outcome} (h : Tells threshold runs o o')
    (h' : Tells threshold runs' o' o'') : Tells threshold (runs ++ runs') o o'' where
  errors := by rw [h'.errors, h.errors, List.flatMap_append, List.append_assoc]
  warnings := by rw [h'.warnings, h.warnings, List.flatMap_append, List.append_assoc]
  chunks := by rw [h'.chunks, h.chunks, List.flatMap_append, List.append_assoc]
  failed := by
    rw [h'.failed, h.failed]
    simp [or_and_right, exists_or, or_assoc]

/-- The outcome after a command that ended, before the coverage is looked at. -/
def afterExit (o : Outcome) (r : ToolRun) (out : RunOutput) : Outcome :=
  ((o.addTime r.step out.elapsedMillis).addReport r.report).addExit r.command out r.report

theorem afterExit_spec (o : Outcome) (r : ToolRun) (out : RunOutput) :
    let o' := o.afterExit r out
    o'.errors = o.errors ++ r.exitErrors out ∧ o'.warnings = o.warnings ++ r.report.warnings ∧
      o'.metrics.chunks = o.metrics.chunks ++ r.report.chunks ∧
      o'.success = (o.success && out.succeeded) := by
  have htime : (o.addTime r.step out.elapsedMillis).errors = o.errors ∧
      (o.addTime r.step out.elapsedMillis).warnings = o.warnings ∧
      (o.addTime r.step out.elapsedMillis).metrics.chunks = o.metrics.chunks ∧
      (o.addTime r.step out.elapsedMillis).success = o.success := by
    cases r.step <;> exact ⟨rfl, rfl, rfl, rfl⟩
  obtain ⟨herrors, hwarnings, hchunks, hsuccess⟩ := htime
  unfold afterExit addExit ToolRun.exitErrors
  cases hs : out.succeeded with
  | true => simp [addReport, herrors, hwarnings, hchunks, hsuccess]
  | false =>
    by_cases he : r.report.errors = [] <;>
      simp [addReport, fail, he, herrors, hwarnings, hchunks]

/-- The outcome once the coverage is looked at. -/
def afterCoverage (threshold : Float) (o : Outcome) (r : ToolRun) : Outcome :=
  match r.step, r.report.coverage? with
  | .test, some coverage => o.addCoverage threshold coverage
  | _, _ => o

theorem afterCoverage_spec (threshold : Float) (o : Outcome) (r : ToolRun) :
    let o' := o.afterCoverage threshold r
    o'.errors = o.errors ++ r.coverageErrors threshold ∧ o'.warnings = o.warnings ∧
      o'.metrics.chunks = o.metrics.chunks ∧
      (o'.success = false ↔ o.success = false ∨ r.CoversTooLittle threshold) := by
  unfold afterCoverage ToolRun.coverageErrors ToolRun.CoversTooLittle
  cases r.step with
  | build => simp
  | test =>
    cases r.report.coverage? with
    | none => simp
    | some coverage => by_cases hlow : coverage < threshold <;> simp [addCoverage, fail, hlow]

theorem addRun_of_ok {r : ToolRun} {out : RunOutput} (h : r.result = .ok out) (o : Outcome) :
    o.addRun threshold r = (o.afterExit r out).afterCoverage threshold r := by
  obtain ⟨step, command, result⟩ := r
  obtain rfl : result = .ok out := h
  rfl

theorem tells_addRun (o : Outcome) (r : ToolRun) : Tells threshold [r] o (o.addRun threshold r) := by
  cases hr : r.result with
  | error e =>
    have hrun : o.addRun threshold r = o.fail e.message := by rw [addRun, hr]
    have hreport : r.report = {} := by rw [ToolRun.report, hr]
    have herrors : r.errors threshold = [e.message] := by rw [ToolRun.errors, hr]
    rw [hrun]
    exact {
      errors := by simp [fail, herrors]
      warnings := by simp [fail, hreport]
      chunks := by simp [fail, hreport]
      failed := by simp [fail, ToolRun.Fails, hr] }
  | ok out =>
    obtain ⟨herrors, hwarnings, hchunks, hsuccess⟩ := afterExit_spec o r out
    obtain ⟨herrors', hwarnings', hchunks', hfailed⟩ := afterCoverage_spec threshold (o.afterExit r out) r
    have hreasons : r.errors threshold = r.exitErrors out ++ r.coverageErrors threshold := by
      rw [ToolRun.errors, hr]
    rw [addRun_of_ok hr]
    exact {
      errors := by rw [herrors', herrors, List.flatMap_singleton, hreasons, List.append_assoc]
      warnings := by rw [hwarnings', hwarnings, List.flatMap_singleton]
      chunks := by rw [hchunks', hchunks, List.flatMap_singleton]
      failed := by
        rw [hfailed, hsuccess, Bool.and_eq_false_iff, RunOutput.succeeded_eq_false_iff, or_assoc]
        simp [ToolRun.Fails, hr] }

theorem tells_foldl (o : Outcome) (runs : List ToolRun) :
    Tells threshold runs o (runs.foldl (addRun threshold) o) := by
  induction runs generalizing o with
  | nil => exact .nil o
  | cons r rs ih => exact (tells_addRun o r).append (ih _)

theorem tells_ofRuns (runs : List ToolRun) : Tells threshold runs {} (ofRuns threshold runs) where
  errors := (tells_foldl {} runs).errors
  warnings := (tells_foldl {} runs).warnings
  chunks := (tells_foldl {} runs).chunks
  failed := (tells_foldl {} runs).failed

/-! ### The total -/

/-- Adding one size after the other wraps as often as adding all of them does. -/
theorem toNat_foldl_bytes (n : UInt64) (chunks : List Chunk) :
    (chunks.foldl (fun n c => n + c.bytes) n).toNat = (n.toNat + Chunk.sumBytes chunks) % 2 ^ 64 := by
  induction chunks generalizing n with
  | nil => exact (Nat.mod_eq_of_lt n.toNat_lt).symm
  | cons c chunks ih =>
    have hsum : Chunk.sumBytes (c :: chunks) = c.bytes.toNat + Chunk.sumBytes chunks := rfl
    rw [List.foldl_cons, ih, UInt64.toNat_add, Nat.mod_add_mod, hsum, Nat.add_assoc]

theorem toNat_totalBytes_withTotal (o : Outcome) :
    o.withTotal.metrics.totalBytes.toNat = Chunk.sumBytes o.metrics.chunks % 2 ^ 64 := by
  refine (toNat_foldl_bytes 0 o.metrics.chunks).trans ?_
  rw [UInt64.toNat_zero, Nat.zero_add]

/-- The chunks of an outcome are the rows that the commands printed. Their total is the sum of the sizes modulo
the number of words, so it is the sum exactly if the sum is a word. -/
theorem total_eq_sum_iff (threshold : Float) (runs : List ToolRun) :
    let o := ofRuns threshold runs
    o.metrics.chunks = runs.flatMap (·.rows) ∧
      o.metrics.totalBytes.toNat = Chunk.sumBytes o.metrics.chunks % 2 ^ 64 ∧
      (o.metrics.totalBytes.toNat = Chunk.sumBytes o.metrics.chunks ↔ Chunk.sumBytes o.metrics.chunks < 2 ^ 64) := by
  intro o
  have hchunks : o.metrics.chunks = runs.flatMap (·.report.chunks) := (tells_ofRuns runs).chunks
  have htotal : o.metrics.totalBytes.toNat = Chunk.sumBytes o.metrics.chunks % 2 ^ 64 :=
    toNat_totalBytes_withTotal (runs.foldl (addRun threshold) {})
  refine ⟨?_, htotal, ?_⟩
  · simpa only [ToolRun.chunks_report] using hchunks
  · rw [htotal, Nat.mod_eq_iff_lt (by decide)]

/-- A build that prints two sizes, each beyond the largest word. -/
def twoHugeFiles : ToolRun where
  step := .build
  command := Toolchain.standardBuild
  result := .ok
    { exitCode? := some 0
      output := "dist/a.js 99999999999999 MB │ gzip: 1 B\ndist/b.js 99999999999999 MB │ gzip: 1 B\n" }

theorem twoHugeFiles_total_wraps :
    (ofRuns 0 [twoHugeFiles]).metrics.chunks =
        [⟨"dist/a.js", 18446744073709551615, 1⟩, ⟨"dist/b.js", 18446744073709551615, 1⟩] ∧
      Chunk.sumBytes (ofRuns 0 [twoHugeFiles]).metrics.chunks = 36893488147419103230 ∧
      (ofRuns 0 [twoHugeFiles]).metrics.totalBytes = 18446744073709551614 := by
  have hchunks : (ofRuns 0 [twoHugeFiles]).metrics.chunks =
      [⟨"dist/a.js", 18446744073709551615, 1⟩, ⟨"dist/b.js", 18446744073709551615, 1⟩] := by
    decide +kernel
  have hsum : Chunk.sumBytes (ofRuns 0 [twoHugeFiles]).metrics.chunks = 36893488147419103230 := by
    rw [hchunks]
    rfl
  refine ⟨hchunks, hsum, UInt64.toNat_inj.1 ?_⟩
  rw [(total_eq_sum_iff 0 [twoHugeFiles]).2.1, hsum]
  rfl

end Outcome

namespace Toolchain

variable {σ : Type} (t : Toolchain) (run : Command → StateM σ RunResult)

/-- What becomes of commands that run one after the other, each in the state that the one
before it leaves. -/
def answers : List Command → σ → List RunResult
  | [], _ => []
  | c :: cs, s => ((run c).run s).1 :: answers cs ((run c).run s).2

/-- Every step runs once, in order and with its own command, however the others end. -/
theorem run_runSteps (steps : List ToolStep) (s : σ) :
    let runs := ((t.runSteps run steps).run s).1
    runs.map (·.step) = steps ∧ runs.map (·.command) = steps.map (·.command t) ∧
      runs.map (·.result) = answers run (steps.map (·.command t)) s := by
  induction steps generalizing s with
  | nil => exact ⟨rfl, rfl, rfl⟩
  | cons step steps ih =>
    obtain ⟨hsteps, hcommands, hresults⟩ := ih ((run (step.command t)).run s).2
    have hcons : ((t.runSteps run (step :: steps)).run s).1 =
        ⟨step, step.command t, ((run (step.command t)).run s).1⟩ ::
          ((t.runSteps run steps).run ((run (step.command t)).run s).2).1 := by
      unfold runSteps
      rw [List.mapM_cons]
      rfl
    rw [hcons]
    exact ⟨congrArg (step :: ·) hsteps, congrArg (step.command t :: ·) hcommands,
      congrArg (((run (step.command t)).run s).1 :: ·) hresults⟩

/-- Every enabled step runs, whatever became of the one before it. The outcome is a failure
exactly if a step gave no output, ended otherwise than with code zero, or the tests cover too
little. A failure has a reason, and no warning, chunk or error that was printed is lost or
changes its place. -/
theorem runSteps_verdict (c : Config) (threshold : Float) (s : σ) :
    let runs := ((t.runSteps run (ToolStep.enabled c)).run s).1
    let outcome := Outcome.ofRuns threshold runs
    (runs.map (·.step) = ToolStep.enabled c ∧
      runs.map (·.command) = (ToolStep.enabled c).map (·.command t) ∧
      runs.map (·.result) = answers run ((ToolStep.enabled c).map (·.command t)) s) ∧
    (outcome.success = false ↔ ∃ r ∈ runs, r.Fails threshold) ∧
    (outcome.success = false → outcome.errors ≠ []) ∧
    outcome.warnings = runs.flatMap (·.report.warnings) ∧
    outcome.metrics.chunks = runs.flatMap (·.report.chunks) ∧
    (runs.flatMap (·.report.errors)).Sublist outcome.errors := by
  intro runs outcome
  have htells : Outcome.Tells threshold runs {} outcome := Outcome.tells_ofRuns runs
  have herrors : outcome.errors = runs.flatMap (·.errors threshold) := htells.errors
  have hfailed : outcome.success = false ↔ ∃ r ∈ runs, r.Fails threshold := by
    simpa using htells.failed
  refine ⟨run_runSteps t run (ToolStep.enabled c) s, hfailed, ?_, htells.warnings, htells.chunks, ?_⟩
  · intro h
    obtain ⟨r, hr, hfails⟩ := hfailed.1 h
    obtain ⟨reason, hreason⟩ := List.exists_mem_of_ne_nil _ (r.errors_ne_nil threshold hfails)
    rw [herrors]
    exact List.ne_nil_of_mem (List.mem_flatMap.2 ⟨r, hr, hreason⟩)
  · rw [herrors]
    exact .flatMap_right runs fun r _ => r.printed_sublist threshold

end Toolchain

end Recast
