import Recast.Component.Analysis

/-!
# Filing of diagnostics

Diagnostics are filed by their kind, errors apart from warnings, and no step of an
analysis files one elsewhere.
-/

namespace Recast

namespace Diagnostics

/-- Errors stand among the errors and warnings among the warnings. -/
structure Filed (ds : Diagnostics) : Prop where
  errors : ∀ d ∈ ds.errors, d.kind.isError = true
  warnings : ∀ d ∈ ds.warnings, d.kind.isError = false

theorem filed_empty : Filed {} := ⟨by simp, by simp⟩

theorem Filed.push {ds : Diagnostics} (h : ds.Filed) (d : Diagnostic) : (ds.push d).Filed := by
  unfold Diagnostics.push
  split
  · rename_i hd
    refine ⟨?_, h.warnings⟩
    intro e he
    rcases List.mem_append.1 he with he | he
    · exact h.errors e he
    · exact List.mem_singleton.1 he ▸ hd
  · rename_i hd
    refine ⟨h.errors, ?_⟩
    intro e he
    rcases List.mem_append.1 he with he | he
    · exact h.warnings e he
    · exact List.mem_singleton.1 he ▸ Bool.eq_false_iff.2 hd

theorem Filed.extend {ds more : Diagnostics} (h : ds.Filed) (hm : more.Filed) :
    (ds.extend more).Filed :=
  ⟨fun d hd => (List.mem_append.1 hd).elim (h.errors d) (hm.errors d),
    fun d hd => (List.mem_append.1 hd).elim (h.warnings d) (hm.warnings d)⟩

/-- Diagnostics of an error kind are counted among the errors. -/
theorem Filed.count_eq {ds : Diagnostics} (h : ds.Filed) {kind : DiagnosticKind}
    (hkind : kind.isError = true) : ds.count kind = ds.errors.countP (·.kind == kind) := by
  have hnone : ds.warnings.countP (·.kind == kind) = 0 := by
    rw [List.countP_eq_zero]
    intro d hd heq
    have hwarning := h.warnings d hd
    rw [beq_iff_eq.1 heq, hkind] at hwarning
    cases hwarning
  rw [count, List.countP_append, hnone, Nat.add_zero]

end Diagnostics

namespace Facts

open Diagnostics

theorem filed_withDiagnostic {f : Facts} (h : f.diagnostics.Filed) (kind : DiagnosticKind)
    (message : String) : (f.withDiagnostic kind message).diagnostics.Filed := h.push _

theorem filed_report {f : Facts} (h : f.diagnostics.Filed) (span : List Char) (hits : List Nat) :
    (Usage.report span hits f).diagnostics.Filed := by
  have hfold (names : List String) (message : String → String) {f : Facts} (h : f.diagnostics.Filed) :
      (names.foldl (fun f n => f.withDiagnostic .analysisWarning (message n)) f).diagnostics.Filed := by
    induction names generalizing f with
    | nil => exact h
    | cons n ns ih => exact ih (filed_withDiagnostic h _ _)
  exact hfold _ (fun n => s!"state '{n}' is declared but never used")
    (hfold _ (fun n => s!"prop '{n}' is declared but never used") h)

theorem filed_warnings {f : Facts} (h : f.diagnostics.Filed) (text : List Char) :
    (warnings text f).diagnostics.Filed := by
  unfold warnings
  split <;> split
  · exact filed_withDiagnostic h _ _
  · exact filed_withDiagnostic (filed_withDiagnostic h _ _) _ _
  · exact h
  · exact filed_withDiagnostic h _ _

theorem filed_hookInClass {f : Facts} (h : f.diagnostics.Filed) (classBody : List Char) :
    (hookInClass classBody f).diagnostics.Filed := by
  unfold hookInClass
  split
  · exact h
  · exact filed_withDiagnostic h _ _

theorem diagnostics_of_withProps {f g : Facts} {text : List Char} {found : List FoundProp}
    {hits : List Nat} (h : f.withProps text found = .ok (g, hits)) : g.diagnostics = f.diagnostics := by
  obtain ⟨table, -, hg⟩ := bind_eq_ok.1 h
  cases hg
  rfl

theorem filed_ofFunction {text : List Char} {scope : Scope} {f g : Facts} (hf : f.diagnostics.Filed)
    (h : ofFunction text scope f = .ok g) : g.diagnostics.Filed := by
  unfold ofFunction at h
  split at h
  all_goals
    obtain ⟨⟨object?, taken⟩, -, h⟩ := bind_eq_ok.1 h
    obtain ⟨through, -, h⟩ := bind_eq_ok.1 h
    obtain ⟨⟨f', hits⟩, hp, h⟩ := bind_eq_ok.1 h
    cases h
    refine filed_report ?_ _ _
    have hsame := diagnostics_of_withProps hp
    exact hsame ▸ hf

theorem filed_ofClass {text : List Char} {d : Declaration} {f g : Facts} (hf : f.diagnostics.Filed)
    (h : ofClass text d f = .ok g) : g.diagnostics.Filed := by
  unfold ofClass at h
  split at h
  · cases h
    exact hf
  · obtain ⟨found, -, h⟩ := bind_eq_ok.1 h
    obtain ⟨state, -, h⟩ := bind_eq_ok.1 h
    obtain ⟨⟨f', hits⟩, hp, h⟩ := bind_eq_ok.1 h
    cases h
    refine filed_report ?_ _ _
    have hsame := diagnostics_of_withProps hp
    exact hsame ▸ filed_hookInClass (f := { f with kind := .statefulClass }) hf _

theorem filed_ofDeclaration {text : List Char} {d? : Option Declaration} {f g : Facts}
    (hf : f.diagnostics.Filed) (h : ofDeclaration text d? f = .ok g) : g.diagnostics.Filed := by
  unfold ofDeclaration at h
  split at h
  · split at h
    · exact filed_ofClass hf h
    · exact filed_ofFunction hf h
  · exact filed_ofFunction hf h

/-- Every diagnostic of an analysis is filed by its kind. -/
theorem filed_of_analyze {source : String} {declared? : Option String} {f : Facts}
    (h : analyze source declared? = .ok f) : f.diagnostics.Filed := by
  dsimp only [analyze] at h
  split at h
  · cases h
    exact filed_withDiagnostic filed_empty _ _
  · obtain ⟨g, hg, h⟩ := bind_eq_ok.1 h
    have hfiled : g.diagnostics.Filed := by
      refine filed_ofDeclaration ?_ hg
      exact filed_warnings filed_empty _
    split at h <;> cases h
    · exact filed_withDiagnostic hfiled _ _
    · exact hfiled

end Facts

end Recast
