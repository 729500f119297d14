import Recast.Proofs.Component.EntryCuts

/-!
# Identifiers among the facts

The name of the props object and the names of the state of a class are identifiers.
-/

namespace Recast

open Text

theorem exists_of_mem_mapM {α β ε : Type} {f : α → Except ε β} {xs : List α} {ys : List β}
    (h : xs.mapM f = .ok ys) {y : β} (hy : y ∈ ys) : ∃ x ∈ xs, f x = .ok y := by
  induction xs generalizing ys with
  | nil =>
    cases h
    cases hy
  | cons x xs ih =>
    rw [List.mapM_cons] at h
    obtain ⟨z, hz, h⟩ := bind_eq_ok.1 h
    obtain ⟨zs, hzs, h⟩ := bind_eq_ok.1 h
    cases h
    rcases List.mem_cons.1 hy with rfl | hy
    · exact ⟨x, List.mem_cons_self, hz⟩
    · obtain ⟨x', hx', hf⟩ := ih hzs hy
      exact ⟨x', List.mem_cons_of_mem x hx', hf⟩

namespace Entry

theorem isIdentifier_of_read {entry : List Char} {e : Entry} (h : read entry = .ok (some e)) :
    isIdentifier e.key = true := by
  obtain ⟨⟨key, value?⟩, -, h⟩ := bind_eq_ok.1 h
  have hchecked {key : List Char} {value? : Option (List Char)} {e : Entry}
      (h : (if isIdentifier key then some ⟨key, value?⟩ else none) = some e) :
      isIdentifier e.key = true := by
    split at h
    · rename_i hkey
      cases h
      exact hkey
    · cases h
  cases value? with
  | none => exact hchecked (Except.ok.inj h)
  | some value =>
    obtain ⟨value', -, h⟩ := bind_eq_ok.1 h
    exact hchecked (Except.ok.inj h)

theorem isIdentifier_of_mem_all {inner : List Char} {es : List Entry} (h : all inner = .ok es)
    {e : Entry} (he : e ∈ es) : isIdentifier e.key = true := by
  obtain ⟨read, hread, h⟩ := bind_eq_ok.1 h
  cases h
  obtain ⟨e?, he?, rfl⟩ := List.mem_filterMap.1 he
  obtain ⟨entry, -, hentry⟩ := exists_of_mem_mapM hread he?
  exact isIdentifier_of_read hentry

end Entry

namespace Facts

/-- The props object has a name, and so has all state of a class. -/
structure Named (f : Facts) : Prop where
  object : ∀ object, f.propsAlias? = some object → isIdentifier object.toList = true
  state : f.isClass = true → ∀ s ∈ f.state, isIdentifier s.name.toList = true

theorem Named.withDiagnostic {f : Facts} (h : f.Named) (kind : DiagnosticKind) (message : String) :
    (f.withDiagnostic kind message).Named := ⟨h.object, h.state⟩

theorem state_warnings (text : List Char) (f : Facts) : (warnings text f).state = f.state := by
  unfold warnings
  split <;> split <;> rfl

end Facts

end Recast
