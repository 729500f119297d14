import Recast.Proofs.Artifact.KeptHeads
import Recast.Proofs.Artifact.StyleClasses
import Recast.Proofs.Text.Occurrence

/-!
# Heads of hooks

A hook of state begins by taking the name of the state first out of an array. It does so
wherever the hook patterns find one at the start of a statement, and it still does so when the
statement has been carried over.
-/

namespace Recast.Template

open Text Pattern Pattern.Component Modernize Unicode

/-- The text begins by taking the name first out of an array. -/
inductive TakesFirst (n : List Char) : List Char → Prop
  | intro {word s₁ s₂ s₃ : List Char} {d : Char} (after : List Char)
      (hword : word = "const".toList ∨ word = "let".toList) (h₁ : s₁.all isBlank = true)
      (h₂ : s₂.all isBlank = true) (h₃ : s₃.all isBlank = true) (hd : d = ',' ∨ d = ']') :
      TakesFirst n (word ++ (s₁ ++ '[' :: (s₂ ++ (n ++ (s₃ ++ d :: after)))))

theorem TakesFirst.ne_nil {n text : List Char} (h : TakesFirst n text) : text ≠ [] := by
  cases h
  simp

/-- Characters of a name are no marks. -/
def Plain (n : List Char) : Prop := ∀ c ∈ n, c ∉ marks

theorem not_mem_marks_of_blank {c : Char} (h : isBlank c = true) : c ∉ marks := by
  have hmarks : ∀ m ∈ marks, isBlank m = false := List.all_iff_forall_prop.1 (by decide)
  intro hm
  rw [hmarks c hm] at h
  cases h

theorem head_of_plain {word s₁ s₂ n s₃ : List Char} {d : Char}
    (hword : word = "const".toList ∨ word = "let".toList) (h₁ : s₁.all isBlank = true)
    (h₂ : s₂.all isBlank = true) (hn : Plain n) (h₃ : s₃.all isBlank = true)
    (hd : d = ',' ∨ d = ']') :
    Head (word ++ (s₁ ++ '[' :: (s₂ ++ (n ++ (s₃ ++ [d]))))) := by
  have hstop {c : Char} (h : c ∉ marks) : c ∉ stopChars := fun hc => h (List.mem_append_left _ hc)
  have hblank {s : List Char} (h : s.all isBlank = true) : ∀ c ∈ s, c ∉ stopChars :=
    fun c hc => hstop (not_mem_marks_of_blank (List.all_eq_true.1 h c hc))
  refine ⟨?_, ?_⟩
  · simp only [List.forall_mem_append, List.forall_mem_cons]
    refine ⟨?_, hblank h₁, by decide, hblank h₂, fun c hc => hstop (hn c hc), hblank h₃, ?_⟩
    · rcases hword with rfl | rfl <;> exact List.all_iff_forall_prop.1 (by decide)
    · rcases hd with rfl | rfl <;> exact ⟨by decide, List.forall_mem_nil _⟩
  · have hlast : (word ++ (s₁ ++ '[' :: (s₂ ++ (n ++ (s₃ ++ [d]))))).getLast? = some d := by
      simp [List.getLast?_append, List.getLast?_cons]
    rcases hd with rfl | rfl
    · exact .inl hlast
    · exact .inr hlast

/-! ### What keeps a head -/

/-- A text that begins with a head begins with it after `edit`, so it still takes the name. -/
theorem TakesFirst.map {edit : List Char → List Char} {n text : List Char} (h : TakesFirst n text)
    (hn : Plain n)
    (hedit : ∀ y, Head y → (∃ x r, y = x :: r ∧ isBlank x = false) → y <+: text → y <+: edit text) :
    TakesFirst n (edit text) := by
  cases h with
  | @intro word s₁ s₂ s₃ d after hword h₁ h₂ h₃ hd =>
    have hstart :
        ∃ x r, word ++ (s₁ ++ '[' :: (s₂ ++ (n ++ (s₃ ++ [d])))) = x :: r ∧ isBlank x = false := by
      rcases hword with rfl | rfl <;> exact ⟨_, _, rfl, by decide⟩
    have hprefix := hedit _ (head_of_plain hword h₁ h₂ hn h₃ hd) hstart ⟨after, by simp⟩
    obtain ⟨after', hout⟩ := hprefix
    rw [← hout]
    have htakes : TakesFirst n (word ++ (s₁ ++ '[' :: (s₂ ++ (n ++ (s₃ ++ d :: after'))))) :=
      .intro after' hword h₁ h₂ h₃ hd
    simpa using htakes

/-- Group `i` does not occur in the pattern. -/
def lacks (i : Nat) : Pattern → Bool
  | .empty | .char _ | .anchor _ => true
  | .seq p q | .either p q => lacks i p && lacks i q
  | .many _ p => lacks i p
  | .group j p => i != j && lacks i p

theorem lookup_of_lacks {i : Nat} {p : Pattern} {c c' : Cursor} {g g' : Groups}
    (h : Reads p c g c' g') (hp : lacks i p = true) : g'.lookup i = g.lookup i := by
  induction h with
  | empty | char | anchor | done => rfl
  | seq _ _ ihp ihq =>
    simp only [lacks, Bool.and_eq_true] at hp
    rw [ihq hp.2, ihp hp.1]
  | left _ ih =>
    simp only [lacks, Bool.and_eq_true] at hp
    exact ih hp.1
  | right _ ih =>
    simp only [lacks, Bool.and_eq_true] at hp
    exact ih hp.2
  | more _ _ ihp ihq => rw [ihq hp, ihp hp]
  | @group j p c g c' g' _ ih =>
    simp only [lacks, Bool.and_eq_true, bne_iff_ne] at hp
    rw [List.lookup_cons, beq_false_of_ne hp.1]
    exact ih hp.2

/-- A reading by `q` begins with one by `p`, and what follows leaves group `i` as it is. -/
def Begins (i : Nat) (p q : Pattern) : Prop :=
  ∀ ⦃c c' : Cursor⦄ ⦃g g' : Groups⦄, Reads q c g c' g' →
    ∃ c₁ g₁, Reads p c g c₁ g₁ ∧ g'.lookup i = g₁.lookup i

theorem Begins.refl (i : Nat) (p : Pattern) : Begins i p p := fun _ c' _ g' h => ⟨c', g', h, rfl⟩

theorem Begins.append {i : Nat} {p q r : Pattern} (h : Begins i p q) (hr : lacks i r = true) :
    Begins i p (q ++ r) := by
  intro c c' g g' hreads
  obtain ⟨c₁, g₁, hq, hrest⟩ := reads_append.1 hreads
  obtain ⟨c₂, g₂, hp, hg⟩ := h hq
  exact ⟨c₂, g₂, hp, (lookup_of_lacks hrest hr).trans hg⟩

theorem reads_name {c c' : Cursor} {g g' : Groups} (h : Reads name c g c' g') :
    ∃ n, c.rest = n ++ c'.rest ∧ c'.pos = c.pos + n.length ∧ Plain n := by
  obtain ⟨c₁, g₁, hfirst, hmore⟩ := reads_append.1 h
  obtain ⟨-, u, hu, hrest, hpos⟩ := reads_star_char hmore
  cases hfirst with
  | @char _ n prev x r _ hx =>
    refine ⟨x :: u, congrArg (x :: ·) hrest, ?_, ?_⟩
    · rw [hpos, List.length_cons, Nat.add_assoc, Nat.add_comm 1]
    have hmarks : ∀ m ∈ marks, isIdentStart m = false ∧ (isWordChar m || m == '$') = false :=
      List.all_iff_forall_prop.1 (by decide +kernel)
    intro c hc hm
    rcases List.mem_cons.1 hc with rfl | hc
    · rw [(hmarks c hm).1] at hx
      cases hx
    · have hin := List.all_eq_true.1 hu c hc
      rw [(hmarks c hm).2] at hin
      cases hin

end Recast.Template
