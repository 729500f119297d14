import Recast.Pattern.Component
import Recast.Proofs.Pattern.Reading

/-!
# Groups that take part

A match lies in its text. A group that every way through the pattern passes takes part in
every match, and its span lies in the text as well.
-/

namespace Recast

theorem Cursor.In.step {pos : Nat} {prev : Option Char} {x : Char} {r text : List Char}
    (h : Cursor.In ⟨pos, prev, x :: r⟩ text) : Cursor.In ⟨pos + 1, some x, r⟩ text := by
  have hr := h.rest
  have hl := congrArg List.length hr
  have hle := h.le
  simp only [List.length_cons, List.length_drop] at hl hle
  refine ⟨?_, by simp; omega⟩
  show r = text.drop (pos + 1)
  rw [← List.drop_drop, ← hr]
  rfl

/-- The span is a part of the text. -/
def Span.InText (s : Span) (text : List Char) : Prop := s.start ≤ s.stop ∧ s.stop ≤ text.length

namespace Pattern

/-- Every way through the pattern passes the group. -/
def sets (i : Nat) : Pattern → Bool
  | empty | char _ | anchor _ | many _ _ => false
  | seq p q => p.sets i || q.sets i
  | either p q => p.sets i && q.sets i
  | group j p => j == i || p.sets i

theorem sets_append (i : Nat) (p q : Pattern) : (p ++ q).sets i = (p.sets i || q.sets i) := rfl

theorem exists_reads_of_matchesFrom {p : Pattern} {fuel pos n : Nat} {prev : Option Char}
    {rest text : List Char} {m : Match} (hc : Cursor.In ⟨pos, prev, rest⟩ text)
    (h : m ∈ p.matchesFrom fuel pos prev n rest) :
    ∃ c c' : Cursor, c.In text ∧ Reads p c [] c' m.groups ∧ m.span = ⟨c.pos, c'.pos⟩ := by
  have hat {c : Cursor} {m : Match} (hc : c.In text) (h : p.matchAt? fuel c = some m) :
      ∃ c c' : Cursor, c.In text ∧ Reads p c [] c' m.groups ∧ m.span = ⟨c.pos, c'.pos⟩ := by
    obtain ⟨c', g, hr, hm⟩ := exists_reads_of_run h
    cases hm
    exact ⟨c, c', hc, hr, rfl⟩
  induction rest generalizing pos prev n with
  | nil =>
    cases n with
    | zero => exact hat hc (Option.mem_toList.1 h)
    | succ n => cases h
  | cons x r ih =>
    cases n with
    | succ n => exact ih hc.step h
    | zero =>
      simp only [matchesFrom] at h
      split at h
      · rename_i m' hm'
        rcases List.mem_cons.1 h with rfl | h
        · exact hat hc hm'
        · exact ih hc.step h
      · exact ih hc.step h

theorem exists_reads_of_mem_matchesOf {p : Pattern} {text : List Char} {m : Match}
    (h : m ∈ p.matchesOf text) :
    ∃ c c' : Cursor, c.In text ∧ Reads p c [] c' m.groups ∧ m.span = ⟨c.pos, c'.pos⟩ :=
  exists_reads_of_matchesFrom ⟨rfl, Nat.zero_le _⟩ h

/-- What a reading adds to the groups are spans of the text. -/
theorem Reads.inText {p : Pattern} {c c' : Cursor} {g g' : Groups} {text : List Char}
    (h : Reads p c g c' g') (hc : c.In text) (hg : ∀ s ∈ g, s.2.InText text) :
    ∀ s ∈ g', s.2.InText text := by
  induction h with
  | empty | char | anchor | done => exact hg
  | seq hp _ ihp ihq | more hp _ ihp ihq => exact ihq (hp.within hc) (ihp hc hg)
  | left _ ih | right _ ih => exact ih hc hg
  | @group i p c g c' g' h ih =>
    obtain ⟨u, -, hn⟩ := h.split
    intro s hs
    rcases List.mem_cons.1 hs with rfl | hs
    · exact ⟨by show c.pos ≤ c'.pos; omega, (h.within hc).le⟩
    · exact ih hc hg s hs

/-- A group that the pattern sets is among the groups after it, and what was there stays. -/
theorem Reads.isSome_lookup {i : Nat} {p : Pattern} {c c' : Cursor} {g g' : Groups}
    (h : Reads p c g c' g') (hi : p.sets i = true ∨ (g.lookup i).isSome = true) :
    (g'.lookup i).isSome = true := by
  induction h with
  | empty | char | anchor | done => simpa [sets] using hi
  | seq _ _ ihp ihq =>
    simp only [sets, Bool.or_eq_true] at hi
    rcases hi with (hp | hq) | hi
    · exact ihq (.inr (ihp (.inl hp)))
    · exact ihq (.inl hq)
    · exact ihq (.inr (ihp (.inr hi)))
  | left _ ih =>
    simp only [sets, Bool.and_eq_true] at hi
    exact ih (hi.imp_left And.left)
  | right _ ih =>
    simp only [sets, Bool.and_eq_true] at hi
    exact ih (hi.imp_left And.right)
  | more _ _ ihp ihq =>
    rcases hi with hi | hi
    · cases hi
    · exact ihq (.inr (ihp (.inr hi)))
  | @group j p c g c' g' h ih =>
    simp only [sets, Bool.or_eq_true, beq_iff_eq] at hi
    by_cases hj : i = j
    · subst hj
      simp
    · have hg := ih (hi.imp_left fun hi => hi.resolve_left (Ne.symm hj))
      have hb : (i == j) = false := by simpa using hj
      rwa [List.lookup_cons, hb]

theorem mem_of_lookup_eq_some {g : Groups} {i : Nat} {s : Span} (h : g.lookup i = some s) :
    (i, s) ∈ g := by
  induction g with
  | nil => cases h
  | cons t g ih =>
    obtain ⟨j, s'⟩ := t
    rw [List.lookup_cons] at h
    split at h
    · rename_i hj
      cases h
      exact List.mem_cons.2 (.inl (by rw [beq_iff_eq.1 hj]))
    · exact List.mem_cons_of_mem _ (ih h)

/-- The match is the first of the pattern in the text, or one of all. -/
def Found (p : Pattern) (text : List Char) (m : Match) : Prop :=
  p.find? text = some m ∨ m ∈ p.matchesOf text

/-- A match and its groups are spans of the text, and a group that the pattern sets takes
part. -/
theorem Found.group {p : Pattern} {text : List Char} {m : Match} (h : p.Found text m) (i : Nat) :
    (∀ s, m.group? i = some s → s.InText text) ∧ (p.sets i = true → (m.group? i).isSome = true) := by
  obtain ⟨c, c', hc, hr, hm⟩ := h.elim exists_reads_of_find? exists_reads_of_mem_matchesOf
  obtain ⟨u, -, hn⟩ := hr.split
  have hin := hr.inText hc (by simp)
  unfold Match.group?
  by_cases hi : i = 0
  · rw [if_pos hi]
    refine ⟨?_, fun _ => rfl⟩
    intro s hs
    cases hs
    rw [hm]
    exact ⟨by show c.pos ≤ c'.pos; omega, (hr.within hc).le⟩
  · rw [if_neg hi]
    refine ⟨?_, ?_⟩
    · intro s hs
      exact hin _ (mem_of_lookup_eq_some hs)
    · intro hset
      exact hr.isSome_lookup (.inl hset)

end Pattern

end Recast
