import Recast.Proofs.Artifact.IdiomPatterns

/-!
# Heads that are kept

The head of a declaration, `const [count, setCount]`, goes through all the steps by which code
is carried over. Every idiom comes to a stop, a character that no head holds, before it comes
to a comma or a closing square bracket; so none begins inside a head.
-/

namespace Recast.Modernize

open Text Pattern Pattern.Idiom Unicode

def stopChars : List Char := ".=(\x7b\"'".toList

def marks : List Char := stopChars ++ ",]".toList

/-- Among the marks of the text a stop comes first. -/
def stops (text : List Char) : Bool := (text.find? marks.contains).any stopChars.contains

theorem stops_append_left {u : List Char} (h : stops u = true) (v : List Char) :
    stops (u ++ v) = true := by
  unfold stops at h ⊢
  rw [List.find?_append]
  cases hu : u.find? marks.contains with
  | none =>
    rw [hu] at h
    cases h
  | some x => rwa [hu] at h

theorem stops_append_right {u v : List Char} (hu : ∀ x ∈ u, x ∉ marks) (h : stops v = true) :
    stops (u ++ v) = true := by
  have hnone : u.find? marks.contains = none := List.find?_eq_none.2 (by simpa using hu)
  unfold stops at h ⊢
  rwa [List.find?_append, hnone, Option.none_or]

/-- A text without stops that ends with a comma or a square bracket. -/
structure Head (y : List Char) : Prop where
  free : ∀ c ∈ y, c ∉ stopChars
  last : y.getLast? = some ',' ∨ y.getLast? = some ']'

/-- The pattern reads no mark. -/
def unmarked : Pattern → Bool
  | .empty | .anchor _ => true
  | .char p => marks.all (!p ·)
  | .seq p q | .either p q => unmarked p && unmarked q
  | .many _ p | .group _ p => unmarked p

theorem reads_unmarked {p : Pattern} {c c' : Cursor} {g g' : Groups} (h : Reads p c g c' g')
    (hp : unmarked p = true) : ∃ u, c.rest = u ++ c'.rest ∧ ∀ x ∈ u, x ∉ marks := by
  induction h with
  | empty | anchor | done => exact ⟨[], rfl, by simp⟩
  | @char p n prev x r g hx =>
    refine ⟨[x], rfl, ?_⟩
    intro y hy hmark
    obtain rfl := List.mem_singleton.1 hy
    have hno := List.all_eq_true.1 hp y hmark
    simp [hx] at hno
  | seq _ _ ihp ihq =>
    simp only [unmarked, Bool.and_eq_true] at hp
    obtain ⟨u, hu, hfree⟩ := ihp hp.1
    obtain ⟨v, hv, hfree'⟩ := ihq hp.2
    exact ⟨u ++ v, by rw [hu, hv, List.append_assoc], List.forall_mem_append.2 ⟨hfree, hfree'⟩⟩
  | left _ ih =>
    simp only [unmarked, Bool.and_eq_true] at hp
    exact ih hp.1
  | right _ ih =>
    simp only [unmarked, Bool.and_eq_true] at hp
    exact ih hp.2
  | more _ _ ihp ihq =>
    obtain ⟨u, hu, hfree⟩ := ihp hp
    obtain ⟨v, hv, hfree'⟩ := ihq hp
    exact ⟨u ++ v, by rw [hu, hv, List.append_assoc], List.forall_mem_append.2 ⟨hfree, hfree'⟩⟩
  | group _ ih => exact ih hp

/-- What the pattern reads comes to a stop before any other mark. -/
def ComesToStop (p : Pattern) : Prop :=
  ∀ ⦃c c' : Cursor⦄ ⦃g g' : Groups⦄, Reads p c g c' g' → ∃ u, c.rest = u ++ c'.rest ∧ stops u = true

theorem ComesToStop.append {p : Pattern} (hp : ComesToStop p) (q : Pattern) :
    ComesToStop (p ++ q) := by
  intro c c' g g' h
  obtain ⟨c₁, g₁, hfirst, hsecond⟩ := reads_append.1 h
  obtain ⟨u, hu, hstops⟩ := hp hfirst
  obtain ⟨v, hv, -⟩ := hsecond.split
  exact ⟨u ++ v, by rw [hu, hv, List.append_assoc], stops_append_left hstops v⟩

theorem ComesToStop.after {p q : Pattern} (hq : ComesToStop q) (hp : unmarked p = true) :
    ComesToStop (p ++ q) := by
  intro c c' g g' h
  obtain ⟨c₁, g₁, hfirst, hsecond⟩ := reads_append.1 h
  obtain ⟨u, hu, hfree⟩ := reads_unmarked hfirst hp
  obtain ⟨v, hv, hstops⟩ := hq hsecond
  exact ⟨u ++ v, by rw [hu, hv, List.append_assoc], stops_append_right hfree hstops⟩

end Recast.Modernize
