import Recast.Pattern.Build

/-!
# Reading with a pattern

What the engine does with a pattern, said without continuations and fuel: the pattern
reads a piece of the text from one cursor to another and adds its groups. Every match
that the engine finds is such a reading (`exists_reads_of_find?`).
-/

namespace Recast

structure Cursor.In (c : Cursor) (text : List Char) : Prop where
  rest : c.rest = text.drop c.pos
  le : c.pos ≤ text.length

theorem Cursor.In.text_span {c c' : Cursor} {text u : List Char} (hc : c.In text)
    (hu : c.rest = u ++ c'.rest) (hn : c'.pos = c.pos + u.length) :
    (⟨c.pos, c'.pos⟩ : Span).text text = u := by
  simp [Span.text, Span.length, ← hc.rest, hu, hn]

theorem Match.groupText_eq {m : Match} {i : Nat} {c c' : Cursor} {text u : List Char} (hi : i ≠ 0)
    (hl : m.groups.lookup i = some ⟨c.pos, c'.pos⟩) (hc : c.In text)
    (hu : c.rest = u ++ c'.rest) (hn : c'.pos = c.pos + u.length) : m.groupText text i = u := by
  simp [Match.groupText, Match.groupText?, Match.group?, hi, hl, hc.text_span hu hn]

namespace Pattern

/-- The pattern reads the text between two cursors. -/
inductive Reads : Pattern → Cursor → Groups → Cursor → Groups → Prop
  | empty {c g} : Reads .empty c g c g
  | char {p n prev x r g} (hp : p x = true) :
      Reads (.char p) ⟨n, prev, x :: r⟩ g ⟨n + 1, some x, r⟩ g
  | anchor {a c g} (h : a.holds c = true) : Reads (.anchor a) c g c g
  | seq {p q c g c₁ g₁ c₂ g₂} (hp : Reads p c g c₁ g₁) (hq : Reads q c₁ g₁ c₂ g₂) :
      Reads (.seq p q) c g c₂ g₂
  | left {p q c g c' g'} (h : Reads p c g c' g') : Reads (.either p q) c g c' g'
  | right {p q c g c' g'} (h : Reads q c g c' g') : Reads (.either p q) c g c' g'
  | done {greedy p c g} : Reads (.many greedy p) c g c g
  | more {greedy p c g c₁ g₁ c₂ g₂} (hp : Reads p c g c₁ g₁)
      (h : Reads (.many greedy p) c₁ g₁ c₂ g₂) : Reads (.many greedy p) c g c₂ g₂
  | group {i p c g c' g'} (h : Reads p c g c' g') :
      Reads (.group i p) c g c' ((i, ⟨c.pos, c'.pos⟩) :: g')

theorem eq_some_or_of_orElse {α : Type} {x : Option α} {y : Unit → Option α} {m : α}
    (h : x.orElse y = some m) : x = some m ∨ y () = some m := by
  cases x with
  | none => exact .inr h
  | some a => exact .inl h

theorem exists_reads_of_loop {greedy : Bool} {p : Pattern} {step : Next → Next} {k : Next}
    (hstep : ∀ {k c g m}, step k c g = some m → ∃ c' g', Reads p c g c' g' ∧ k c' g' = some m)
    {n : Nat} {c : Cursor} {g : Groups} {m : Match} (h : loop step greedy k n c g = some m) :
    ∃ c' g', Reads (.many greedy p) c g c' g' ∧ k c' g' = some m := by
  -- The induction is on the fuel, and what the loop does again is the same in both orders.
  induction n generalizing c g with
  | zero => exact ⟨c, g, .done, h⟩
  | succ n ih =>
    have hagain : step (fun c' g' => if c.pos < c'.pos then loop step greedy k n c' g' else none) c g =
        some m → ∃ c' g', Reads (.many greedy p) c g c' g' ∧ k c' g' = some m := by
      intro ha
      obtain ⟨c₁, g₁, hp, hl⟩ := hstep ha
      split at hl
      · obtain ⟨c₂, g₂, hm, hk⟩ := ih hl
        exact ⟨c₂, g₂, .more hp hm, hk⟩
      · cases hl
    unfold loop at h
    cases greedy with
    | true =>
      rcases eq_some_or_of_orElse h with h | h
      · exact hagain h
      · exact ⟨c, g, .done, h⟩
    | false =>
      rcases eq_some_or_of_orElse h with h | h
      · exact ⟨c, g, .done, h⟩
      · exact hagain h

/-- The engine hands a reading of the pattern to its continuation. -/
theorem exists_reads_of_run {fuel : Nat} {p : Pattern} {k : Next} {c : Cursor} {g : Groups} {m : Match}
    (h : run fuel p k c g = some m) : ∃ c' g', Reads p c g c' g' ∧ k c' g' = some m := by
  induction p generalizing k c g m with
  | empty => exact ⟨c, g, .empty, h⟩
  | char p =>
    obtain ⟨n, prev, rest⟩ := c
    cases rest with
    | nil => cases h
    | cons x r =>
      simp only [run] at h
      split at h
      · rename_i hp
        exact ⟨_, _, .char hp, h⟩
      · cases h
  | anchor a =>
    simp only [run] at h
    split at h
    · rename_i ha
      exact ⟨c, g, .anchor ha, h⟩
    · cases h
  | seq p q ihp ihq =>
    obtain ⟨c₁, g₁, hp, h⟩ := ihp h
    obtain ⟨c₂, g₂, hq, h⟩ := ihq h
    exact ⟨c₂, g₂, .seq hp hq, h⟩
  | either p q ihp ihq =>
    rcases eq_some_or_of_orElse h with h | h
    · obtain ⟨c', g', hp, h⟩ := ihp h
      exact ⟨c', g', .left hp, h⟩
    · obtain ⟨c', g', hq, h⟩ := ihq h
      exact ⟨c', g', .right hq, h⟩
  | many greedy p ih => exact exists_reads_of_loop ih h
  | group i p ih =>
    obtain ⟨c', g', hp, h⟩ := ih h
    exact ⟨c', _, .group hp, h⟩

theorem Reads.split {p : Pattern} {c c' : Cursor} {g g' : Groups} (h : Reads p c g c' g') :
    ∃ u, c.rest = u ++ c'.rest ∧ c'.pos = c.pos + u.length := by
  induction h with
  | empty | anchor | done => exact ⟨[], rfl, rfl⟩
  | @char p n prev x r g hp => exact ⟨[x], rfl, rfl⟩
  | seq _ _ ihp ihq | more _ _ ihp ihq =>
    obtain ⟨u, hu, hn⟩ := ihp
    obtain ⟨v, hv, hm⟩ := ihq
    exact ⟨u ++ v, by simp [hu, hv], by simp [hn, hm, Nat.add_assoc]⟩
  | left _ ih | right _ ih | group _ ih => exact ih

theorem Reads.within {p : Pattern} {c c' : Cursor} {g g' : Groups} {text : List Char}
    (h : Reads p c g c' g') (hc : c.In text) : c'.In text := by
  obtain ⟨u, hu, hn⟩ := h.split
  have hr := hc.rest
  have hl := congrArg List.length hr
  have hle := hc.le
  simp only [hu, List.length_append, List.length_drop] at hl
  refine ⟨?_, by omega⟩
  rw [hn, ← List.drop_drop, ← hr, hu, List.drop_left]

theorem exists_reads_of_findFrom? {p : Pattern} {fuel pos : Nat} {prev : Option Char}
    {rest text : List Char} {m : Match} (hc : Cursor.In ⟨pos, prev, rest⟩ text)
    (h : p.findFrom? fuel pos prev rest = some m) :
    ∃ c c' : Cursor, c.In text ∧ Reads p c [] c' m.groups ∧ m.span = ⟨c.pos, c'.pos⟩ := by
  have hat {c : Cursor} (hc : c.In text) (h : p.matchAt? fuel c = some m) :
      ∃ c c' : Cursor, c.In text ∧ Reads p c [] c' m.groups ∧ m.span = ⟨c.pos, c'.pos⟩ := by
    obtain ⟨c', g, hr, hm⟩ := exists_reads_of_run h
    cases hm
    exact ⟨c, c', hc, hr, rfl⟩
  induction rest generalizing pos prev with
  | nil => exact hat hc h
  | cons x r ih =>
    rcases eq_some_or_of_orElse h with h | h
    · exact hat hc h
    · refine ih ?_ h
      have hl := congrArg List.length hc.rest
      have hle := hc.le
      simp only [List.length_cons, List.length_drop] at hl hle
      refine ⟨?_, by simp; omega⟩
      show r = text.drop (pos + 1)
      rw [← List.drop_drop, ← hc.rest]
      rfl

theorem exists_reads_of_find? {p : Pattern} {text : List Char} {m : Match} (h : p.find? text = some m) :
    ∃ c c' : Cursor, c.In text ∧ Reads p c [] c' m.groups ∧ m.span = ⟨c.pos, c'.pos⟩ :=
  exists_reads_of_findFrom? ⟨rfl, Nat.zero_le _⟩ h

theorem findFrom?_eq_none {p : Pattern}
    (hp : ∀ {c c' : Cursor} {g g' : Groups}, Reads p c g c' g' → c.prev = none) (fuel pos : Nat)
    (x : Char) (rest : List Char) : p.findFrom? fuel pos (some x) rest = none := by
  have hat (pos : Nat) (x : Char) (rest : List Char) : p.matchAt? fuel ⟨pos, some x, rest⟩ = none := by
    rw [Option.eq_none_iff_forall_ne_some]
    intro m hm
    obtain ⟨c', g', hr, -⟩ := exists_reads_of_run hm
    cases hp hr
  induction rest generalizing pos x with
  | nil => exact hat ..
  | cons y rest ih =>
    rw [findFrom?, hat]
    exact ih ..

/-- A pattern that begins at the start of the text reads the text from there. -/
theorem reads_of_find?_textStart {p : Pattern}
    (hp : ∀ {c c' : Cursor} {g g' : Groups}, Reads p c g c' g' → c.prev = none) {text : List Char}
    {m : Match} (h : p.find? text = some m) : ∃ c', Reads p ⟨0, none, text⟩ [] c' m.groups := by
  have hat (h : p.matchAt? text.length ⟨0, none, text⟩ = some m) :
      ∃ c', Reads p ⟨0, none, text⟩ [] c' m.groups := by
    obtain ⟨c', g', hr, hm⟩ := exists_reads_of_run h
    cases hm
    exact ⟨c', hr⟩
  cases text with
  | nil => exact hat h
  | cons x rest =>
    rcases eq_some_or_of_orElse h with h | h
    · exact hat h
    · rw [findFrom?_eq_none hp] at h
      cases h

theorem reads_lit {s : String} {c c' : Cursor} {g g' : Groups} (h : Reads (lit s) c g c' g') :
    g' = g ∧ c.rest = s.toList ++ c'.rest ∧ c'.pos = c.pos + s.toList.length := by
  unfold lit at h
  generalize s.toList = word at h ⊢
  induction word generalizing c with
  | nil =>
    cases h
    exact ⟨rfl, rfl, rfl⟩
  | cons x xs ih =>
    cases h with
    | seq hx hr =>
      cases hx with
      | @char _ n prev y r _ hp =>
        obtain ⟨hg, hs, hn⟩ := ih hr
        simp only [beq_iff_eq] at hp
        subst hp
        exact ⟨hg, by simp only [List.cons_append, ← hs], by simp [hn]; omega⟩

/-- A repeated class of characters reads characters of the class. -/
theorem reads_star_char {p : Char → Bool} {c c' : Cursor} {g g' : Groups}
    (h : Reads (star (char p)) c g c' g') :
    g' = g ∧ ∃ u, u.all p = true ∧ c.rest = u ++ c'.rest ∧ c'.pos = c.pos + u.length := by
  unfold star at h
  generalize hq : many true (Pattern.char p) = q at h
  induction h with
  | done => exact ⟨rfl, [], rfl, rfl, rfl⟩
  | more hp hm _ ih =>
    cases hq
    obtain ⟨hg, u, hu, hs, hn⟩ := ih rfl
    cases hp with
    | @char _ n prev x r _ hp => exact ⟨hg, x :: u, by simp [hp, hu], by simp_all, by simp [hn]; omega⟩
  | _ => cases hq

theorem reads_append {p q : Pattern} {c c' : Cursor} {g g' : Groups} :
    Reads (p ++ q) c g c' g' ↔ ∃ c₁ g₁, Reads p c g c₁ g₁ ∧ Reads q c₁ g₁ c' g' := by
  constructor
  · intro h
    cases h with
    | seq hp hq => exact ⟨_, _, hp, hq⟩
  · rintro ⟨c₁, g₁, hp, hq⟩
    exact .seq hp hq

theorem reads_anchor {a : Anchor} {c c' : Cursor} {g g' : Groups} (h : Reads (anchor a) c g c' g') :
    c' = c ∧ g' = g := by
  cases h
  exact ⟨rfl, rfl⟩

theorem reads_opt {p : Pattern} {c c' : Cursor} {g g' : Groups} (h : Reads (opt p) c g c' g') :
    Reads p c g c' g' ∨ (c' = c ∧ g' = g) := by
  cases h with
  | left h => exact .inl h
  | right h =>
    cases h
    exact .inr ⟨rfl, rfl⟩

theorem reads_group {i : Nat} {p : Pattern} {c c' : Cursor} {g g' : Groups}
    (h : Reads (group i p) c g c' g') :
    ∃ g₁, Reads p c g c' g₁ ∧ g' = (i, ⟨c.pos, c'.pos⟩) :: g₁ := by
  cases h with
  | group h => exact ⟨_, h, rfl⟩

/-- A match parts the text into what stands before it, what it reads, and the rest. -/
theorem split_of_find? {p : Pattern} {text : List Char} {m : Match} (h : p.find? text = some m) :
    ∃ (c c' : Cursor) (u : List Char), c.In text ∧ Reads p c [] c' m.groups ∧
      c.rest = u ++ c'.rest ∧ text = text.take c.pos ++ (u ++ c'.rest) ∧
      m.span = ⟨c.pos, c.pos + u.length⟩ := by
  obtain ⟨c, c', hc, hr, hm⟩ := exists_reads_of_find? h
  obtain ⟨u, hu, hn⟩ := hr.split
  refine ⟨c, c', u, hc, hr, hu, ?_, by rw [hm, hn]⟩
  rw [← hu, hc.rest, List.take_append_drop]

end Pattern

end Recast
