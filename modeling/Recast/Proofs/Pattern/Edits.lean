import Recast.Proofs.Pattern.Groups

/-!
# Replaced matches

Replacing all matches of a pattern cuts the text into matches, in whose place the new texts
stand, and characters that are kept because the pattern reads nothing from there
(`edited_replaceAll`). That nothing is read where the engine finds no match needs the engine
to be complete: it misses no reading of a pattern whose repetitions all consume
(`isSome_run`).
-/

namespace Recast

theorem Cursor.In.drop {pos : Nat} {prev : Option Char} {u rest text : List Char}
    (h : Cursor.In ⟨pos, prev, u ++ rest⟩ text) (prev' : Option Char) :
    Cursor.In ⟨pos + u.length, prev', rest⟩ text := by
  have hr := h.rest
  have hl := congrArg List.length hr
  have hle := h.le
  simp only [List.length_append, List.length_drop] at hl hle
  refine ⟨?_, by simp; omega⟩
  show rest = text.drop (pos + u.length)
  rw [← List.drop_drop, ← hr, List.drop_left]

namespace Pattern

/-- The pattern can read nothing at all. -/
def nullable : Pattern → Bool
  | empty | anchor _ | many _ _ => true
  | char _ => false
  | seq p q => p.nullable && q.nullable
  | either p q => p.nullable || q.nullable
  | group _ p => p.nullable

/-- Every repetition in the pattern consumes. -/
def productive : Pattern → Bool
  | empty | anchor _ | char _ => true
  | seq p q | either p q => p.productive && q.productive
  | many _ p => !p.nullable && p.productive
  | group _ p => p.productive

theorem Reads.pos_le {p : Pattern} {c c' : Cursor} {g g' : Groups} (h : Reads p c g c' g') :
    c.pos ≤ c'.pos := by
  obtain ⟨u, -, hn⟩ := h.split
  omega

theorem Reads.pos_lt {p : Pattern} {c c' : Cursor} {g g' : Groups} (h : Reads p c g c' g')
    (hp : p.nullable = false) : c.pos < c'.pos := by
  induction h with
  | empty | anchor | done => cases hp
  | char => exact Nat.lt_succ_self _
  | seq hfirst hsecond ihp ihq =>
    rcases Bool.and_eq_false_iff.1 hp with h | h
    · exact Nat.lt_of_lt_of_le (ihp h) hsecond.pos_le
    · exact Nat.lt_of_le_of_lt hfirst.pos_le (ihq h)
  | left _ ih => exact ih (Bool.or_eq_false_iff.1 hp).1
  | right _ ih => exact ih (Bool.or_eq_false_iff.1 hp).2
  | more => cases hp
  | group _ ih => exact ih hp

theorem getLast?_append_or (u v : List Char) (prev : Option Char) :
    (u ++ v).getLast?.or prev = v.getLast?.or (u.getLast?.or prev) := by
  rw [List.getLast?_append, Option.or_assoc]

theorem getLast?_cons_or (x : Char) (u : List Char) (prev : Option Char) :
    (x :: u).getLast?.or prev = u.getLast?.or (some x) := by
  cases u <;> simp [List.getLast?_cons]

/-- Where a reading ends, the last character read stands before the cursor. -/
theorem Reads.eq_after {p : Pattern} {c c' : Cursor} {g g' : Groups} (h : Reads p c g c' g') :
    ∃ u rest, c.rest = u ++ rest ∧ c' = ⟨c.pos + u.length, u.getLast?.or c.prev, rest⟩ := by
  induction h with
  | empty | anchor | done => exact ⟨[], _, rfl, rfl⟩
  | @char p n prev x r g hp => exact ⟨[x], r, rfl, rfl⟩
  | seq _ _ ihp ihq | more _ _ ihp ihq =>
    obtain ⟨u, rest, hu, rfl⟩ := ihp
    obtain ⟨v, rest', hv, rfl⟩ := ihq
    refine ⟨u ++ v, rest', ?_, ?_⟩
    · rw [hu, List.append_assoc]
      exact congrArg (u ++ ·) hv
    · rw [List.length_append, ← Nat.add_assoc, getLast?_append_or]
  | left _ ih | right _ ih | group _ ih => exact ih

theorem isSome_orElse {α : Type} {x : Option α} {y : Unit → Option α} :
    (x.orElse y).isSome = true ↔ x.isSome = true ∨ (y ()).isSome = true := by
  cases x <;> simp

theorem isSome_loop {p : Pattern} {fuel : Nat} {greedy : Bool} {k : Next} (hp : p.nullable = false)
    (hrun : ∀ {k : Next} {c c' : Cursor} {g g' : Groups}, Reads p c g c' g' → c.rest.length ≤ fuel →
      (k c' g').isSome = true → (run fuel p k c g).isSome = true)
    {c c' : Cursor} {g g' : Groups} (h : Reads (many greedy p) c g c' g') {n : Nat}
    (hn : c.rest.length ≤ n) (hfuel : c.rest.length ≤ fuel) (hk : (k c' g').isSome = true) :
    (loop (run fuel p) greedy k n c g).isSome = true := by
  generalize hq : many greedy p = q at h
  induction h generalizing n with
  | done =>
    cases n with
    | zero => exact hk
    | succ n => cases greedy <;> exact isSome_orElse.2 (by simp [hk])
  | @more _ _ c g c₁ g₁ c₂ g₂ hfirst hmore _ ih =>
    cases hq
    have hlt := hfirst.pos_lt hp
    obtain ⟨u, rest, hu, rfl⟩ := hfirst.eq_after
    simp only [hu, List.length_append] at hn hfuel hlt
    obtain ⟨m, rfl⟩ : ∃ m, n = m + 1 := ⟨n - 1, by omega⟩
    have hagain : (run fuel p (fun c' g' => if c.pos < c'.pos then loop (run fuel p) greedy k m c' g'
        else none) c g).isSome = true := by
      refine hrun hfirst (by simp [hu]; omega) ?_
      rw [if_pos (by simp; omega)]
      exact ih (by simp; omega) (by simp; omega) hk rfl
    cases greedy
    · exact isSome_orElse.2 (.inr hagain)
    · exact isSome_orElse.2 (.inl hagain)
  | _ => cases hq

/-- The engine misses no reading: where the pattern reads on to a place that the continuation
accepts, the engine finds a match. -/
theorem isSome_run {p : Pattern} (hp : p.productive = true) {fuel : Nat} {k : Next} {c c' : Cursor}
    {g g' : Groups} (h : Reads p c g c' g') (hfuel : c.rest.length ≤ fuel)
    (hk : (k c' g').isSome = true) : (run fuel p k c g).isSome = true := by
  induction p generalizing k c c' g g' with
  | empty =>
    cases h
    exact hk
  | char p =>
    cases h with
    | char hx => simpa only [run, hx, if_true] using hk
  | anchor a =>
    cases h with
    | anchor ha => simpa only [run, ha, if_true] using hk
  | seq p q ihp ihq =>
    simp only [productive, Bool.and_eq_true] at hp
    cases h with
    | seq hfirst hsecond =>
      have hle : ∀ {c₁ : Cursor} {g₁ : Groups}, Reads p c g c₁ g₁ → c₁.rest.length ≤ fuel := by
        intro c₁ g₁ hfirst
        obtain ⟨u, rest, hu, rfl⟩ := hfirst.eq_after
        simp only [hu, List.length_append] at hfuel
        exact Nat.le_of_add_left_le hfuel
      exact ihp hp.1 hfirst hfuel (ihq hp.2 hsecond (hle hfirst) hk)
  | either p q ihp ihq =>
    simp only [productive, Bool.and_eq_true] at hp
    cases h with
    | left h => exact isSome_orElse.2 (.inl (ihp hp.1 h hfuel hk))
    | right h => exact isSome_orElse.2 (.inr (ihq hp.2 h hfuel hk))
  | many greedy p ih =>
    simp only [productive, Bool.and_eq_true, Bool.not_eq_true'] at hp
    exact isSome_loop hp.1 (fun h hf hk => ih hp.2 h hf hk) h hfuel hfuel hk
  | group i p ih =>
    cases h with
    | group h => exact ih hp h hfuel hk

/-- The text after `prev` becomes `out`: its pieces `u` with `Hit prev u rest new` become
`new`, and a character stays where `Kept` says so of the text that it begins. -/
inductive Edited (Kept : Option Char → List Char → Prop)
    (Hit : Option Char → List Char → List Char → List Char → Prop) :
    Option Char → List Char → List Char → Prop
  | nil (prev) : Edited Kept Hit prev [] []
  | keep {prev c r out} (hc : Kept prev (c :: r)) (h : Edited Kept Hit (some c) r out) :
      Edited Kept Hit prev (c :: r) (c :: out)
  | hit {prev u rest new out} (hu : u ≠ []) (hnew : Hit prev u rest new)
      (h : Edited Kept Hit (u.getLast?.or prev) rest out) : Edited Kept Hit prev (u ++ rest) (new ++ out)

section

variable {Kept : Option Char → List Char → Prop}
  {Hit : Option Char → List Char → List Char → List Char → Prop} {prev : Option Char} {text out : List Char}

theorem Edited.eq_of_no_hit (h : Edited Kept Hit prev text out)
    (hno : ∀ x u rest new, text = x ++ (u ++ rest) → u ≠ [] → ¬ Hit (x.getLast?.or prev) u rest new) :
    out = text := by
  induction h with
  | nil => rfl
  | @keep prev c r out _ _ ih =>
    refine congrArg (c :: ·) (ih fun x u rest new hr hu hit => ?_)
    refine hno (c :: x) u rest new (congrArg (c :: ·) hr) hu ?_
    rwa [getLast?_cons_or]
  | hit hu hnew _ _ => exact absurd hnew (hno [] _ _ _ rfl hu)

theorem Edited.part {d : Char} (hHit : ∀ prev u rest new, Hit prev u rest new → d ∉ u) {x y : List Char}
    (h : Edited Kept Hit prev (x ++ d :: y) out) :
    ∃ x' y', out = x' ++ d :: y' ∧ Edited Kept Hit (some d) y y' ∧
      Edited (fun prev r => Kept prev (r ++ d :: y)) (fun prev u rest new => Hit prev u (rest ++ d :: y) new)
        prev x x' := by
  generalize htext : x ++ d :: y = text at h
  induction h generalizing x with
  | nil => simp at htext
  | @keep prev c r out hc h ih =>
    cases x with
    | nil =>
      obtain ⟨rfl, rfl⟩ := List.cons.inj htext
      exact ⟨[], out, rfl, h, .nil _⟩
    | cons e x =>
      rw [List.cons_append] at htext
      obtain ⟨rfl, rfl⟩ := List.cons.inj htext
      obtain ⟨x', y', rfl, hy, hx⟩ := ih rfl
      exact ⟨e :: x', y', rfl, hy, .keep hc hx⟩
  | @hit prev u rest new out hu hnew h ih =>
    rcases List.append_eq_append_iff.1 htext with ⟨v, rfl, hv⟩ | ⟨v, rfl, rfl⟩
    · cases v with
      | nil =>
        rw [List.nil_append] at hv
        subst hv
        obtain ⟨x', y', rfl, hy, hx⟩ := ih (x := []) rfl
        refine ⟨new ++ x', y', by rw [List.append_assoc], hy, ?_⟩
        have hhit : Edited (fun prev r => Kept prev (r ++ d :: y))
            (fun prev u rest new => Hit prev u (rest ++ d :: y) new) prev (x ++ [] ++ []) (new ++ x') :=
          .hit hu hnew hx
        rwa [List.append_nil, List.append_nil] at hhit
      | cons e v =>
        obtain ⟨rfl, -⟩ := List.cons.inj hv
        exact absurd (by simp) (hHit _ _ _ _ hnew)
    · obtain ⟨x', y', rfl, hy, hx⟩ := ih rfl
      exact ⟨new ++ x', y', by rw [List.append_assoc], hy, .hit hu hnew hx⟩

theorem Edited.not_mem {c : Char} (hnew : ∀ prev u rest new, Hit prev u rest new → c ∉ new)
    (h : Edited Kept Hit prev text out) (hc : c ∉ text) : c ∉ out := by
  induction h with
  | nil => exact hc
  | keep _ _ ih =>
    rw [List.mem_cons, not_or] at hc ⊢
    exact ⟨hc.1, ih hc.2⟩
  | hit _ hit _ ih =>
    rw [List.mem_append, not_or] at hc ⊢
    exact ⟨hnew _ _ _ _ hit, ih hc.2⟩

theorem Edited.length_le (hnew : ∀ prev u rest new, Hit prev u rest new → new.length ≤ u.length)
    (h : Edited Kept Hit prev text out) : out.length ≤ text.length := by
  induction h with
  | nil => exact Nat.le_refl _
  | keep _ _ ih => exact Nat.succ_le_succ ih
  | hit _ hit _ ih =>
    rw [List.length_append, List.length_append]
    exact Nat.add_le_add (hnew _ _ _ _ hit) ih

/-- Edits that shorten keep the length only if there are none. -/
theorem Edited.eq_of_length_le (hnew : ∀ prev u rest new, Hit prev u rest new → new.length < u.length)
    (h : Edited Kept Hit prev text out) (hlength : text.length ≤ out.length) : out = text := by
  induction h with
  | nil => rfl
  | keep _ _ ih => exact congrArg _ (ih (Nat.le_of_succ_le_succ hlength))
  | hit _ hit h _ =>
    have hshort := hnew _ _ _ _ hit
    have hrest := h.length_le fun _ _ _ _ hit => Nat.le_of_lt (hnew _ _ _ _ hit)
    rw [List.length_append, List.length_append] at hlength
    omega

/-- If edits by other texts, none longer, leave the text as it is, there are none. -/
theorem Edited.kept_of_self
    (hnew : ∀ prev u rest new, Hit prev u rest new → new.length ≤ u.length ∧ new ≠ u)
    (h : Edited Kept Hit prev text out) (hself : out = text) {x r : List Char} {c : Char}
    (htext : text = x ++ c :: r) : Kept (x.getLast?.or prev) (c :: r) := by
  induction h generalizing x with
  | nil => simp at htext
  | @keep prev d r' out hc h ih =>
    cases x with
    | nil =>
      obtain ⟨rfl, rfl⟩ := List.cons.inj htext
      exact hc
    | cons e x =>
      rw [List.cons_append] at htext
      obtain ⟨rfl, hr⟩ := List.cons.inj htext
      rw [getLast?_cons_or]
      exact ih (List.cons.inj hself).2 hr
  | @hit prev u rest new out _ hit h _ =>
    obtain ⟨hle, hne⟩ := hnew _ _ _ _ hit
    have hrest := h.length_le fun _ _ _ _ hit => (hnew _ _ _ _ hit).1
    have hlength := congrArg List.length hself
    rw [List.length_append, List.length_append] at hlength
    exact absurd (List.append_inj hself (by omega)).1 hne

end

/-- The pattern reads nothing from here. -/
def Unread (p : Pattern) (prev : Option Char) (rest : List Char) : Prop :=
  ∃ pos : Nat, ∀ c' g, ¬ Reads p ⟨pos, prev, rest⟩ [] c' g

/-- The pattern reads `u` in the text, and `f` gives `new` for that match. -/
def Replaced (p : Pattern) (f : Match → List Char) (text : List Char) (prev : Option Char)
    (u rest new : List Char) : Prop :=
  ∃ (pos : Nat) (g : Groups), Cursor.In ⟨pos, prev, u ++ rest⟩ text ∧
    Reads p ⟨pos, prev, u ++ rest⟩ [] ⟨pos + u.length, u.getLast?.or prev, rest⟩ g ∧
    new = f ⟨⟨pos, pos + u.length⟩, g⟩

theorem unread_of_matchAt? {p : Pattern} (hp : p.productive = true) {fuel pos : Nat}
    {prev : Option Char}
    {rest : List Char} (hfuel : rest.length ≤ fuel) (h : p.matchAt? fuel ⟨pos, prev, rest⟩ = none) :
    Unread p prev rest := by
  refine ⟨pos, fun c' g hreads => ?_⟩
  have hsome : (p.matchAt? fuel ⟨pos, prev, rest⟩).isSome = true := isSome_run hp hreads hfuel rfl
  rw [h] at hsome
  cases hsome

theorem reads_of_matchAt? {p : Pattern} {fuel pos : Nat} {prev : Option Char} {text : List Char}
    {m : Match} (h : p.matchAt? fuel ⟨pos, prev, text⟩ = some m) :
    ∃ u rest, text = u ++ rest ∧
      Reads p ⟨pos, prev, text⟩ [] ⟨pos + u.length, u.getLast?.or prev, rest⟩ m.groups ∧
      m.span = ⟨pos, pos + u.length⟩ := by
  obtain ⟨c', g, hreads, hm⟩ := exists_reads_of_run h
  obtain ⟨u, rest, hu, rfl⟩ := hreads.eq_after
  cases hm
  exact ⟨u, rest, hu, hreads, rfl⟩

theorem matchesFrom_append (p : Pattern) (fuel pos : Nat) (prev : Option Char)
    (u rest : List Char) :
    p.matchesFrom fuel pos prev u.length (u ++ rest) =
      p.matchesFrom fuel (pos + u.length) (u.getLast?.or prev) 0 rest := by
  induction u generalizing pos prev with
  | nil => rfl
  | cons x u ih => rw [List.cons_append, List.length_cons, matchesFrom, ih, getLast?_cons_or,
      Nat.add_right_comm, Nat.add_assoc]

theorem start_of_mem_matchesFrom {p : Pattern} {fuel pos n : Nat} {prev : Option Char}
    {rest : List Char} {m : Match} (h : m ∈ p.matchesFrom fuel pos prev n rest) :
    pos ≤ m.span.start ∧ m.span.start ≤ m.span.stop := by
  have hat {pos : Nat} {prev : Option Char} {rest : List Char} {m : Match}
      (h : p.matchAt? fuel ⟨pos, prev, rest⟩ = some m) : m.span.start = pos ∧ pos ≤ m.span.stop := by
    obtain ⟨u, rest, -, -, hm⟩ := reads_of_matchAt? h
    simp [hm]
  induction rest generalizing pos prev n with
  | nil =>
    cases n with
    | zero =>
      have hm := hat (Option.mem_toList.1 h)
      omega
    | succ n => cases h
  | cons x r ih =>
    cases n with
    | succ n =>
      have hm := ih h
      omega
    | zero =>
      simp only [matchesFrom] at h
      split at h
      · rename_i m' hm'
        rcases List.mem_cons.1 h with rfl | h
        · have hm := hat hm'
          omega
        · have hm := ih h
          omega
      · have hm := ih h
        omega

theorem splice_cons {pos : Nat} {c : Char} {r : List Char} {edits : List (Span × List Char)}
    (h : ∀ e ∈ edits, pos + 1 ≤ e.1.start ∧ e.1.start ≤ e.1.stop) :
    splice pos (c :: r) edits = c :: splice (pos + 1) r edits := by
  cases edits with
  | nil => rfl
  | cons e edits =>
    obtain ⟨s, new⟩ := e
    have hstart : pos + 1 ≤ s.start ∧ s.start ≤ s.stop := h _ List.mem_cons_self
    have hs : s.start - pos = s.start - (pos + 1) + 1 := by omega
    have ht : s.stop - pos = s.stop - (pos + 1) + 1 := by omega
    simp only [splice, hs, ht, List.take_succ_cons, List.drop_succ_cons, List.cons_append]

theorem splice_append (pos : Nat) (u rest new : List Char) (edits : List (Span × List Char)) :
    splice pos (u ++ rest) ((⟨pos, pos + u.length⟩, new) :: edits) =
      new ++ splice (pos + u.length) rest edits := by
  simp [splice]

/-- The text from a cursor on with each match replaced. -/
def replaceFrom (p : Pattern) (f : Match → List Char) (fuel pos : Nat) (prev : Option Char)
    (rest : List Char) : List Char :=
  splice pos rest ((p.matchesFrom fuel pos prev 0 rest).map fun m => (m.span, f m))

theorem replaceFrom_nil {p : Pattern} (hn : p.nullable = false) (f : Match → List Char)
    (fuel pos : Nat) (prev : Option Char) : p.replaceFrom f fuel pos prev [] = [] := by
  cases hm : p.matchAt? fuel ⟨pos, prev, []⟩ with
  | none =>
    unfold replaceFrom
    simp only [matchesFrom, hm]
    rfl
  | some m =>
    obtain ⟨u, rest, hu, hreads, -⟩ := reads_of_matchAt? hm
    obtain ⟨rfl, rfl⟩ := List.append_eq_nil_iff.1 hu.symm
    exact absurd (hreads.pos_lt hn) (Nat.lt_irrefl _)

theorem replaceFrom_keep {p : Pattern} (f : Match → List Char) {fuel pos : Nat}
    {prev : Option Char} {c : Char} {r : List Char} (hm : p.matchAt? fuel ⟨pos, prev, c :: r⟩ = none) :
    p.replaceFrom f fuel pos prev (c :: r) = c :: p.replaceFrom f fuel (pos + 1) (some c) r := by
  unfold replaceFrom
  simp only [matchesFrom, hm]
  refine splice_cons fun e he => ?_
  obtain ⟨m, hm, rfl⟩ := List.mem_map.1 he
  exact start_of_mem_matchesFrom hm

theorem replaceFrom_hit {p : Pattern} (f : Match → List Char) {fuel pos : Nat}
    {prev : Option Char} {u rest : List Char} {m : Match} (hu : u ≠ [])
    (hm : p.matchAt? fuel ⟨pos, prev, u ++ rest⟩ = some m) (hspan : m.span = ⟨pos, pos + u.length⟩) :
    p.replaceFrom f fuel pos prev (u ++ rest) =
      f m ++ p.replaceFrom f fuel (pos + u.length) (u.getLast?.or prev) rest := by
  obtain ⟨c, v, rfl⟩ := List.exists_cons_of_ne_nil hu
  have hlength : m.span.length - 1 = v.length := by simp [hspan, Span.length]
  have hnext : pos + (c :: v).length = pos + 1 + v.length := by
    simp only [List.length_cons]
    omega
  unfold replaceFrom
  rw [List.cons_append] at hm ⊢
  simp only [matchesFrom, hm, List.map_cons, hlength, matchesFrom_append]
  rw [← getLast?_cons_or c v prev, ← hnext, hspan, ← List.cons_append, splice_append]

theorem edited_replaceFrom {p : Pattern} (hp : p.productive = true) (hn : p.nullable = false)
    (f : Match → List Char) {text : List Char} {pos : Nat} {prev : Option Char} {rest : List Char}
    (hin : Cursor.In ⟨pos, prev, rest⟩ text) :
    Edited (Unread p) (Replaced p f text) prev rest (p.replaceFrom f text.length pos prev rest) := by
  -- The search goes on behind a match, so the induction is on the length of the rest, not on its form.
  obtain ⟨n, hrest⟩ : ∃ n, rest.length = n := ⟨_, rfl⟩
  induction n using Nat.strongRecOn generalizing pos prev rest with
  | _ n ih =>
    have hfuel : rest.length ≤ text.length := by
      have hl := congrArg List.length hin.rest
      simp only [List.length_drop] at hl
      omega
    cases rest with
    | nil =>
      rw [replaceFrom_nil hn]
      exact .nil prev
    | cons c r =>
      cases hm : p.matchAt? text.length ⟨pos, prev, c :: r⟩ with
      | none =>
        rw [replaceFrom_keep f hm]
        exact .keep (unread_of_matchAt? hp hfuel hm) (ih r.length (by simp [← hrest]) hin.step rfl)
      | some m =>
        obtain ⟨u, rest, hu, hreads, hspan⟩ := reads_of_matchAt? hm
        have hlt := hreads.pos_lt hn
        have hne : u ≠ [] := by
          rintro rfl
          exact absurd hlt (Nat.lt_irrefl _)
        rw [hu] at hm hin hreads hrest ⊢
        rw [replaceFrom_hit f hne hm hspan]
        refine .hit hne ⟨pos, m.groups, hin, hreads, by rw [← hspan]⟩ (ih rest.length ?_ (hin.drop _) rfl)
        rw [← hrest, List.length_append]
        exact Nat.lt_add_of_pos_left (List.length_pos_iff.2 hne)

theorem edited_replaceAll {p : Pattern} (hp : p.productive = true) (hn : p.nullable = false)
    (f : Match → List Char) (text : List Char) :
    Edited (Unread p) (Replaced p f text) none text (p.replaceAll f text) :=
  edited_replaceFrom hp hn f ⟨rfl, Nat.zero_le _⟩

end Pattern

end Recast
