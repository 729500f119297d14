import Recast.Proofs.Pattern.Edits

/-!
# Where a pattern is read

A place of a text is where a part of it ends and the rest begins. A search stops at the
first place where the pattern is read (`exists_findFrom?_of_readsAt`), and a pattern that
reads within a line and only at the start of one is found at every place where it is read
(`exists_mem_matchesOf`).
-/

namespace Recast.Pattern

/-- Behind `x` the pattern reads `u`, and `y` follows. -/
def ReadsAt (p : Pattern) (x u y : List Char) : Prop :=
  ∃ g, Reads p ⟨x.length, x.getLast?, u ++ y⟩ [] ⟨x.length + u.length, u.getLast?.or x.getLast?, y⟩ g

/-- The text starts, or a line ends behind it. -/
def EndsLines (before : List Char) : Prop := before.getLast?.all (· == '\n') = true

/-- The text ends, or a line feed ends the line in front of it. -/
def LineEnds (after : List Char) : Prop := after.head?.all (· == '\n') = true

theorem EndsLines.mem {u v : List Char} (h : EndsLines (u ++ v)) (hv : v ≠ []) : '\n' ∈ v := by
  unfold EndsLines at h
  rw [List.getLast?_append, List.getLast?_eq_some_getLast hv] at h
  have hlast : v.getLast hv = '\n' := by simpa using h
  rw [← hlast]
  exact List.getLast_mem hv

/-! ### What is read at a place -/

section

variable {p q : Pattern} {x u y : List Char}

/-- What is read does not hang on the groups that were set before. -/
theorem Reads.of_groups {c c' : Cursor} {g g' : Groups} (h : Reads p c g c' g') (k : Groups) :
    ∃ k', Reads p c k c' k' := by
  induction h generalizing k with
  | empty => exact ⟨k, .empty⟩
  | char hp => exact ⟨k, .char hp⟩
  | anchor h => exact ⟨k, .anchor h⟩
  | seq _ _ ihp ihq =>
    obtain ⟨k₁, h₁⟩ := ihp k
    obtain ⟨k₂, h₂⟩ := ihq k₁
    exact ⟨k₂, .seq h₁ h₂⟩
  | left _ ih => exact (ih k).imp fun _ => .left
  | right _ ih => exact (ih k).imp fun _ => .right
  | done => exact ⟨k, .done⟩
  | more _ _ ihp ih =>
    obtain ⟨k₁, h₁⟩ := ihp k
    obtain ⟨k₂, h₂⟩ := ih k₁
    exact ⟨k₂, .more h₁ h₂⟩
  | group _ ih =>
    obtain ⟨k₁, h₁⟩ := ih k
    exact ⟨_, .group h₁⟩

theorem readsAt_of_reads {n : Nat} {prev : Option Char} {g g' : Groups}
    (h : Reads p ⟨x.length, x.getLast?, u ++ y⟩ g ⟨n, prev, y⟩ g') : ReadsAt p x u y := by
  obtain ⟨v, rest, hv, hc⟩ := h.eq_after
  cases hc
  obtain rfl := List.append_cancel_right hv
  exact h.of_groups []

theorem readsAt_append : ReadsAt (p ++ q) x u y ↔
    ∃ v w, u = v ++ w ∧ ReadsAt p x v (w ++ y) ∧ ReadsAt q (x ++ v) w y := by
  constructor
  · rintro ⟨g, hreads⟩
    obtain ⟨c, g₁, hp, hq⟩ := reads_append.1 hreads
    obtain ⟨v, rest, hv, rfl⟩ := hp.eq_after
    obtain ⟨w, hw, -⟩ := hq.split
    obtain rfl : rest = w ++ y := hw
    obtain rfl : u = v ++ w := List.append_cancel_right (hv.trans (List.append_assoc ..).symm)
    rw [List.append_assoc] at hp
    rw [← List.length_append, ← List.getLast?_append] at hq
    exact ⟨v, w, rfl, readsAt_of_reads hp, readsAt_of_reads hq⟩
  · rintro ⟨v, w, rfl, ⟨g₁, hp⟩, ⟨g₂, hq⟩⟩
    obtain ⟨g₃, hq⟩ := hq.of_groups g₁
    rw [← List.length_append, ← List.getLast?_append] at hp
    have hboth : Reads (p ++ q) _ [] _ g₃ := .seq hp hq
    rw [← List.append_assoc] at hboth
    exact readsAt_of_reads hboth

theorem readsAt_either : ReadsAt (either p q) x u y ↔ ReadsAt p x u y ∨ ReadsAt q x u y := by
  constructor
  · rintro ⟨g, h⟩
    cases h with
    | left h => exact .inl ⟨g, h⟩
    | right h => exact .inr ⟨g, h⟩
  · rintro (⟨g, h⟩ | ⟨g, h⟩)
    · exact ⟨g, .left h⟩
    · exact ⟨g, .right h⟩

theorem readsAt_group {i : Nat} : ReadsAt (group i p) x u y ↔ ReadsAt p x u y := by
  constructor
  · rintro ⟨g, h⟩
    cases h with
    | group h => exact ⟨_, h⟩
  · rintro ⟨g, h⟩
    exact ⟨_, .group h⟩

theorem readsAt_char {t : Char → Bool} : ReadsAt (char t) x u y ↔ ∃ c, u = [c] ∧ t c = true := by
  constructor
  · rintro ⟨g, h⟩
    have hrest {c c' : Cursor} {g g' : Groups} (h : Reads (char t) c g c' g') :
        ∃ d, c.rest = [d] ++ c'.rest ∧ t d = true := by
      cases h with
      | char hd => exact ⟨_, rfl, hd⟩
    obtain ⟨c, hc, ht⟩ := hrest h
    exact ⟨c, List.append_cancel_right hc, ht⟩
  · rintro ⟨c, rfl, hc⟩
    exact ⟨[], .char hc⟩

theorem readsAt_anchor {a : Anchor} :
    ReadsAt (anchor a) x u y ↔ u = [] ∧ a.holds ⟨x.length, x.getLast?, y⟩ = true := by
  constructor
  · rintro ⟨g, h⟩
    obtain rfl : u = [] := List.self_eq_append_left.1 (congrArg Cursor.rest (reads_anchor h).1)
    refine ⟨rfl, ?_⟩
    cases h with
    | anchor h => exact h
  · rintro ⟨rfl, h⟩
    exact ⟨[], .anchor h⟩

theorem readsAt_lineStart :
    ReadsAt lineStart x u y ↔ u = [] ∧ EndsLines x := readsAt_anchor

theorem readsAt_lineEnd : ReadsAt lineEnd x u y ↔ u = [] ∧ LineEnds y := readsAt_anchor

theorem readsAt_empty : ReadsAt empty x u y ↔ u = [] := by
  constructor
  · rintro ⟨g, h⟩
    have hrest {c c' : Cursor} {g g' : Groups} (h : Reads empty c g c' g') : c'.rest = c.rest := by
      cases h
      rfl
    exact List.self_eq_append_left.1 (hrest h)
  · rintro rfl
    exact ⟨[], .empty⟩

theorem readsAt_opt : ReadsAt (opt p) x u y ↔ ReadsAt p x u y ∨ u = [] := by
  rw [opt, readsAt_either, readsAt_empty]

theorem readsAt_lit {s : String} : ReadsAt (lit s) x u y ↔ u = s.toList := by
  unfold lit
  induction s.toList generalizing x u with
  | nil => exact readsAt_empty
  | cons c word ih =>
    refine readsAt_append.trans ?_
    simp only [ih, readsAt_char, beq_iff_eq]
    constructor
    · rintro ⟨-, -, rfl, ⟨-, rfl, rfl⟩, rfl⟩
      rfl
    · rintro rfl
      exact ⟨[c], word, rfl, ⟨c, rfl, rfl⟩, rfl⟩

theorem readsAt_star_char {t : Char → Bool} : ReadsAt (star (char t)) x u y ↔ u.all t = true := by
  constructor
  · rintro ⟨g, h⟩
    obtain ⟨-, v, hv, hrest, -⟩ := reads_star_char h
    obtain rfl := List.append_cancel_right hrest
    exact hv
  · intro hu
    induction u generalizing x with
    | nil => exact ⟨[], .done⟩
    | cons c u ih =>
      obtain ⟨hc, hu⟩ := Bool.and_eq_true_iff.1 hu
      obtain ⟨g, h⟩ := ih (x := x ++ [c]) hu
      simp only [List.length_append, List.length_singleton, List.getLast?_concat] at h
      exact readsAt_of_reads (Reads.more (.char hc) h)

end

/-! ### Where a match is -/

/-- The match is one behind `x`, in the rest of the text. -/
def FoundAt (p : Pattern) (x rest : List Char) (m : Match) : Prop :=
  ∃ a u y, rest = a ++ (u ++ y) ∧ ReadsAt p (x ++ a) u y ∧
    m.span = ⟨(x ++ a).length, (x ++ a).length + u.length⟩

variable {p : Pattern} {x rest : List Char} {m : Match} {fuel : Nat}

theorem foundAt_of_matchAt? (h : p.matchAt? fuel ⟨x.length, x.getLast?, rest⟩ = some m) :
    FoundAt p x rest m := by
  obtain ⟨u, y, hrest, hreads, hspan⟩ := reads_of_matchAt? h
  exact ⟨[], u, y, hrest, by rw [List.append_nil]; exact ⟨_, hrest ▸ hreads⟩, by rwa [List.append_nil]⟩

theorem FoundAt.cons {c : Char} (h : FoundAt p (x ++ [c]) rest m) : FoundAt p x (c :: rest) m := by
  obtain ⟨a, u, y, rfl, hreads, hspan⟩ := h
  rw [List.append_assoc] at hreads hspan
  exact ⟨c :: a, u, y, rfl, hreads, hspan⟩

theorem exists_matchAt?_of_readsAt (hp : p.productive = true) {u y : List Char}
    (h : ReadsAt p x u y) (hfuel : (u ++ y).length ≤ fuel) :
    ∃ m, p.matchAt? fuel ⟨x.length, x.getLast?, u ++ y⟩ = some m := by
  obtain ⟨g, hreads⟩ := h
  exact Option.isSome_iff_exists.1 (isSome_run hp hreads hfuel rfl)

theorem start_of_matchAt? {c : Cursor} (h : p.matchAt? fuel c = some m) : m.span.start = c.pos := by
  obtain ⟨c', g, -, hm⟩ := exists_reads_of_run h
  cases hm
  rfl

/-! ### The first match -/

theorem foundAt_of_findFrom? (h : p.findFrom? fuel x.length x.getLast? rest = some m) :
    FoundAt p x rest m := by
  induction rest generalizing x with
  | nil => exact foundAt_of_matchAt? h
  | cons c r ih =>
    rcases eq_some_or_of_orElse h with h | h
    · exact foundAt_of_matchAt? h
    · exact (ih (x := x ++ [c]) (by simpa using h)).cons

/-- Where the pattern is read, the search has stopped. -/
theorem exists_findFrom?_of_readsAt (hp : p.productive = true) {a u y : List Char}
    (hfuel : (a ++ (u ++ y)).length ≤ fuel) (h : ReadsAt p (x ++ a) u y) :
    ∃ m, p.findFrom? fuel x.length x.getLast? (a ++ (u ++ y)) = some m ∧
      m.span.start ≤ (x ++ a).length := by
  induction a generalizing x with
  | nil =>
    rw [List.append_nil] at h ⊢
    rw [List.nil_append] at hfuel ⊢
    obtain ⟨m, hm⟩ := exists_matchAt?_of_readsAt hp h hfuel
    refine ⟨m, ?_, Nat.le_of_eq (start_of_matchAt? hm)⟩
    cases hrest : u ++ y with
    | nil => rwa [hrest] at hm
    | cons c r =>
      rw [hrest] at hm
      rw [findFrom?, hm]
      rfl
  | cons c a ih =>
    have hrest : x ++ c :: a = (x ++ [c]) ++ a := by simp
    rw [hrest] at h ⊢
    obtain ⟨m, hm, hle⟩ := ih (Nat.le_of_succ_le hfuel) h
    rw [List.cons_append, findFrom?]
    cases hat : p.matchAt? fuel ⟨x.length, x.getLast?, c :: (a ++ (u ++ y))⟩ with
    | some m' =>
      refine ⟨m', rfl, ?_⟩
      rw [start_of_matchAt? hat]
      simp
    | none => exact ⟨m, by simpa using hm, hle⟩

/-- Nothing is read before the first match. -/
theorem exists_first_of_find? (hp : p.productive = true) {text : List Char} (h : p.find? text = some m) :
    ∃ a u y, text = a ++ (u ++ y) ∧ ReadsAt p a u y ∧ m.span = ⟨a.length, a.length + u.length⟩ ∧
      ∀ b v z, text = b ++ (v ++ z) → ReadsAt p b v z → a.length ≤ b.length := by
  obtain ⟨a, u, y, htext, hreads, hspan⟩ := foundAt_of_findFrom? (x := []) h
  refine ⟨a, u, y, htext, hreads, hspan, ?_⟩
  rintro b v z rfl hearlier
  obtain ⟨m', hm', hle⟩ := exists_findFrom?_of_readsAt (x := []) hp (Nat.le_refl _) hearlier
  obtain rfl : m = m' := Option.some.inj (h.symm.trans hm')
  rw [hspan] at hle
  exact hle

theorem not_readsAt_of_find? (hp : p.productive = true) {text : List Char} (h : p.find? text = none)
    {a u y : List Char} (htext : text = a ++ (u ++ y)) : ¬ ReadsAt p a u y := by
  subst htext
  intro hreads
  obtain ⟨m, hm, -⟩ := exists_findFrom?_of_readsAt (x := []) hp (Nat.le_refl _) hreads
  cases h.symm.trans hm

theorem findAfter?_append (p : Pattern) (x rest : List Char) :
    p.findAfter? (x ++ rest) x.length = p.findFrom? (x ++ rest).length x.length x.getLast? rest := by
  have hprev : (if x.length = 0 then none else (x ++ rest)[x.length - 1]?) = x.getLast? := by
    rw [List.getLast?_eq_getElem?]
    cases x with
    | nil => rfl
    | cons c x => rw [if_neg (by simp), List.getElem?_append_left (by simp)]
  unfold findAfter?
  rw [List.drop_left, hprev]

/-! ### All matches -/

theorem foundAt_of_mem_matchesFrom {n : Nat} (h : m ∈ p.matchesFrom fuel x.length x.getLast? n rest) :
    FoundAt p x rest m := by
  induction rest generalizing x n with
  | nil =>
    cases n with
    | zero => exact foundAt_of_matchAt? (Option.mem_toList.1 h)
    | succ n => cases h
  | cons c r ih =>
    have hlater {n : Nat} (h : m ∈ p.matchesFrom fuel (x.length + 1) (some c) n r) :
        FoundAt p x (c :: r) m := (ih (x := x ++ [c]) (n := n) (by simpa using h)).cons
    cases n with
    | succ n => exact hlater h
    | zero =>
      simp only [matchesFrom] at h
      split at h
      · rename_i m' hm'
        rcases List.mem_cons.1 h with rfl | h
        · exact foundAt_of_matchAt? hm'
        · exact hlater h
      · exact hlater h

theorem foundAt_of_mem_matchesOf {text : List Char} (h : m ∈ p.matchesOf text) : FoundAt p [] text m :=
  foundAt_of_mem_matchesFrom h

/-- The pattern reads at the start of a line and not beyond its end. -/
def InLine (p : Pattern) : Prop :=
  ∀ x u y, ReadsAt p x u y → EndsLines x ∧ '\n' ∉ u

/-- What is read before the end of a line does not reach over it. -/
theorem InLine.split (h : InLine p) {a z u y : List Char} (ha : EndsLines (x ++ a)) (hne : a ≠ [])
    (hreads : ReadsAt p x u y) (hsplit : a ++ z = u ++ y) : ∃ v, a = u ++ v ∧ y = v ++ z := by
  rcases List.append_eq_append_iff.1 hsplit with ⟨v, hv, -⟩ | ⟨v, hv, hy⟩
  · refine absurd ?_ (h _ _ _ hreads).2
    rw [hv]
    exact List.mem_append_left v (ha.mem hne)
  · exact ⟨v, hv, hy⟩

/-- Behind a match the search goes on. -/
theorem matchesFrom_hit {prev : Option Char} {pos : Nat} {u : List Char} (hu : u ≠ [])
    (hm : p.matchAt? fuel ⟨pos, prev, u ++ rest⟩ = some m) (hspan : m.span = ⟨pos, pos + u.length⟩) :
    p.matchesFrom fuel pos prev 0 (u ++ rest) =
      m :: p.matchesFrom fuel (pos + u.length) (u.getLast?.or prev) 0 rest := by
  obtain ⟨c, v, rfl⟩ := List.exists_cons_of_ne_nil hu
  have hlength : m.span.length - 1 = v.length := by simp [hspan, Span.length]
  have hnext : pos + (c :: v).length = pos + 1 + v.length := by
    simp only [List.length_cons]
    omega
  rw [List.cons_append] at hm ⊢
  simp only [matchesFrom, hm, hlength, matchesFrom_append]
  rw [← getLast?_cons_or c v prev, ← hnext]

theorem ReadsAt.ne_nil (hn : p.nullable = false) {u y : List Char} (h : ReadsAt p x u y) : u ≠ [] := by
  obtain ⟨g, hreads⟩ := h
  rintro rfl
  exact absurd (hreads.pos_lt hn) (Nat.lt_irrefl _)

/-- No match before the start of a line reaches over the line feed. -/
theorem exists_mem_matchesFrom (hp : p.productive = true) (hn : p.nullable = false) (hline : InLine p)
    {a u y : List Char} (hfuel : (a ++ (u ++ y)).length ≤ fuel) (hreads : ReadsAt p (x ++ a) u y) :
    ∃ m ∈ p.matchesFrom fuel x.length x.getLast? 0 (a ++ (u ++ y)), m.span.start = (x ++ a).length := by
  -- The search goes on behind a match, so the induction is on the length of `a`, not on its form.
  obtain ⟨n, hlen⟩ : ∃ n, a.length = n := ⟨_, rfl⟩
  induction n using Nat.strongRecOn generalizing x a with
  | _ n ih =>
    cases a with
    | nil =>
      rw [List.append_nil] at hreads ⊢
      rw [List.nil_append] at hfuel ⊢
      obtain ⟨m, hm⟩ := exists_matchAt?_of_readsAt hp hreads hfuel
      obtain ⟨c, v, rfl⟩ := List.exists_cons_of_ne_nil (hreads.ne_nil hn)
      refine ⟨m, ?_, start_of_matchAt? hm⟩
      rw [List.cons_append] at hm ⊢
      simp only [matchesFrom, hm]
      exact List.mem_cons_self
    | cons c a =>
      cases hat : p.matchAt? fuel ⟨x.length, x.getLast?, c :: a ++ (u ++ y)⟩ with
      | none =>
        have hrest : x ++ c :: a = (x ++ [c]) ++ a := by simp
        rw [hrest] at hreads ⊢
        obtain ⟨m, hmem, hstart⟩ := ih a.length (by simp [← hlen]) (Nat.le_of_succ_le hfuel) hreads rfl
        refine ⟨m, ?_, hstart⟩
        rw [List.cons_append] at hat ⊢
        simp only [matchesFrom, hat]
        simpa using hmem
      | some m' =>
        obtain ⟨u', y', hsplit, hreads', hspan⟩ := reads_of_matchAt? hat
        have hin : ReadsAt p x u' y' := ⟨_, hsplit ▸ hreads'⟩
        obtain ⟨v, hv, hy'⟩ := hline.split (hline _ _ _ hreads).1 (List.cons_ne_nil c a) hin hsplit
        have hne := hin.ne_nil hn
        have hlt : v.length < n := by
          rw [← hlen, hv, List.length_append]
          exact Nat.lt_add_of_pos_left (List.length_pos_iff.2 hne)
        have hshort : (v ++ (u ++ y)).length ≤ fuel := by
          rw [hv, List.append_assoc, List.length_append] at hfuel
          omega
        have hlast : u'.getLast?.or x.getLast? = (x ++ u').getLast? := List.getLast?_append.symm
        rw [hv, ← List.append_assoc] at hreads
        obtain ⟨m, hmem, hstart⟩ := ih v.length hlt hshort hreads rfl
        rw [hsplit] at hat ⊢
        rw [matchesFrom_hit hne hat hspan, hv, ← List.append_assoc, hlast, hy', ← List.length_append]
        exact ⟨m, List.mem_cons_of_mem m' hmem, hstart⟩

theorem exists_mem_matchesOf (hp : p.productive = true) (hn : p.nullable = false) (hline : InLine p)
    {u y : List Char} (hreads : ReadsAt p x u y) :
    ∃ m ∈ p.matchesOf (x ++ (u ++ y)), m.span.start = x.length :=
  exists_mem_matchesFrom hp hn hline (x := []) (Nat.le_refl _) hreads

end Recast.Pattern
