import Recast.Proofs.Pattern.Mentions

/-!
# Parted text

Where no match reaches from the front of a text into the rest of it, the front is edited as if
it stood alone (`replaceAll_append`). On the longer text the engine tries more, but whatever
reaches into the rest is given up, and the other attempts come in the same order.
-/

namespace Recast

/-- The cursor with more text behind it. -/
def Cursor.before (c : Cursor) (v : List Char) : Cursor := ⟨c.pos, c.prev, c.rest ++ v⟩

namespace Pattern

/-- No anchor of the pattern looks for an end. -/
def endless : Pattern → Bool
  | empty | char _ => true
  | anchor .textEnd | anchor .lineEnd => false
  | anchor _ => true
  | seq p q | either p q => p.endless && q.endless
  | many _ p | group _ p => p.endless

theorem holds_before {a : Anchor} (ha : (anchor a).endless = true) {v : List Char}
    (hv : inWord v.head? = false) (c : Cursor) : a.holds (c.before v) = a.holds c := by
  cases a with
  | textStart | lineStart => rfl
  | textEnd | lineEnd => cases ha
  | wordEdge =>
    obtain ⟨pos, prev, rest⟩ := c
    cases rest with
    | nil => exact congrArg (prev.any Unicode.isWordChar != ·) hv
    | cons x r => rfl

theorem Reads.before {p : Pattern} {c c' : Cursor} {g g' : Groups} (h : Reads p c g c' g')
    (hp : p.endless = true) {v : List Char} (hv : inWord v.head? = false) :
    Reads p (c.before v) g (c'.before v) g' := by
  induction h with
  | empty => exact .empty
  | char hx => exact .char hx
  | anchor ha => exact .anchor (by rwa [holds_before hp hv])
  | seq _ _ ihp ihq =>
    rw [endless, Bool.and_eq_true] at hp
    exact .seq (ihp hp.1) (ihq hp.2)
  | left _ ih =>
    rw [endless, Bool.and_eq_true] at hp
    exact .left (ih hp.1)
  | right _ ih =>
    rw [endless, Bool.and_eq_true] at hp
    exact .right (ih hp.2)
  | done => exact .done
  | more _ _ ihp ihq => exact .more (ihp hp) (ihq hp)
  | group _ ih => exact .group (ih hp)

theorem Reads.length_le {p : Pattern} {c c' : Cursor} {g g' : Groups} (h : Reads p c g c' g') :
    c'.rest.length ≤ c.rest.length := by
  obtain ⟨u, hu, -⟩ := h.split
  rw [hu, List.length_append]
  exact Nat.le_add_left _ _

theorem Reads.pos_add_length {p : Pattern} {c c' : Cursor} {g g' : Groups} (h : Reads p c g c' g') :
    c'.pos + c'.rest.length = c.pos + c.rest.length := by
  obtain ⟨u, hu, hn⟩ := h.split
  rw [hu, hn, List.length_append, Nat.add_assoc]

/-- A class of characters in the pattern holds `c`. -/
def accepts (c : Char) : Pattern → Bool
  | .empty | .anchor _ => false
  | .char p => p c
  | .seq p q | .either p q => accepts c p || accepts c q
  | .many _ p | .group _ p => accepts c p

theorem accepts_of_reads {p : Pattern} {c c' : Cursor} {g g' : Groups} (h : Reads p c g c' g')
    {u : List Char} (hu : c.rest = u ++ c'.rest) {x : Char} (hx : x ∈ u) : accepts x p = true := by
  suffices hread : ∃ u, c.rest = u ++ c'.rest ∧ ∀ x ∈ u, accepts x p = true by
    obtain ⟨v, hv, hread⟩ := hread
    exact hread x (List.append_cancel_right (hv.symm.trans hu) ▸ hx)
  clear hu
  induction h with
  | empty | anchor | done => exact ⟨[], rfl, List.forall_mem_nil _⟩
  | @char p n prev x r g hp => exact ⟨[x], rfl, List.forall_mem_singleton.2 hp⟩
  | seq _ _ ihp ihq =>
    obtain ⟨u, hu, hread⟩ := ihp
    obtain ⟨v, hv, hread'⟩ := ihq
    refine ⟨u ++ v, by rw [hu, hv, List.append_assoc], List.forall_mem_append.2 ⟨?_, ?_⟩⟩
    · exact fun x hx => Bool.or_eq_true_iff.2 (.inl (hread x hx))
    · exact fun x hx => Bool.or_eq_true_iff.2 (.inr (hread' x hx))
  | left _ ih =>
    obtain ⟨u, hu, hread⟩ := ih
    exact ⟨u, hu, fun x hx => Bool.or_eq_true_iff.2 (.inl (hread x hx))⟩
  | right _ ih =>
    obtain ⟨u, hu, hread⟩ := ih
    exact ⟨u, hu, fun x hx => Bool.or_eq_true_iff.2 (.inr (hread x hx))⟩
  | more _ _ ihp ihq =>
    obtain ⟨u, hu, hread⟩ := ihp
    obtain ⟨v, hv, hread'⟩ := ihq
    exact ⟨u ++ v, by rw [hu, hv, List.append_assoc], List.forall_mem_append.2 ⟨hread, hread'⟩⟩
  | group _ ih => exact ih

/-! ### The engine in front of more text -/

section

variable {fuel fuel' : Nat} {v : List Char} {p : Pattern} {k k' : Next} {c : Cursor} {g : Groups}

/-- The continuation `k` accepts in front of `v` what `k'` accepts, and nothing in `v`. -/
structure Stops (v : List Char) (p : Pattern) (k k' : Next) (c : Cursor) (g : Groups) : Prop where
  front : ∀ c' g', Reads p c g c' g' → k (c'.before v) g' = k' c' g'
  rest : ∀ c' g', Reads p (c.before v) g c' g' → c'.rest.length < v.length → k c' g' = none

theorem loop_before (hp : p.endless = true) (hv : inWord v.head? = false)
    (hrun : ∀ {k k' : Next} {c : Cursor} {g : Groups}, c.rest.length ≤ fuel' → Stops v p k k' c g →
      run fuel p k (c.before v) g = run fuel' p k' c g)
    {greedy : Bool} {n m : Nat} (hmn : m ≤ n) (hm : m ≤ fuel') (hc : c.rest.length ≤ m)
    (hk : Stops v (many greedy p) k k' c g) :
    loop (run fuel p) greedy k n (c.before v) g = loop (run fuel' p) greedy k' m c g := by
  induction m generalizing n c g with
  | zero =>
    cases n with
    | zero => exact hk.front c g .done
    | succ n =>
      -- Nothing is left in front of `v`, so another repetition ends in `v`, where `k` accepts nothing.
      have hagain : run fuel p (fun c' g' => if (c.before v).pos < c'.pos then
          loop (run fuel p) greedy k n c' g' else none) (c.before v) g = none := by
        refine Option.eq_none_iff_forall_ne_some.2 fun m hsome => ?_
        obtain ⟨c₁, g₁, hfirst, hsome⟩ := exists_reads_of_run hsome
        split at hsome
        · rename_i hlt
          obtain ⟨c₂, g₂, hmore, hsome⟩ := exists_reads_of_loop exists_reads_of_run hsome
          have hbeyond : c₁.rest.length < v.length := by
            have hsum := hfirst.pos_add_length
            simp only [Cursor.before, List.length_append] at hsum hlt
            omega
          rw [hk.rest c₂ g₂ (.more hfirst hmore) (Nat.lt_of_le_of_lt hmore.length_le hbeyond)] at hsome
          cases hsome
        · cases hsome
      unfold loop
      cases greedy <;> simp [hagain, hk.front c g .done]
  | succ m ih =>
    cases n with
    | zero => exact absurd hmn (Nat.not_succ_le_zero m)
    | succ n =>
      have hagain : run fuel p (fun c' g' => if (c.before v).pos < c'.pos then
          loop (run fuel p) greedy k n c' g' else none) (c.before v) g =
          run fuel' p (fun c' g' => if c.pos < c'.pos then loop (run fuel' p) greedy k' m c' g' else none) c g := by
        refine hrun (Nat.le_trans hc hm) ⟨fun c₁ g₁ hfirst => ?_, fun c₁ g₁ hfirst hbeyond => ?_⟩
        · show (if c.pos < c₁.pos then _ else none) = _
          split
          · rename_i hlt
            have hsum := hfirst.pos_add_length
            exact ih (Nat.le_of_succ_le_succ hmn) (Nat.le_of_succ_le hm) (by omega)
              ⟨fun c₂ g₂ h => hk.front c₂ g₂ (.more hfirst h),
                fun c₂ g₂ h => hk.rest c₂ g₂ (.more (hfirst.before hp hv) h)⟩
          · rfl
        · refine Option.eq_none_iff_forall_ne_some.2 fun m hsome => ?_
          split at hsome
          · obtain ⟨c₂, g₂, hmore, hsome⟩ := exists_reads_of_loop exists_reads_of_run hsome
            rw [hk.rest c₂ g₂ (.more hfirst hmore) (Nat.lt_of_le_of_lt hmore.length_le hbeyond)] at hsome
            cases hsome
          · cases hsome
      unfold loop
      simp only [hagain, hk.front c g .done]

theorem run_before (hp : p.endless = true) (hv : inWord v.head? = false) (hfuel : fuel' ≤ fuel)
    (hc : c.rest.length ≤ fuel') (hk : Stops v p k k' c g) :
    run fuel p k (c.before v) g = run fuel' p k' c g := by
  induction p generalizing k k' c g with
  | empty => exact hk.front c g .empty
  | char p =>
    obtain ⟨pos, prev, rest⟩ := c
    cases rest with
    | nil =>
      cases v with
      | nil => rfl
      | cons x v =>
        show (if p x then k ⟨pos + 1, some x, v⟩ g else none) = none
        split
        · rename_i hx
          exact hk.rest _ _ (.char hx) (Nat.lt_succ_self _)
        · rfl
    | cons x r =>
      show (if p x then k (Cursor.before ⟨pos + 1, some x, r⟩ v) g else none) = _
      simp only [run]
      split
      · rename_i hx
        exact hk.front _ _ (.char hx)
      · rfl
  | anchor a =>
    simp only [run, holds_before hp hv]
    split
    · rename_i ha
      exact hk.front _ _ (.anchor ha)
    · rfl
  | seq p q ihp ihq =>
    rw [endless, Bool.and_eq_true] at hp
    refine ihp hp.1 hc ⟨fun c₁ g₁ hfirst => ?_, fun c₁ g₁ hfirst hbeyond => ?_⟩
    · exact ihq hp.2 (Nat.le_trans hfirst.length_le hc) ⟨fun c₂ g₂ h => hk.front c₂ g₂ (.seq hfirst h),
        fun c₂ g₂ h => hk.rest c₂ g₂ (.seq (hfirst.before hp.1 hv) h)⟩
    · refine Option.eq_none_iff_forall_ne_some.2 fun m hsome => ?_
      obtain ⟨c₂, g₂, hsecond, hsome⟩ := exists_reads_of_run hsome
      rw [hk.rest c₂ g₂ (.seq hfirst hsecond) (Nat.lt_of_le_of_lt hsecond.length_le hbeyond)] at hsome
      cases hsome
  | either p q ihp ihq =>
    rw [endless, Bool.and_eq_true] at hp
    simp only [run]
    rw [ihp hp.1 hc ⟨fun c' g' h => hk.front c' g' (.left h), fun c' g' h => hk.rest c' g' (.left h)⟩,
      ihq hp.2 hc ⟨fun c' g' h => hk.front c' g' (.right h), fun c' g' h => hk.rest c' g' (.right h)⟩]
  | many greedy p ih =>
    have hp : p.endless = true := hp
    exact loop_before hp hv (fun hc hk => ih hp hc hk) hfuel (Nat.le_refl _) hc hk
  | group i p ih =>
    exact ih hp hc ⟨fun c' g' h => hk.front c' _ (.group h), fun c' g' h => hk.rest c' _ (.group h)⟩

end

/-! ### Matches in front of more text -/

/-- The match ends within the first `n` characters, and so do its groups. -/
structure Ends (m : Match) (n : Nat) : Prop where
  span : m.span.stop ≤ n
  groups : ∀ e ∈ m.groups, e.2.stop ≤ n

theorem text_append {s : Span} {u : List Char} (hs : s.stop ≤ u.length) (v : List Char) :
    s.text (u ++ v) = s.text u := by
  unfold Span.text Span.length
  by_cases hstart : s.start ≤ u.length
  · rw [List.drop_append_of_le_length hstart, List.take_append_of_le_length (by simp; omega)]
  · rw [show s.stop - s.start = 0 by omega, List.take_zero, List.take_zero]

theorem Ends.groupText?_append {m : Match} {u : List Char} (h : Ends m u.length) (v : List Char)
    (i : Nat) : m.groupText? (u ++ v) i = m.groupText? u i := by
  unfold Match.groupText? Match.group?
  split
  · rw [Option.map_some, Option.map_some, text_append h.span]
  · cases hl : m.groups.lookup i with
    | none => rfl
    | some s =>
      rw [Option.map_some, Option.map_some, text_append (h.groups (i, s) ?_)]
      obtain ⟨l₁, l₂, hgroups, -⟩ := List.lookup_eq_some_iff.1 hl
      rw [hgroups]
      simp

theorem Ends.groupText_append {m : Match} {u : List Char} (h : Ends m u.length) (v : List Char)
    (i : Nat) : m.groupText (u ++ v) i = m.groupText u i := by
  rw [Match.groupText, Match.groupText, h.groupText?_append]

theorem Reads.groups_le {p : Pattern} {c c' : Cursor} {g g' : Groups} (h : Reads p c g c' g')
    (hg : ∀ e ∈ g, e.2.stop ≤ c.pos) : ∀ e ∈ g', e.2.stop ≤ c'.pos := by
  induction h with
  | empty | anchor | done => exact hg
  | char => exact fun e he => Nat.le_succ_of_le (hg e he)
  | seq _ _ ihp ihq | more _ _ ihp ihq => exact ihq (ihp hg)
  | left _ ih | right _ ih => exact ih hg
  | group _ ih => exact List.forall_mem_cons.2 ⟨Nat.le_refl _, ih hg⟩

/-- A match that begins in `u` reaches into the text `v` behind it. -/
def Crosses (p : Pattern) (u v : List Char) : Prop :=
  ∃ x y z rest, u = x ++ y ∧ y ≠ [] ∧ v = z ++ rest ∧ z ≠ [] ∧
    Replaced p (fun _ => []) (u ++ v) x.getLast? (y ++ z) rest []

variable {p : Pattern} {u v : List Char}

theorem stops_accept {x y : List Char} (hcross : ¬ Crosses p u v) (hu : u = x ++ y) (hy : y ≠ [])
    {pos : Nat} (hin : Cursor.In ⟨pos, x.getLast?, y ++ v⟩ (u ++ v)) :
    Stops v p (fun c' g => some ⟨⟨pos, c'.pos⟩, g⟩) (fun c' g => some ⟨⟨pos, c'.pos⟩, g⟩)
      ⟨pos, x.getLast?, y⟩ [] where
  front _ _ _ := rfl
  rest c' g hreads hbeyond := by
    obtain ⟨w, rest, hw, rfl⟩ := hreads.eq_after
    have hw : y ++ v = w ++ rest := hw
    rcases List.append_eq_append_iff.1 hw with ⟨z, rfl, hz⟩ | ⟨z, -, hz⟩
    · by_cases hze : z = []
      · rw [hz, hze] at hbeyond
        exact absurd hbeyond (Nat.lt_irrefl _)
      · refine absurd ⟨x, y, z, rest, hu, hy, hz, hze, pos, g, ?_, ?_, rfl⟩ hcross
        · rwa [← hw]
        · rw [← hw]
          exact hreads
    · rw [hz, List.length_append] at hbeyond
      exact absurd hbeyond (Nat.not_lt_of_le (Nat.le_add_left _ _))

theorem replaceFrom_append (hn : p.nullable = false) (he : p.endless = true)
    (hv : inWord v.head? = false) (hcross : ¬ Crosses p u v) {f f' : Match → List Char}
    (hf : ∀ m, Ends m u.length → f m = f' m) {x y : List Char} (hu : u = x ++ y) :
    p.replaceFrom f (u ++ v).length x.length x.getLast? (y ++ v) =
      p.replaceFrom f' u.length x.length x.getLast? y ++
        p.replaceFrom f (u ++ v).length u.length u.getLast? v := by
  obtain ⟨n, hy⟩ : ∃ n, y.length = n := ⟨_, rfl⟩
  induction n using Nat.strongRecOn generalizing x y with
  | _ n ih =>
    cases y with
    | nil =>
      rw [List.append_nil] at hu
      rw [replaceFrom_nil hn, hu]
      rfl
    | cons c r =>
      have hin : Cursor.In ⟨x.length, x.getLast?, c :: r ++ v⟩ (u ++ v) := by
        rw [hu]
        exact ⟨by simp, by simp⟩
      have hfuel : (c :: r).length ≤ u.length := by rw [hu]; simp
      have hmatch : p.matchAt? (u ++ v).length ⟨x.length, x.getLast?, c :: r ++ v⟩ =
          p.matchAt? u.length ⟨x.length, x.getLast?, c :: r⟩ :=
        run_before he hv (by simp) hfuel (stops_accept hcross hu (List.cons_ne_nil c r) hin)
      cases hm : p.matchAt? u.length ⟨x.length, x.getLast?, c :: r⟩ with
      | none =>
        have hnext := ih r.length (by rw [← hy]; exact Nat.lt_succ_self _) (x := x ++ [c]) (by simp [hu]) rfl
        have hlength : (x ++ [c]).length = x.length + 1 := List.length_append
        rw [hlength, List.getLast?_concat] at hnext
        rw [hm, List.cons_append] at hmatch
        rw [replaceFrom_keep f' hm, List.cons_append, replaceFrom_keep f hmatch]
        exact congrArg (c :: ·) hnext
      | some m =>
        obtain ⟨w, rest, hw, hreads, hspan⟩ := reads_of_matchAt? hm
        have hne : w ≠ [] := by
          rintro rfl
          exact absurd (hreads.pos_lt hn) (Nat.lt_irrefl _)
        rw [hw] at hu hm hmatch hy ⊢
        have hends : Ends m u.length := by
          have hstop : x.length + w.length ≤ u.length := by
            rw [hu]
            simp
          exact ⟨by rwa [hspan], fun e he => Nat.le_trans (hreads.groups_le (by simp) e he) hstop⟩
        have hnext := ih rest.length ?_ (x := x ++ w) (by simp [hu]) rfl
        · have hlength : (x ++ w).length = x.length + w.length := List.length_append
          rw [hlength, List.getLast?_append] at hnext
          rw [hm, List.append_assoc] at hmatch
          rw [replaceFrom_hit f' hne hm hspan, List.append_assoc, replaceFrom_hit f hne hmatch hspan, hnext,
            hf m hends, List.append_assoc]
        · rw [← hy, List.length_append]
          exact Nat.lt_add_of_pos_left (List.length_pos_iff.2 hne)

/-- The front of a text that no match leaves is replaced as if it stood alone, and the rest by its
own matches. -/
theorem replaceAll_append (hp : p.productive = true) (hn : p.nullable = false) (he : p.endless = true)
    (hv : inWord v.head? = false) (hcross : ¬ Crosses p u v) {f f' : Match → List Char}
    (hf : ∀ m, Ends m u.length → f m = f' m) :
    ∃ out, p.replaceAll f (u ++ v) = p.replaceAll f' u ++ out ∧
      Edited (Unread p) (Replaced p f (u ++ v)) u.getLast? v out :=
  ⟨_, replaceFrom_append hn he hv hcross hf (List.nil_append u).symm,
    edited_replaceFrom hp hn f ⟨by simp, by simp⟩⟩

end Pattern

end Recast
