import Recast.Proofs.Text.Counting

/-!
# Partners of brackets

A part of a text that ends before a character of code, or begins behind one, is scanned as it is by
itself (`mark_split`). So the search for a partner reads the brackets behind the one it starts from
(`partnerAt?_of_brackets`). In a balanced text it ends where a stack of all open brackets finds the
partner, since what stands between the two is nested, and a nested word leaves every count and every
stack as it was.

Blanking comments changes none of the brackets (`brackets_blankComments`), and with them neither
balance nor partners.
-/

namespace Recast.Text

/-! ### Parts of a scanned text -/

theorem exists_of_brackets {p q : Nat} {m : Marked} {c : Char} {u v : List (Nat × Char)}
    (h : m.brackets p = u ++ (q, c) :: v) :
    ∃ m₁ m₂ : Marked, m = m₁ ++ (c, .code) :: m₂ ∧ q = p + byteLength (m₁.map Prod.fst) ∧
      m₁.brackets p = u ∧ m₂.brackets (q + c.utf8Size) = v := by
  induction m generalizing p u with
  | nil =>
    cases u <;> cases h
  | cons x m ih =>
    obtain ⟨d, l⟩ := x
    rw [Marked.brackets] at h
    split at h
    · rename_i hd
      obtain ⟨rfl, hbracket⟩ := hd
      cases u with
      | nil =>
        obtain ⟨hx, hv⟩ := List.cons.inj h
        obtain ⟨rfl, rfl⟩ := Prod.mk.inj hx
        exact ⟨[], m, rfl, rfl, rfl, hv⟩
      | cons y u =>
        obtain ⟨rfl, hrest⟩ := List.cons.inj h
        obtain ⟨m₁, m₂, rfl, rfl, hu, hv⟩ := ih hrest
        refine ⟨(d, .code) :: m₁, m₂, rfl, ?_, ?_, hv⟩
        · rw [List.map_cons, byteLength, Nat.add_assoc]
        · rw [Marked.brackets, if_pos ⟨rfl, hbracket⟩, hu]
    · rename_i hd
      obtain ⟨m₁, m₂, rfl, rfl, hu, hv⟩ := ih h
      refine ⟨(d, l) :: m₁, m₂, rfl, ?_, ?_, hv⟩
      · rw [List.map_cons, byteLength, Nat.add_assoc]
      · rw [Marked.brackets, if_neg hd, hu]

/-- A quote that finds its partner finds it before any further text, too. -/
theorem closes_append {q : Char} {esc : Bool} {r : List Char} (h : closes q esc r = true) (s : List Char) :
    closes q esc (r ++ s) = true := by
  induction r generalizing esc with
  | nil => cases esc <;> cases h
  | cons c r ih =>
    rw [List.cons_append]
    cases esc with
    | true => exact ih h
    | false =>
      by_cases hc : c = '\\'
      · subst hc
        exact @ih true h
      · exact closes_cons_of_imp hc ih h

/-- Where no literal starts, none starts before any other text that begins in the same way, unless a quote
finds a partner there. -/
theorem literal?_none_of_head {prev : Option Char} {c : Char} {r s : List Char}
    (h : literal? prev (c :: r) = none) (hs : ∀ d ∈ s.head?, d ∈ r.head?)
    (hquote : c = '\'' ∨ c = '"' → prev.any isIdentChar = false → closes c false s = true →
      closes c false r = true) : literal? prev (c :: s) = none := by
  by_cases hslash : c = '/'
  · subst hslash
    rw [literal?_slash_eq_none_iff] at h ⊢
    exact ⟨fun hd => h.1 (hs _ hd), fun hd => h.2 (hs _ hd)⟩
  by_cases ht : c = '`'
  · subst ht
    cases h
  by_cases hq : c = '\'' ∨ c = '"'
  · rw [literal?_string hq] at h ⊢
    split
    · rfl
    · rename_i hprev
      rw [if_neg hprev, Option.map_eq_none_iff, ← Option.not_isSome_iff_eq_none, isSome_stringLength?] at h
      rw [Option.map_eq_none_iff, ← Option.not_isSome_iff_eq_none, isSome_stringLength?]
      exact fun hcloses => h (hquote hq (by simpa using hprev) hcloses)
  · exact literal?_plain hslash ht hq

/-- Where no literal starts, none starts when the text is cut short. -/
theorem literal?_eq_none_of_append {prev : Option Char} {c : Char} {r s : List Char}
    (h : literal? prev (c :: (r ++ s)) = none) : literal? prev (c :: r) = none := by
  refine literal?_none_of_head h (fun d hd => ?_) fun _ _ hcloses => closes_append hcloses s
  rw [List.head?_append, hd]
  rfl

theorem takeWhile_append_of_stops {p : Char → Bool} {w s : List Char} (hw : ∀ c ∈ w, p c = true)
    (hs : ∀ c ∈ s.head?, p c = false) : (w ++ s).takeWhile p = w := by
  rw [List.takeWhile_append_of_pos hw]
  cases s with
  | nil => simp
  | cons d s => simp [hs d rfl]

/-- A comment stays one before any other text, if that begins as the text behind the comment does. -/
theorem literal?_comment_of_head {prev : Option Char} {u rest s : List Char}
    (h : literal? prev (u ++ rest) = some (.comment, u.length)) (hs : ∀ c ∈ s.head?, c ∈ rest.head?) :
    literal? prev (u ++ s) = some (.comment, u.length) := by
  generalize htext : u ++ rest = text at h
  unfold literal? at h
  split at h
  · rename_i r
    simp only [Option.some.injEq, Prod.mk.injEq, true_and] at h
    have hsplit : u ++ rest = ('/' :: '/' :: r.takeWhile (· != '\n')) ++ r.dropWhile (· != '\n') := by
      rw [htext]
      simp
    obtain ⟨rfl, hrest⟩ := List.append_inj hsplit (by simpa using h.symm)
    have hstops : ∀ c ∈ s.head?, (c != '\n') = false := by
      intro c hc
      obtain ⟨t, ht⟩ := List.head?_eq_some_iff.1 (hs c hc)
      have hhead := List.head_dropWhile_not (p := (· != '\n')) (l := r) (by simp [← hrest, ht])
      simpa [← hrest, ht] using hhead
    have hline : (r.takeWhile (· != '\n') ++ s).takeWhile (· != '\n') = r.takeWhile (· != '\n') :=
      takeWhile_append_of_stops (List.all_eq_true.1 List.all_takeWhile) hstops
    simp only [List.cons_append, literal?, hline, List.length_cons]
  · rename_i r
    simp only [Option.some.injEq, Prod.mk.injEq, true_and] at h
    obtain ⟨v, t, rfl, hn, hshape⟩ := blockComment_shape r
    have hsplit : u ++ rest = ('/' :: '*' :: v) ++ t := by rw [htext]; rfl
    obtain ⟨rfl, rfl⟩ := List.append_inj hsplit (by simp [← h, hn])
    have hlength : blockCommentLength (v ++ s) = v.length := by
      rcases hshape with rfl | ⟨w, rfl⟩
      · cases s with
        | nil => exact hn
        | cons d s => cases hs d rfl
      · have hend : contains (w ++ ['*', '/']) "*/".toList = true :=
          contains_iff.2 (List.suffix_append w _).isInfix
        rw [blockCommentLength_append hend] at hn ⊢
        exact hn
    simp only [List.cons_append, literal?, hlength, List.length_cons]
  · simp at h
  · split at h
    · obtain ⟨n, -, hn⟩ := Option.map_eq_some_iff.1 h
      cases hn
    · cases h
  · cases h

/-- A comment stays one when the text behind it is cut short. -/
theorem literal?_comment_of_prefix {prev : Option Char} {u rest s : List Char}
    (h : literal? prev (u ++ rest) = some (.comment, u.length)) (hs : s <+: rest) :
    literal? prev (u ++ s) = some (.comment, u.length) := by
  refine literal?_comment_of_head h fun c hc => ?_
  obtain ⟨t, rfl⟩ := hs
  rw [List.head?_append, hc]
  rfl

theorem eq_append_of_markAfter {prev : Option Char} {text : List Char} {m m' : Marked} {c : Char} {l : Label}
    (h : markAfter prev text = m ++ (c, l) :: m') : text = m.map Prod.fst ++ c :: m'.map Prod.fst := by
  have hfst := map_fst_markFrom prev .code 0 text
  rw [markAfter] at h
  rw [h, List.map_append, List.map_cons] at hfst
  exact hfst.symm

/-- A character of code stands behind each literal that begins before it. -/
theorem exists_append_of_labelled {u : List Char} {l : Label} (hl : l ≠ .code) {r m m' : Marked} {c : Char}
    (h : u.map (·, l) ++ r = m ++ (c, .code) :: m') :
    ∃ m₂, m = u.map (·, l) ++ m₂ ∧ r = m₂ ++ (c, .code) :: m' := by
  rcases List.append_eq_append_iff.1 h with ⟨a, ha, hr⟩ | ⟨a, ha, hr⟩
  · exact ⟨a, ha, hr⟩
  · cases a with
    | nil => exact ⟨[], by simpa using ha.symm, hr.symm⟩
    | cons x a =>
      obtain ⟨rfl, -⟩ := List.cons.inj hr
      have hmem : (c, Label.code) ∈ u.map (·, l) := by
        rw [ha]
        simp
      obtain ⟨d, -, hd⟩ := List.mem_map.1 hmem
      exact absurd (congrArg Prod.snd hd) hl

/-- Up to a character of code the scan sees what it sees if the text is cut short there or further on. -/
theorem mark_cut {prev : Option Char} {text s : List Char} {m m' : Marked} {c : Char}
    (h : markAfter prev text = m ++ (c, .code) :: m') (hs : s <+: c :: m'.map Prod.fst) :
    markAfter prev (m.map Prod.fst ++ s) = m ++ markAfter ((m.map Prod.fst).getLast?.or prev) s := by
  have hliteral {prev : Option Char} {u rest : List Char} {l : Label} {m : Marked} (hu : u ≠ [])
      (hl : literal? prev (u ++ rest) = some (l, u.length))
      (hcut : rest ≠ [] → ∀ s, s <+: rest → literal? prev (u ++ s) = some (l, u.length))
      (ih : ∀ {m : Marked}, markAfter u.getLast? rest = m ++ (c, .code) :: m' →
        markAfter u.getLast? (m.map Prod.fst ++ s) = m ++ markAfter ((m.map Prod.fst).getLast?.or u.getLast?) s)
      (h : markAfter prev (u ++ rest) = m ++ (c, .code) :: m') :
      markAfter prev (m.map Prod.fst ++ s) = m ++ markAfter ((m.map Prod.fst).getLast?.or prev) s := by
    rw [markAfter, mark_literal hu hl] at h
    obtain ⟨m₂, rfl, hm₂⟩ := exists_append_of_labelled (ne_code_of_literal? hl) h
    have hrest := eq_append_of_markAfter hm₂
    have hpart := hcut (by simp [hrest]) (m₂.map Prod.fst ++ s)
      (hrest ▸ (List.prefix_append_right_inj _).2 hs)
    have hbefore := ih hm₂
    rw [markAfter] at hbefore
    rw [List.map_append, map_fst_labelled, getLast?_or_of_literal hu, List.append_assoc, markAfter,
      mark_literal hu hpart, hbefore, List.append_assoc]
  induction prev, text using scan_induction generalizing m with
  | nil prev => cases m <;> cases h
  | comment prev u rest hu hl ih => exact hliteral hu hl (fun _ s hs => literal?_comment_of_prefix hl hs) ih h
  | quoted prev u rest hu hl ih => exact hliteral hu hl (fun hrest s _ => literal?_append hl hrest s) ih h
  | code prev d r hl ih =>
    rw [markAfter, mark_code hl] at h
    cases m with
    | nil => rfl
    | cons x m =>
      rw [List.cons_append] at h
      obtain ⟨rfl, hm⟩ := List.cons.inj h
      have hbefore := ih hm
      obtain ⟨t, ht⟩ := hs
      rw [eq_append_of_markAfter hm, ← ht, ← List.append_assoc] at hl
      rw [markAfter] at hbefore
      have hlast : (d :: m.map Prod.fst).getLast?.or prev = (m.map Prod.fst).getLast?.or (some d) :=
        getLast?_or_of_literal (List.cons_ne_nil d []) prev
      rw [List.map_cons, hlast, List.cons_append, markAfter, mark_code (literal?_eq_none_of_append hl), hbefore]
      rfl

theorem code_of_markAfter {prev : Option Char} {c : Char} {r : List Char} {m : Marked}
    (h : markAfter prev (c :: r) = (c, .code) :: m) :
    literal? prev (c :: r) = none ∧ markAfter (some c) r = m := by
  have hnone : literal? prev (c :: r) = none := by
    cases hl : literal? prev (c :: r) with
    | none => rfl
    | some x =>
      obtain ⟨l, n⟩ := x
      obtain ⟨k, rfl⟩ := Nat.exists_eq_succ_of_ne_zero (FreeNames.literal?_pos hl).ne'
      rw [markAfter, markFrom, hl] at h
      exact absurd (congrArg Prod.snd (List.cons.inj h).1) (ne_code_of_literal? hl)
  rw [markAfter, mark_code hnone] at h
  exact ⟨hnone, (List.cons.inj h).2⟩

/-- A character of code is code where the text is cut behind it, and what is behind it is scanned by itself. -/
theorem mark_code_split {prev : Option Char} {text : List Char} {m m' : Marked} {c : Char}
    (h : markAfter prev text = m ++ (c, .code) :: m') :
    literal? ((m.map Prod.fst).getLast?.or prev) (c :: m'.map Prod.fst) = none ∧
      markAfter (some c) (m'.map Prod.fst) = m' := by
  have hall := mark_cut h (List.prefix_refl _)
  rw [← eq_append_of_markAfter h, h, List.append_cancel_left_eq] at hall
  exact code_of_markAfter hall.symm

/-- Up to a character of code, and behind it, the scan sees what it sees of these parts by
themselves. -/
theorem mark_split {prev : Option Char} {text : List Char} {m m' : Marked} {c : Char}
    (h : markAfter prev text = m ++ (c, .code) :: m') :
    markAfter prev (m.map Prod.fst) = m ∧ markAfter (some c) (m'.map Prod.fst) = m' := by
  have hbefore := mark_cut h List.nil_prefix
  rw [List.append_nil] at hbefore
  exact ⟨hbefore.trans (List.append_nil m), (mark_code_split h).2⟩

/-! ### Matching with a stack -/

/-- The offsets of the brackets that a stack of open brackets matches. A bracket that does not close
the last one open ends the matching. -/
def pairs : List (Nat × Bracket) → List (Nat × Char) → List (Nat × Nat)
  | _, [] => []
  | st, (p, c) :: r =>
    match Bracket.ofOpener? c, Bracket.ofCloser? c with
    | some b, _ => pairs ((p, b) :: st) r
    | none, none => pairs st r
    | none, some b =>
      match st with
      | [] => []
      | (q, b') :: st' => if b = b' then (q, p) :: pairs st' r else []

theorem pairs_opener (st : List (Nat × Bracket)) (p : Nat) (b : Bracket) (r : List (Nat × Char)) :
    pairs st ((p, b.opener) :: r) = pairs ((p, b) :: st) r := by
  rw [pairs, Bracket.ofOpener?_opener]

theorem pairs_closer (st : List (Nat × Bracket)) (p q : Nat) (b : Bracket) (r : List (Nat × Char)) :
    pairs ((q, b) :: st) ((p, b.closer) :: r) = (q, p) :: pairs st r := by
  rw [pairs, ofOpener?_closer, Bracket.ofCloser?_closer]
  exact if_pos rfl

theorem exists_of_map_snd {u : List (Nat × Char)} {b : Bracket} {v w : List Char}
    (h : u.map Prod.snd = b.opener :: (v ++ b.closer :: w)) :
    ∃ p q v' w', u = (p, b.opener) :: (v' ++ (q, b.closer) :: w') ∧ v'.map Prod.snd = v ∧
      w'.map Prod.snd = w := by
  obtain ⟨⟨p, c⟩, r, rfl, rfl, hr⟩ := List.map_eq_cons_iff.1 h
  obtain ⟨v', x, rfl, hv, hx⟩ := List.map_eq_append_iff.1 hr
  obtain ⟨⟨q, d⟩, w', rfl, rfl, hw⟩ := List.map_eq_cons_iff.1 hx
  exact ⟨p, q, v', w', rfl, hv, hw⟩

/-- A nested word leaves the stack as it was. -/
theorem Nested.pairs_subset {word : List Char} (h : Nested word) {u : List (Nat × Char)}
    (hu : u.map Prod.snd = word) (st : List (Nat × Bracket)) (r : List (Nat × Char)) :
    pairs st r ⊆ pairs st (u ++ r) := by
  induction h generalizing u st r with
  | nil =>
    obtain rfl := List.map_eq_nil_iff.1 hu
    exact List.Subset.refl _
  | enclose b _ _ ihv ihw =>
    obtain ⟨p, q, v, w, rfl, hv, hw⟩ := exists_of_map_snd hu
    have hinner := ihv hv ((p, b) :: st) ((q, b.closer) :: (w ++ r))
    rw [pairs_closer] at hinner
    rw [List.cons_append, pairs_opener, List.append_assoc, List.cons_append]
    exact List.Subset.trans (ihw hw st r) fun x hx => hinner (List.mem_cons_of_mem _ hx)

/-- A nested word leaves the count of each kind as it was. -/
theorem Nested.closerOffset?_append {word : List Char} (h : Nested word) {u : List (Nat × Char)}
    (hu : u.map Prod.snd = word) (b : Bracket) (depth : Nat) (r : List (Nat × Char)) :
    closerOffset? b (depth + 1) (u ++ r) = closerOffset? b (depth + 1) r := by
  induction h generalizing u depth r with
  | nil =>
    obtain rfl := List.map_eq_nil_iff.1 hu
    rfl
  | enclose b' _ _ ihv ihw =>
    obtain ⟨p, q, v, w, rfl, hv, hw⟩ := exists_of_map_snd hu
    rw [List.cons_append, List.append_assoc, List.cons_append]
    by_cases hb : b' = b
    · subst hb
      rw [closerOffset?_opener, ihv hv, closerOffset?_closer, if_neg (by omega)]
      exact ihw hw depth r
    · have ho : b'.opener ≠ b.opener := fun h => hb (opener_inj h)
      have hc : b'.closer ≠ b.closer := fun h => hb (closer_inj h)
      rw [closerOffset?_other _ _ _ ho (closer_ne_opener b b').symm, ihv hv,
        closerOffset?_other _ _ _ (closer_ne_opener b' b) hc]
      exact ihw hw depth r

/-- The stack that is left after the first brackets of a balanced text. -/
theorem exists_stack {st : List (Nat × Bracket)} {u r : List (Nat × Char)}
    (hu : ∀ x ∈ u, isBracket x.2 = true)
    (h : nests (st.map Prod.snd) ((u ++ r).map Prod.snd) = true) :
    ∃ st', nests (st'.map Prod.snd) (r.map Prod.snd) = true ∧ pairs st' r ⊆ pairs st (u ++ r) := by
  induction u generalizing st with
  | nil => exact ⟨st, h, List.Subset.refl _⟩
  | cons x u ih =>
    obtain ⟨p, c⟩ := x
    obtain ⟨hc, hrest⟩ := List.forall_mem_cons.1 hu
    rw [List.cons_append, List.map_cons] at h
    rcases exists_of_isBracket hc with ⟨b, rfl⟩ | ⟨b, rfl⟩
    · rw [nests_opener] at h
      obtain ⟨st', hst', hsub⟩ := @ih ((p, b) :: st) hrest h
      refine ⟨st', hst', ?_⟩
      rwa [List.cons_append, pairs_opener]
    · cases st with
      | nil =>
        rw [List.map_nil, nests_nil_closer] at h
        cases h
      | cons y st =>
        obtain ⟨q, b'⟩ := y
        rw [List.map_cons, nests_closer, Bool.and_eq_true, beq_iff_eq] at h
        obtain ⟨rfl, h⟩ := h
        obtain ⟨st', hst', hsub⟩ := ih hrest h
        refine ⟨st', hst', ?_⟩
        rw [List.cons_append, pairs_closer]
        exact List.Subset.trans hsub (List.subset_cons_self _ _)

/-! ### Partners -/

/-- Of the text a search for the partner of a bracket reads the brackets behind it. -/
theorem partnerAt?_of_brackets {text : List Char} {u v : List (Nat × Char)} {p : Nat} {b : Bracket}
    (h : brackets text = u ++ (p, b.opener) :: v) : partnerAt? text p = closerOffset? b 1 v := by
  obtain ⟨m₁, m₂, hmark, hp, -, hv⟩ := exists_of_brackets h
  rw [Nat.zero_add] at hp
  have htext := eq_append_of_markAfter hmark
  have hbehind := (mark_split hmark).2
  rw [htext, hp, partnerAt?_opener, hbehind, ← hp, hv]

theorem utf8Size_opener (b : Bracket) : b.opener.utf8Size = 1 := by cases b <;> rfl

/-- Behind a bracket that a balanced text opens stand a nested word and the closer that the stack
matches with the bracket. -/
theorem exists_closer {u v : List (Nat × Char)} {p : Nat} {b : Bracket}
    (hbracket : ∀ x ∈ u ++ (p, b.opener) :: v, isBracket x.2 = true)
    (h : nests [] ((u ++ (p, b.opener) :: v).map Prod.snd) = true) :
    ∃ a c w, v = a ++ (c, b.closer) :: w ∧ Nested (a.map Prod.snd) ∧
      (p, c) ∈ pairs [] (u ++ (p, b.opener) :: v) := by
  obtain ⟨hu, hv⟩ := List.forall_mem_append.1 hbracket
  obtain ⟨st, hst, hpairs⟩ := @exists_stack [] u _ hu h
  rw [List.map_cons, nests_opener] at hst
  have hword : ∀ c ∈ v.map Prod.snd, isBracket c = true := by
    intro c hc
    obtain ⟨x, hx, rfl⟩ := List.mem_map.1 hc
    exact hv x (List.mem_cons_of_mem _ hx)
  obtain ⟨inner, rest, hsplit, hinner, -⟩ := unwinds_of_nests hword hst
  obtain ⟨a, y, rfl, ha, hy⟩ := List.map_eq_append_iff.1 hsplit
  obtain ⟨⟨c, d⟩, w, rfl, rfl, -⟩ := List.map_eq_cons_iff.1 hy
  refine ⟨a, c, w, rfl, ha ▸ hinner, hpairs ?_⟩
  rw [pairs_opener]
  refine hinner.pairs_subset ha ((p, b) :: st) ((c, b.closer) :: w) ?_
  rw [pairs_closer]
  exact List.mem_cons_self

/-- Two brackets that the scan meets, and what the scan of the text between them meets. -/
theorem exists_between {text : List Char} {u a w : List (Nat × Char)} {p c : Nat} {b : Bracket}
    (h : brackets text = u ++ (p, b.opener) :: (a ++ (c, b.closer) :: w)) :
    ∃ before inside after, text = before ++ b.opener :: (inside ++ b.closer :: after) ∧
      p = byteLength before ∧ c = p + 1 + byteLength inside ∧ (mark inside).brackets (p + 1) = a := by
  obtain ⟨m₁, m₂, hmark, hp, -, hbehind⟩ := exists_of_brackets h
  rw [utf8Size_opener] at hbehind
  obtain ⟨m₃, m₄, rfl, hc, ha, -⟩ := exists_of_brackets hbehind
  have hbetween := (mark_split ((mark_split hmark).2.trans rfl)).1
  have hfresh : (some b.opener).any isIdentChar = false := by cases b <;> rfl
  rw [markAfter_fresh hfresh] at hbetween
  refine ⟨m₁.map Prod.fst, m₃.map Prod.fst, m₄.map Prod.fst, ?_, by rw [hp, Nat.zero_add], hc, ?_⟩
  · have htext := eq_append_of_markAfter hmark
    rwa [List.map_append, List.map_cons] at htext
  · rw [hbetween, ha]

/-- In a balanced text each bracket that opens and that the scan meets has the partner that a stack
of all open brackets finds, and what stands between the two is balanced. In any text the partner
found is the closer of the same kind at which the count of that kind comes back to zero for the
first time. -/
theorem partnerAt?_matches (text : List Char) :
    (isBalanced text = true → ∀ p b, (p, Bracket.opener b) ∈ brackets text →
      ∃ c before inside after, partnerAt? text p = some c ∧ (p, c) ∈ pairs [] (brackets text) ∧ p < c ∧
        text = before ++ b.opener :: (inside ++ b.closer :: after) ∧ p = byteLength before ∧
        c = p + 1 + byteLength inside ∧ isBalanced inside = true) ∧
    ∀ p c, partnerAt? text p = some c ↔
      ∃ b before inside after found, text = before ++ Bracket.opener b :: (inside ++ b.closer :: after) ∧
        p = byteLength before ∧ c = p + 1 + byteLength inside ∧
        Scans (some b.opener) (p + 1) (inside ++ b.closer :: after) found ∧ ReturnsAt b 1 found c := by
  refine ⟨fun hbalanced p b hp => ?_, fun p c => ⟨fun h => ?_, ?_⟩⟩
  · obtain ⟨u, v, huv⟩ := List.append_of_mem hp
    have hbracket : ∀ x ∈ u ++ (p, b.opener) :: v, isBracket x.2 = true := by
      intro x hx
      rw [← huv] at hx
      exact isBracket_of_mem_brackets hx
    rw [isBalanced_eq_nests, huv] at hbalanced
    obtain ⟨a, c, w, rfl, ha, hpair⟩ := exists_closer hbracket hbalanced
    obtain ⟨before, inside, after, htext, hbefore, hc, hinside⟩ := exists_between huv
    have hpartner : partnerAt? text p = some c := by
      rw [partnerAt?_of_brackets huv, ha.closerOffset?_append rfl, closerOffset?_closer, if_pos (Nat.le_refl 1)]
    have hclosed : isBalanced inside = true := by
      rw [← hinside] at ha
      exact (nests_brackets [] (p + 1) (mark inside)).symm.trans ha.closed
    exact ⟨c, before, inside, after, hpartner, huv ▸ hpair, by omega, htext, hbefore, hc, hclosed⟩
  · obtain ⟨before, b, rest, rfl, rfl⟩ := exists_of_partnerAt? h
    rw [partnerAt?_opener, utf8Size_opener] at h
    have hreturns := closerOffset?_eq_some_iff.1 h
    obtain ⟨upto, later, hfound, -⟩ := hreturns
    obtain ⟨m₁, m₂, hmark, hc, -⟩ := exists_of_brackets hfound
    have hrest := eq_append_of_markAfter hmark
    exact ⟨b, before, m₁.map Prod.fst, m₂.map Prod.fst, _, by rw [hrest], rfl, hc, by
      rw [← hrest]
      exact scans_iff.2 rfl, closerOffset?_eq_some_iff.1 h⟩
  · rintro ⟨b, before, inside, after, found, rfl, rfl, -, hscans, hreturns⟩
    rw [partnerAt?_opener, utf8Size_opener, ← scans_iff.1 hscans]
    exact closerOffset?_eq_some_iff.2 hreturns

/-- A bracket in a string is no partner, nor is one of another kind. -/
theorem quotedCloser_passed_over :
    let text := "f([')']) // (".toList
    isBalanced text = true ∧ (1, Bracket.opener .round) ∈ brackets text ∧
      partnerAt? text 1 = some 7 ∧ (1, 7) ∈ pairs [] (brackets text) := by
  intro text
  have hbalanced : isBalanced text = true := by decide
  have hmet : (1, Bracket.opener .round) ∈ brackets text := by decide
  obtain ⟨c, -, -, -, hpartner, hpair, -⟩ := (partnerAt?_matches text).1 hbalanced 1 .round hmet
  obtain rfl : c = 7 := Option.some.inj (hpartner.symm.trans (by decide))
  exact ⟨hbalanced, hmet, hpartner, hpair⟩

/-! ### Blanked comments -/

theorem byteLength_blankOut (c : Char) : byteLength (blankOut c) = c.utf8Size := by
  have hspaces (n : Nat) : byteLength (List.replicate n ' ') = n := by
    induction n with
    | zero => rfl
    | succ n ih =>
      rw [List.replicate_succ, byteLength, ih]
      exact Nat.add_comm 1 n
  unfold blankOut
  split
  · rename_i hc
    rw [hc]
    rfl
  · exact hspaces _

/-- A blanked character is no bracket and has its bytes. -/
theorem brackets_blankLabelled (x : Char × Label) (p : Nat) (m : Marked) :
    Marked.brackets p (blankLabelled x ++ m) = Marked.brackets p (x :: m) := by
  obtain ⟨c, l⟩ := x
  unfold blankLabelled
  split
  · rename_i hl
    have hblank : ∀ d ∈ blankOut c, isBracket d = false := by
      intro d hd
      have hmem : d ∈ [c].flatMap blankOut := by simpa using hd
      rcases blank_of_mem_blankOut d hmem with rfl | rfl <;> rfl
    have hnone (u : List Char) (hu : ∀ d ∈ u, isBracket d = false) (q : Nat) :
        Marked.brackets q (u.map (·, .code)) = [] := by
      induction u generalizing q with
      | nil => rfl
      | cons d u ih =>
        obtain ⟨hd, hu⟩ := List.forall_mem_cons.1 hu
        rw [List.map_cons, Marked.brackets, if_neg (by simp [hd])]
        exact ih hu _
    have hcomment : ¬ (l = .code ∧ isBracket c = true) := by
      rintro ⟨rfl, -⟩
      cases hl
    rw [brackets_append, hnone _ hblank, map_fst_labelled, byteLength_blankOut, Marked.brackets, if_neg hcomment]
    rfl
  · rfl

/-- The scan of the blanked text meets the same brackets at the same offsets. -/
theorem brackets_blankComments (text : List Char) : brackets (blankComments text) = brackets text := by
  have hlabelled (m : Marked) (p : Nat) : Marked.brackets p (m.flatMap blankLabelled) = m.brackets p := by
    induction m generalizing p with
    | nil => rfl
    | cons x m ih =>
      rw [List.flatMap_cons, brackets_blankLabelled, Marked.brackets, Marked.brackets, ih]
  have hmark : mark (blankComments text) = (mark text).flatMap blankLabelled := by
    rw [blankComments_eq_blankFrom]
    exact markFrom_blankFrom (.inl rfl)
  rw [brackets, hmark, hlabelled]
  rfl

/-- Blanking comments changes neither whether the text is balanced nor where the partner of a
bracket is found. -/
theorem blankComments_keeps_partners (text : List Char) :
    isBalanced (blankComments text) = isBalanced text ∧
      ∀ p b, (p, Bracket.opener b) ∈ brackets text →
        partnerAt? (blankComments text) p = partnerAt? text p := by
  refine ⟨?_, fun p b hp => ?_⟩
  · rw [isBalanced_eq_nests, isBalanced_eq_nests, brackets_blankComments]
  · obtain ⟨u, v, huv⟩ := List.append_of_mem hp
    have hblanked : brackets (blankComments text) = u ++ (p, b.opener) :: v :=
      (brackets_blankComments text).trans huv
    rw [partnerAt?_of_brackets huv, partnerAt?_of_brackets hblanked]

/-- The quote behind the comment, the bracket and the letter of two bytes in it do not matter. -/
theorem commentedCloser_blanked :
    let text := "f(/* é) */'x')".toList
    (1, Bracket.opener .round) ∈ brackets text ∧ partnerAt? (blankComments text) 1 = partnerAt? text 1 ∧
      partnerAt? text 1 = some 14 := by
  intro text
  have hmet : (1, Bracket.opener .round) ∈ brackets text := by decide
  exact ⟨hmet, (blankComments_keeps_partners text).2 1 .round hmet, by decide⟩

end Recast.Text
