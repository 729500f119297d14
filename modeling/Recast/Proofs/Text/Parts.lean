import Recast.Proofs.Text.Partners

/-!
# Parts of a scanned text

The scan takes a text part by part, a literal or a comment whole and any other character by itself. The labels
of the characters are those of their parts (`labelled_scanAfter`).

Behind a character of code the scan goes on whatever was before it, and what is put there does not change the
parts in front of it, unless a quote among them finds its partner there (`scanAfter_change`).
-/

namespace Recast.Text

/-- A text as the scan takes it. -/
abbrev Scanned := List (Label × List Char)

/-- The parts that the scan takes behind `prev`, after `n` characters that belong to the part before. -/
def scanFrom (prev : Option Char) : Nat → List Char → Scanned
  | _, [] => []
  | n + 1, c :: r => scanFrom (some c) n r
  | 0, c :: r =>
    match literal? prev (c :: r) with
    | some (l, n + 1) => (l, (c :: r).take (n + 1)) :: scanFrom (some c) n r
    | _ => (.code, [c]) :: scanFrom (some c) 0 r

def scanAfter (prev : Option Char) (text : List Char) : Scanned := scanFrom prev 0 text

def scan (text : List Char) : Scanned := scanAfter none text

/-- The text of the parts. -/
def written (ps : Scanned) : List Char := ps.flatMap Prod.snd

@[simp] theorem written_nil : written [] = [] := rfl

@[simp] theorem written_cons (p : Label × List Char) (ps : Scanned) : written (p :: ps) = p.2 ++ written ps := rfl

@[simp] theorem written_append (ps qs : Scanned) : written (ps ++ qs) = written ps ++ written qs :=
  List.flatMap_append

/-! ### One part after another -/

theorem getLast?_or_some {u : List Char} (hu : u ≠ []) (prev : Option Char) : u.getLast?.or prev = u.getLast? := by
  rw [List.getLast?_eq_some_getLast hu]
  rfl

theorem getLast?_or_cons (c : Char) (u : List Char) : u.getLast?.or (some c) = (c :: u).getLast? := by
  cases u <;> simp [List.getLast?_cons]

theorem scanFrom_skip (prev : Option Char) (u rest : List Char) :
    scanFrom prev u.length (u ++ rest) = scanAfter (u.getLast?.or prev) rest := by
  induction u generalizing prev with
  | nil => rfl
  | cons c u ih =>
    rw [List.cons_append, List.length_cons, scanFrom, ih, getLast?_or_cons,
      getLast?_or_some (List.cons_ne_nil c u)]

theorem scanAfter_literal {prev : Option Char} {u rest : List Char} {l : Label} (hu : u ≠ [])
    (h : literal? prev (u ++ rest) = some (l, u.length)) :
    scanAfter prev (u ++ rest) = (l, u) :: scanAfter u.getLast? rest := by
  obtain ⟨c, v, rfl⟩ := List.exists_cons_of_ne_nil hu
  have hskip := scanFrom_skip (some c) v rest
  rw [getLast?_or_cons] at hskip
  rw [List.cons_append, List.length_cons] at h
  rw [List.cons_append, scanAfter, scanFrom, h]
  simp only [hskip, List.take_succ_cons, List.take_left]

theorem scanAfter_code {prev : Option Char} {c : Char} {r : List Char} (h : literal? prev (c :: r) = none) :
    scanAfter prev (c :: r) = (.code, [c]) :: scanAfter (some c) r := by
  rw [scanAfter, scanFrom, h]
  rfl

theorem scanAfter_alike {prev prev' : Option Char} {text : List Char} (h : Alike prev prev' text) :
    scanAfter prev' text = scanAfter prev text := by
  cases text with
  | nil => rfl
  | cons c r =>
    unfold scanAfter
    rw [scanFrom, scanFrom, literal?_alike h]

theorem scanAfter_plain {u : List Char} (hu : u.all isPlain = true) (prev : Option Char) (rest : List Char) :
    scanAfter prev (u ++ rest) = u.map (fun c => (.code, [c])) ++ scanAfter (u.getLast?.or prev) rest := by
  induction u generalizing prev with
  | nil => rfl
  | cons c u ih =>
    rw [List.all_cons, Bool.and_eq_true] at hu
    rw [List.cons_append, scanAfter_code (literal?_of_isPlain hu.1 prev _), ih hu.2, getLast?_or_cons,
      getLast?_or_some (List.cons_ne_nil c u)]
    rfl

theorem written_scanAfter (prev : Option Char) (text : List Char) : written (scanAfter prev text) = text := by
  induction prev, text using scan_induction with
  | nil prev => rfl
  | comment prev u rest hu hl ih => rw [scanAfter_literal hu hl, written_cons, ih]
  | quoted prev u rest hu hl ih => rw [scanAfter_literal hu hl, written_cons, ih]
  | code prev c r hl ih => rw [scanAfter_code hl, written_cons, ih]; rfl

/-- The labels of the characters are those of their parts. -/
theorem labelled_scanAfter (prev : Option Char) (text : List Char) :
    (scanAfter prev text).flatMap (fun p => p.2.map (·, p.1)) = markAfter prev text := by
  unfold markAfter
  induction prev, text using scan_induction with
  | nil prev => rfl
  | comment prev u rest hu hl ih => rw [scanAfter_literal hu hl, mark_literal hu hl, List.flatMap_cons, ih]
  | quoted prev u rest hu hl ih => rw [scanAfter_literal hu hl, mark_literal hu hl, List.flatMap_cons, ih]
  | code prev c r hl ih => rw [scanAfter_code hl, mark_code hl, List.flatMap_cons, ih]; rfl

/-- What the scan takes first: a character of code, or a literal. -/
inductive FirstPart (prev : Option Char) : (text : List Char) → Label × List Char → (rest : List Char) → Prop
  | code {c r} (h : literal? prev (c :: r) = none) : FirstPart prev (c :: r) (.code, [c]) r
  | literal {l u rest} (hu : u ≠ []) (h : literal? prev (u ++ rest) = some (l, u.length)) :
      FirstPart prev (u ++ rest) (l, u) rest

theorem firstPart_of_scanAfter {prev : Option Char} {text : List Char} {p : Label × List Char} {ps : Scanned}
    (h : scanAfter prev text = p :: ps) :
    FirstPart prev text p (written ps) ∧ ps = scanAfter p.2.getLast? (written ps) := by
  have hliteral {u rest : List Char} {l : Label} (hu : u ≠ [])
      (hl : literal? prev (u ++ rest) = some (l, u.length)) (h : scanAfter prev (u ++ rest) = p :: ps) :
      FirstPart prev (u ++ rest) p (written ps) ∧ ps = scanAfter p.2.getLast? (written ps) := by
    rw [scanAfter_literal hu hl] at h
    obtain ⟨rfl, rfl⟩ := List.cons.inj h
    rw [written_scanAfter]
    exact ⟨.literal hu hl, rfl⟩
  induction prev, text using scan_induction with
  | nil prev => cases h
  | comment prev u rest hu hl => exact hliteral hu hl h
  | quoted prev u rest hu hl => exact hliteral hu hl h
  | code prev c r hl =>
    rw [scanAfter_code hl] at h
    obtain ⟨rfl, rfl⟩ := List.cons.inj h
    rw [written_scanAfter]
    exact ⟨.code hl, rfl⟩

theorem FirstPart.ne_nil {prev : Option Char} {text rest : List Char} {p : Label × List Char}
    (h : FirstPart prev text p rest) : p.2 ≠ [] := by
  cases h with
  | code => exact List.cons_ne_nil _ _
  | literal hu => exact hu

theorem FirstPart.of_code {prev : Option Char} {text t rest : List Char} (h : FirstPart prev text (.code, t) rest) :
    ∃ c, t = [c] := by
  cases h with
  | code => exact ⟨_, rfl⟩
  | literal _ h => exact absurd rfl (ne_code_of_literal? h)

theorem FirstPart.of_literal {prev : Option Char} {text t rest : List Char} {l : Label} (hl : l ≠ .code)
    (h : FirstPart prev text (l, t) rest) : literal? prev (t ++ rest) = some (l, t.length) := by
  cases h with
  | code => exact absurd rfl hl
  | literal _ h => exact h

/-- Behind each of its parts a text is scanned by itself, but for the character in front. -/
theorem scanAfter_split {prev : Option Char} {text : List Char} {a b : Scanned}
    (h : scanAfter prev text = a ++ b) : b = scanAfter ((written a).getLast?.or prev) (written b) := by
  induction a generalizing prev text with
  | nil =>
    rw [List.nil_append] at h
    rw [← h, written_scanAfter]
    rfl
  | cons p a ih =>
    obtain ⟨hfirst, hrest⟩ := firstPart_of_scanAfter h
    have hb := ih hrest.symm
    rw [written_cons, List.getLast?_append, Option.or_assoc, getLast?_or_some hfirst.ne_nil]
    exact hb

theorem firstPart_of_mem {prev : Option Char} {text : List Char} {a b : Scanned} {p : Label × List Char}
    (h : scanAfter prev text = a ++ p :: b) :
    FirstPart ((written a).getLast?.or prev) (p.2 ++ written b) p (written b) := by
  have hsplit := scanAfter_split h
  rw [written_cons] at hsplit
  exact (firstPart_of_scanAfter hsplit.symm).1

/-- A quote of code that is not glued to a word has no partner. -/
theorem not_closes_of_code {prev : Option Char} {text : List Char} {a b : Scanned} {q : Char}
    (hq : q = '\'' ∨ q = '"') (h : scanAfter prev text = a ++ (.code, [q]) :: b)
    (hprev : ((written a).getLast?.or prev).any isIdentChar = false) : closes q false (written b) = false := by
  have hfirst := firstPart_of_mem h
  have hnone : literal? ((written a).getLast?.or prev) (q :: written b) = none := by
    generalize htext : [q] ++ written b = text at hfirst
    cases hfirst with
    | code hl => exact hl
    | literal _ hl => exact absurd rfl (ne_code_of_literal? hl)
  rw [literal?_string hq, hprev, if_neg (by decide), Option.map_eq_none_iff] at hnone
  rw [← isSome_stringLength?, hnone]
  rfl

/-! ### Where a part is -/

/-- Two members of one list: one stands in front of the other, or they stand at the same place. -/
theorem append_cons_cases {α : Type} {a b c d : List α} {x y : α} (h : a ++ x :: c = b ++ y :: d) :
    (∃ e, a = b ++ y :: e ∧ d = e ++ x :: c) ∨ (a = b ∧ x = y ∧ c = d) ∨
      ∃ e, b = a ++ x :: e ∧ c = e ++ y :: d := by
  rcases List.append_eq_append_iff.1 h with ⟨e, rfl, he⟩ | ⟨e, rfl, he⟩
  · cases e with
    | nil => exact .inr (.inl (by simpa using he))
    | cons z e =>
      obtain ⟨rfl, rfl⟩ := List.cons.inj he
      exact .inr (.inr ⟨e, rfl, rfl⟩)
  · cases e with
    | nil => exact .inr (.inl (by simpa [eq_comm] using he))
    | cons z e =>
      obtain ⟨rfl, rfl⟩ := List.cons.inj he
      exact .inl ⟨e, rfl, rfl⟩

theorem part_unique {a b a' b' : Scanned} {p p' : Label × List Char} {k : Nat} (h : a ++ p :: b = a' ++ p' :: b')
    (hp : (written a).length ≤ k ∧ k < (written a).length + p.2.length)
    (hp' : (written a').length ≤ k ∧ k < (written a').length + p'.2.length) : a = a' ∧ p = p' ∧ b = b' := by
  rcases append_cons_cases h with ⟨e, rfl, -⟩ | hsame | ⟨e, rfl, -⟩
  · simp only [written_append, written_cons, List.length_append] at hp
    omega
  · exact hsame
  · simp only [written_append, written_cons, List.length_append] at hp'
    omega

theorem exists_part {ps : Scanned} {k : Nat} (hk : k < (written ps).length) :
    ∃ a p b, ps = a ++ p :: b ∧ (written a).length ≤ k ∧ k < (written a).length + p.2.length := by
  induction ps generalizing k with
  | nil => cases hk
  | cons p ps ih =>
    rw [written_cons, List.length_append] at hk
    by_cases hp : k < p.2.length
    · exact ⟨[], p, ps, rfl, Nat.zero_le k, by simpa using hp⟩
    · obtain ⟨a, q, b, rfl, hle, hlt⟩ := ih (k := k - p.2.length) (by omega)
      refine ⟨p :: a, q, b, rfl, ?_⟩
      rw [written_cons, List.length_append]
      omega

/-! ### Ends of literals -/

theorem getLast?_template {r : List Char} (hrest : r.drop (templateLength r) ≠ []) :
    (r.take (templateLength r)).getLast? = some '`' := by
  fun_induction templateLength r with
  | case1 => exact absurd rfl hrest
  | case2 => exact absurd rfl hrest
  | case3 c r ih =>
    have hlast := ih hrest
    rw [List.take_succ_cons, List.take_succ_cons, List.getLast?_cons, List.getLast?_cons, hlast]
    rfl
  | case4 r => rfl
  | case5 c r hlone hpair htick ih =>
    rw [List.take_succ_cons, List.getLast?_cons, ih hrest]
    rfl

theorem getLast?_string {q : Char} {r : List Char} {n : Nat} (h : stringLength? q r = some n) :
    (r.take n).getLast? = some q := by
  fun_induction stringLength? q r generalizing n with
  | case1 => cases h
  | case2 => cases h
  | case3 c r ih =>
    obtain ⟨m, hm, rfl⟩ := Option.map_eq_some_iff.1 h
    rw [List.take_succ_cons, List.take_succ_cons, List.getLast?_cons, List.getLast?_cons, ih hm]
    rfl
  | case4 => cases h
  | case5 c r hlone hpair hn hq =>
    cases h
    rw [beq_iff_eq.1 hq]
    rfl
  | case6 c r hlone hpair hn hq ih =>
    obtain ⟨m, hm, rfl⟩ := Option.map_eq_some_iff.1 h
    rw [List.take_succ_cons, List.getLast?_cons, ih hm]
    rfl

/-- A literal that does not end the text ends with a sign that closes it, or it is a comment that ends with
its line. -/
theorem literal_end {prev : Option Char} {u r : List Char} {c : Char} {l : Label}
    (h : literal? prev (u ++ c :: r) = some (l, u.length)) :
    (∃ z, u.getLast? = some z ∧ isPlain z = false) ∨ c = '\n' ∧ ['/', '/'] <+: u := by
  rcases label_of_literal? h with rfl | rfl
  · generalize htext : u ++ c :: r = text at h
    unfold literal? at h
    split at h
    · rename_i s
      simp only [Option.some.injEq, Prod.mk.injEq, true_and] at h
      have hsplit : u ++ c :: r = ('/' :: '/' :: s.takeWhile (· != '\n')) ++ s.dropWhile (· != '\n') := by
        rw [htext]
        simp
      obtain ⟨rfl, hrest⟩ := List.append_inj hsplit (by simpa using h.symm)
      have hhead := List.head_dropWhile_not (p := (· != '\n')) (l := s) (by simp [← hrest])
      exact .inr ⟨by simpa [← hrest] using hhead, List.prefix_append ['/', '/'] _⟩
    · rename_i s
      simp only [Option.some.injEq, Prod.mk.injEq, true_and] at h
      obtain ⟨v, t, rfl, hn, hshape⟩ := blockComment_shape s
      have hsplit : u ++ c :: r = ('/' :: '*' :: v) ++ t := by rw [htext]; rfl
      obtain ⟨rfl, rfl⟩ := List.append_inj hsplit (by simp [← h, hn])
      rcases hshape with hnil | ⟨w, rfl⟩
      · cases hnil
      · exact .inl ⟨'/', by simp [List.getLast?_cons, List.getLast?_append], rfl⟩
    · simp at h
    · split at h
      · obtain ⟨n, -, hn⟩ := Option.map_eq_some_iff.1 h
        cases hn
      · cases h
    · cases h
  · rcases quoted_shape h with ⟨s, rfl, hs⟩ | ⟨q, s, n, hq, -, hn, rfl, -⟩
    · have hlast := getLast?_template (r := s) (hs ▸ List.cons_ne_nil c r)
      exact .inl ⟨'`', by rw [List.getLast?_cons, hlast]; rfl, rfl⟩
    · refine .inl ⟨q, by rw [List.getLast?_cons, getLast?_string hn]; rfl, ?_⟩
      rcases hq with rfl | rfl <;> rfl

/-- A plain character that is the last of a part is code, unless the line ends behind it. -/
theorem FirstPart.code_of_plain {prev : Option Char} {text t r : List Char} {l : Label} {c z : Char}
    (h : FirstPart prev text (l, t) (c :: r)) (hz : t.getLast? = some z) (hplain : isPlain z = true) :
    l = .code ∨ c = '\n' ∧ ['/', '/'] <+: t := by
  by_cases hl : l = .code
  · exact .inl hl
  · rcases literal_end (h.of_literal hl) with ⟨z', hz', hsign⟩ | hline
    · rw [hz, Option.some.injEq] at hz'
      rw [← hz', hplain] at hsign
      cases hsign
    · exact .inr hline

/-- Where a part ends with a plain character and the line goes on, the character is code. -/
theorem exists_concat_code {prev : Option Char} {u r : List Char} {x c : Char} {a b : Scanned}
    (hx : isPlain x = true) (hc : c ≠ '\n') (h : scanAfter prev (u ++ x :: c :: r) = a ++ b)
    (hlength : (written a).length = u.length + 1) : ∃ a', a = a' ++ [(.code, [x])] ∧ written a' = u := by
  have htext := written_scanAfter prev (u ++ x :: c :: r)
  rw [h, written_append, List.append_cons] at htext
  obtain ⟨ha, hb⟩ := List.append_inj htext (by rw [hlength, List.length_append]; rfl)
  obtain ⟨a', p, rfl⟩ := (List.eq_nil_or_concat' a).resolve_left (by
    rintro rfl
    cases hlength)
  rw [List.append_assoc, List.singleton_append] at h
  have hfirst := firstPart_of_mem h
  rw [written_append, written_cons, written_nil, List.append_nil] at ha
  have hlast : p.2.getLast? = some x := by
    have hlast := congrArg List.getLast? ha
    rwa [List.getLast?_append, List.getLast?_concat, getLast?_or_some hfirst.ne_nil] at hlast
  obtain ⟨l, t⟩ := p
  rw [hb] at hfirst
  obtain rfl : l = .code := (hfirst.code_of_plain hlast hx).resolve_right fun hline => hc hline.1
  obtain ⟨z, rfl⟩ := hfirst.of_code
  cases hlast
  exact ⟨a', rfl, List.append_cancel_right ha⟩

/-! ### Other text behind a character of code -/

/-- Behind a character that escapes nothing the search for a partner starts anew, if it has come so far. -/
theorem closes_behind {q x : Char} {r s : List Char} (hx : x ≠ '\\')
    (himp : closes q false r = true → closes q false s = true) (u : List Char) {esc : Bool}
    (h : closes q esc (u ++ x :: r) = true) : closes q esc (u ++ x :: s) = true := by
  induction u generalizing esc with
  | nil => exact closes_cons_of_imp hx himp h
  | cons c u ih =>
    rw [List.cons_append] at h ⊢
    cases esc with
    | true => exact ih h
    | false =>
      by_cases hc : c = '\\'
      · subst hc
        exact @ih true h
      · exact closes_cons_of_imp hc ih h

/-- Up to a character of code the parts do not hang on what follows, unless a quote finds its partner there. -/
theorem scanAfter_change {prev : Option Char} {a : Scanned} {x : Char} {v w : List Char}
    (hx : isPlain x = true)
    (h : scanAfter prev (written a ++ x :: v) = a ++ (.code, [x]) :: scanAfter (some x) v)
    (hquote : ∀ b q c, a = b ++ (.code, [q]) :: c → q = '\'' ∨ q = '"' →
      ((written b).getLast?.or prev).any isIdentChar = false →
      closes q false (written c ++ x :: w) = true → closes q false (written c ++ x :: v) = true) :
    scanAfter prev (written a ++ x :: w) = a ++ (.code, [x]) :: scanAfter (some x) w := by
  have hhead (u : List Char) (d : Char) : d ∈ (u ++ x :: w).head? → d ∈ (u ++ x :: v).head? := by
    cases u <;> exact id
  induction a generalizing prev with
  | nil => exact scanAfter_code (literal?_of_isPlain hx prev w)
  | cons p a ih =>
    obtain ⟨l, t⟩ := p
    rw [List.cons_append] at h
    obtain ⟨hfirst, hrest⟩ := firstPart_of_scanAfter h
    have hwritten : written (a ++ (.code, [x]) :: scanAfter (some x) v) = written a ++ x :: v := by
      rw [written_append, written_cons, written_scanAfter]
      rfl
    rw [hwritten] at hfirst hrest
    have hbehind : scanAfter t.getLast? (written a ++ x :: w) = a ++ (.code, [x]) :: scanAfter (some x) w := by
      refine ih hrest.symm fun b q c ha hq hprev => ?_
      refine hquote ((l, t) :: b) q c (by rw [ha]; rfl) hq ?_
      rwa [written_cons, List.getLast?_append, Option.or_assoc, getLast?_or_some hfirst.ne_nil]
    rw [written_cons, List.append_assoc, List.cons_append, ← hbehind]
    rw [written_cons, List.append_assoc] at hfirst
    generalize htext : t ++ (written a ++ x :: v) = text at hfirst
    cases hfirst with
    | code hl =>
      refine scanAfter_code (literal?_none_of_head hl (hhead (written a)) fun hq hprev => ?_)
      exact hquote [] _ a rfl hq hprev
    | literal hu hl =>
      refine scanAfter_literal hu ?_
      rcases label_of_literal? hl with rfl | rfl
      · exact literal?_comment_of_head hl (hhead (written a))
      · exact literal?_append hl (by simp) _

/-! ### Positions -/

/-- Behind `prev` the character at the position is code. -/
def CodeAt (prev : Option Char) (text : List Char) (i : Nat) : Prop :=
  ∃ a c b, scanAfter prev text = a ++ (.code, [c]) :: b ∧ (written a).length = i

/-- A double quote in front of the position, which is code and is not glued to a word, finds its partner if
one is put there. -/
def QuoteOpen (prev : Option Char) (text : List Char) (p : Nat) : Prop :=
  ∃ a b s, scanAfter prev text = a ++ (.code, ['"']) :: b ∧
    ((written a).getLast?.or prev).any isIdentChar = false ∧ s <+: written b ∧
    (written a).length + (s.length + 1) = p ∧ closes '"' false (s ++ ['"']) = true

/-- The position lies in a literal or a comment. What is put at the end of a line comment is in it. -/
def Inside (text : List Char) (p : Nat) : Prop :=
  ∃ a l t b, scan text = a ++ (l, t) :: b ∧ l ≠ .code ∧ (written a).length < p ∧
    (p < (written a).length + t.length ∨ p = (written a).length + t.length ∧ ['/', '/'] <+: t)

/-- Behind a character of code the text is scanned by itself. -/
theorem scanAfter_behind {prev : Option Char} {a b : Scanned} {x : Char} {v : List Char}
    (h : scanAfter prev (written a ++ x :: v) = a ++ (.code, [x]) :: b) : b = scanAfter (some x) v := by
  have htext := written_scanAfter prev (written a ++ x :: v)
  rw [h, written_append, List.append_cancel_left_eq, written_cons] at htext
  obtain rfl : written b = v := (List.cons.inj htext).2
  exact (firstPart_of_scanAfter (scanAfter_split h).symm).2

theorem CodeAt.scanAfter_eq {prev : Option Char} {u v : List Char} {x : Char}
    (h : CodeAt prev (u ++ x :: v) u.length) :
    ∃ a, scanAfter prev (u ++ x :: v) = a ++ (.code, [x]) :: scanAfter (some x) v ∧ written a = u := by
  obtain ⟨a, c, b, hscan, hlength⟩ := h
  have htext := written_scanAfter prev (u ++ x :: v)
  rw [hscan, written_append, written_cons] at htext
  obtain ⟨rfl, hrest⟩ := List.append_inj htext hlength
  obtain ⟨rfl, -⟩ := List.cons.inj hrest
  exact ⟨a, scanAfter_behind hscan ▸ hscan, rfl⟩

theorem written_concat (a : Scanned) (x : Char) (b : Scanned) :
    written (a ++ (.code, [x]) :: b) = written a ++ x :: written b := written_append ..

theorem exists_of_prefix {s u w : List Char} {x : Char} (h : s <+: u ++ x :: w) (hlength : u.length < s.length) :
    ∃ r, s = u ++ x :: r := by
  have hshort : u ++ [x] <+: u ++ x :: w := ⟨w, by simp⟩
  obtain ⟨r, rfl⟩ := List.prefix_of_prefix_length_le hshort h (by rwa [List.length_append])
  exact ⟨r, by simp⟩

section

variable {prev : Option Char} {a : Scanned} {x : Char} {v : List Char}
  (h : scanAfter prev (written a ++ x :: v) = a ++ (.code, [x]) :: scanAfter (some x) v)

include h

theorem codeAt_behind_iff (k : Nat) :
    CodeAt prev (written a ++ x :: v) ((written a).length + 1 + k) ↔ CodeAt (some x) v k := by
  constructor
  · rintro ⟨b, c, d, hscan, hlength⟩
    rw [h] at hscan
    rcases append_cons_cases hscan with ⟨e, rfl, -⟩ | ⟨rfl, -, -⟩ | ⟨e, rfl, hv⟩
    · rw [written_append, List.length_append] at hlength
      omega
    · omega
    · rw [written_concat, List.length_append, List.length_cons] at hlength
      exact ⟨e, c, d, hv, by omega⟩
  · rintro ⟨b, c, d, hscan, rfl⟩
    refine ⟨a ++ (.code, [x]) :: b, c, d, by rw [h, hscan, List.append_assoc]; rfl, ?_⟩
    rw [written_concat, List.length_append, List.length_cons]
    omega

theorem quoteOpen_at_iff (hx : x ≠ '"') :
    QuoteOpen prev (written a ++ x :: v) ((written a).length + 1) ↔
      ∃ b c, a = b ++ (.code, ['"']) :: c ∧ ((written b).getLast?.or prev).any isIdentChar = false ∧
        closes '"' false (written c ++ [x, '"']) = true := by
  constructor
  · rintro ⟨b, d, s, hscan, hprev, hs, hlength, hcloses⟩
    rw [h] at hscan
    rcases append_cons_cases hscan with ⟨e, rfl, rfl⟩ | ⟨-, hquote, -⟩ | ⟨e, rfl, -⟩
    · rw [written_concat, List.length_append, List.length_cons] at hlength
      rw [written_concat] at hs
      obtain ⟨r, rfl⟩ := exists_of_prefix hs (by omega)
      obtain rfl : r = [] := List.eq_nil_of_length_eq_zero (by
        rw [List.length_append, List.length_cons] at hlength
        omega)
      rw [List.append_assoc] at hcloses
      exact ⟨b, e, rfl, hprev, hcloses⟩
    · simp [hx] at hquote
    · rw [written_concat, List.length_append, List.length_cons] at hlength
      omega
  · rintro ⟨b, c, rfl, hprev, hcloses⟩
    refine ⟨b, c ++ (.code, [x]) :: scanAfter (some x) v, written c ++ [x], by rw [h, List.append_assoc]; rfl,
      hprev, ?_, ?_, by rw [List.append_assoc]; exact hcloses⟩
    · rw [written_concat]
      exact ⟨written (scanAfter (some x) v), by simp⟩
    · simp only [written_concat, List.length_append, List.length_cons, List.length_nil]
      omega

theorem quoteOpen_behind_iff (hx : x ≠ '"') (hesc : x ≠ '\\')
    (hclosed : ¬ QuoteOpen prev (written a ++ x :: v) ((written a).length + 1)) (k : Nat) :
    QuoteOpen prev (written a ++ x :: v) ((written a).length + 1 + k) ↔ QuoteOpen (some x) v k := by
  constructor
  · rintro ⟨b, d, s, hscan, hprev, hs, hlength, hcloses⟩
    rw [h] at hscan
    rcases append_cons_cases hscan with ⟨e, rfl, rfl⟩ | ⟨-, hquote, -⟩ | ⟨e, rfl, hv⟩
    · -- a quote that is open further on was open here already
      refine absurd ((quoteOpen_at_iff h hx).2 ⟨b, e, rfl, hprev, ?_⟩) hclosed
      rw [written_concat, List.length_append, List.length_cons] at hlength
      rw [written_concat] at hs
      obtain ⟨r, rfl⟩ := exists_of_prefix hs (by omega)
      rw [List.append_assoc] at hcloses
      exact closes_behind hesc (fun _ => rfl) _ hcloses
    · simp [hx] at hquote
    · rw [written_concat, List.getLast?_append, List.getLast?_cons, Option.or_assoc] at hprev
      rw [written_concat, List.length_append, List.length_cons] at hlength
      exact ⟨e, d, s, hv, by simpa using hprev, hs, by omega, hcloses⟩
  · rintro ⟨b, d, s, hscan, hprev, hs, rfl, hcloses⟩
    refine ⟨a ++ (.code, [x]) :: b, d, s, by rw [h, hscan, List.append_assoc]; rfl, ?_, hs, ?_, hcloses⟩
    · rw [written_concat, List.getLast?_append, List.getLast?_cons, Option.or_assoc]
      simpa using hprev
    · rw [written_concat, List.length_append, List.length_cons]
      omega

end

/-! ### Words of code -/

/-- A literal that has reached a plain word on one line does not end in it. If it ends with the word, it is a
comment. -/
theorem word_of_literal {prev : Option Char} {text y t rest word r : List Char} {l : Label} {d : Char}
    (h : FirstPart prev text (l, t) rest) (hl : l ≠ .code) (ht : t ++ rest = y ++ (word ++ d :: r))
    (hlt : y.length < t.length) (hplain : word.all isPlain = true) (hline : '\n' ∉ word) :
    y.length + word.length < t.length ∨ y.length + word.length = t.length ∧ ['/', '/'] <+: t := by
  by_cases hlong : y.length + word.length < t.length
  · exact .inl hlong
  obtain ⟨v, rfl⟩ := List.prefix_of_prefix_length_le ⟨_, rfl⟩ ⟨_, ht⟩ (Nat.le_of_lt hlt)
  rw [List.append_assoc, List.append_cancel_left_eq] at ht
  rw [List.length_append] at hlt hlong
  obtain ⟨w, rfl⟩ := List.prefix_of_prefix_length_le ⟨_, ht⟩ ⟨_, rfl⟩ (by omega)
  rw [List.append_assoc, List.append_cancel_left_eq] at ht
  have hv : v ≠ [] := List.length_pos_iff.1 (by omega)
  have hlast : (y ++ v).getLast? = some (v.getLast hv) := by
    rw [List.getLast?_append, List.getLast?_eq_some_getLast hv]
    rfl
  have hz : isPlain (v.getLast hv) = true :=
    List.all_eq_true.1 hplain _ (List.mem_append_left w (List.getLast_mem hv))
  rw [ht] at h
  cases w with
  | nil =>
    rcases h.code_of_plain hlast hz with hcode | ⟨-, hcomment⟩
    · exact absurd hcode hl
    · exact .inr ⟨by rw [List.append_nil, List.length_append], hcomment⟩
  | cons c w =>
    rcases h.code_of_plain hlast hz with hcode | ⟨rfl, -⟩
    · exact absurd hcode hl
    · exact absurd (List.mem_append_right v List.mem_cons_self) hline

/-- Of a plain word on one line that text follows, all characters are code or none is. If none is, the place
behind the word is inside the literal that holds it. -/
theorem word_of_text {y word r : List Char} {d : Char} (hne : word ≠ []) (hplain : word.all isPlain = true)
    (hline : '\n' ∉ word) :
    (∃ a, scan (y ++ (word ++ d :: r)) =
        a ++ (word.map (fun c => (.code, [c])) ++ scanAfter word.getLast? (d :: r)) ∧ written a = y) ∨
      ¬ CodeAt none (y ++ (word ++ d :: r)) y.length ∧
        Inside (y ++ (word ++ d :: r)) (y.length + word.length) := by
  have htext : written (scan (y ++ (word ++ d :: r))) = y ++ (word ++ d :: r) := written_scanAfter none _
  have hpos := List.length_pos_iff.2 hne
  have hin : y.length < (written (scan (y ++ (word ++ d :: r)))).length := by
    rw [htext, List.length_append, List.length_append]
    omega
  obtain ⟨a, ⟨l, t⟩, b, hscan, hle, hlt⟩ := exists_part hin
  have hfirst := firstPart_of_mem hscan
  have hsplit := scanAfter_split hscan
  rw [hscan, written_append, written_cons] at htext
  obtain ⟨y', rfl⟩ := List.prefix_of_prefix_length_le ⟨_, htext⟩ ⟨_, rfl⟩ hle
  rw [List.append_assoc] at htext
  have ht : t ++ written b = y' ++ (word ++ d :: r) := List.append_cancel_left htext
  rw [List.length_append] at hlt hle
  by_cases hl : l = .code
  · subst hl
    obtain ⟨c, rfl⟩ := hfirst.of_code
    obtain rfl : y' = [] := List.eq_nil_of_length_eq_zero (by
      rw [List.length_singleton] at hlt
      omega)
    refine .inl ⟨a, ?_, (List.append_nil _).symm⟩
    rw [written_cons, ht, List.nil_append, scanAfter_plain hplain, getLast?_or_some hne] at hsplit
    rw [hscan, hsplit]
  refine .inr ⟨?_, a, l, t, b, hscan, hl, by rw [List.length_append]; omega, ?_⟩
  · rintro ⟨a', c, b', hscan', hlength⟩
    rw [List.length_append] at hlength
    have hsame := part_unique (hscan.symm.trans hscan') ⟨hle, hlt⟩
      ⟨Nat.le_of_eq hlength, hlength ▸ Nat.lt_succ_self _⟩
    exact hl (congrArg Prod.fst hsame.2.1)
  rw [List.length_append]
  rcases word_of_literal hfirst hl ht (by simpa using hlt) hplain hline with hlong | ⟨hend, hcomment⟩
  · exact .inl (by omega)
  · exact .inr ⟨by omega, hcomment⟩

theorem CodeAt.not_inside {text : List Char} {i : Nat} (h : CodeAt none text i) : ¬ Inside text (i + 1) := by
  obtain ⟨a, c, b, hscan, rfl⟩ := h
  rintro ⟨a', l, t, b', hscan', hl, hlt, hend⟩
  have hle : (written a).length < (written a').length + t.length := by
    rcases hend with hend | ⟨hend, -⟩ <;> omega
  have hsame := part_unique (k := (written a).length) (hscan.symm.trans hscan')
    ⟨Nat.le_refl _, Nat.lt_succ_self _⟩ ⟨Nat.le_of_lt_succ hlt, hle⟩
  exact hl (congrArg Prod.fst hsame.2.1).symm

/-- The place behind a plain word is inside a literal or a comment exactly if the word does not begin as code,
and then it does not end as code. -/
theorem inside_behind_word {y w r : List Char} {x d : Char} (hplain : (w ++ [x]).all isPlain = true)
    (hline : '\n' ∉ w ++ [x]) :
    (Inside (y ++ (w ++ x :: d :: r)) (y.length + w.length + 1) ↔
        ¬ CodeAt none (y ++ (w ++ x :: d :: r)) y.length) ∧
      (Inside (y ++ (w ++ x :: d :: r)) (y.length + w.length + 1) ↔
        ¬ CodeAt none (y ++ (w ++ x :: d :: r)) (y.length + w.length)) := by
  have hword := word_of_text (y := y) (r := r) (d := d) (by simp) hplain hline
  rw [List.append_assoc, List.singleton_append, List.length_append, List.length_singleton, ← Nat.add_assoc,
    List.map_append, List.append_assoc] at hword
  rcases hword with ⟨a, hscan, rfl⟩ | ⟨hcode, hinside⟩
  · have hlast : CodeAt none (written a ++ (w ++ x :: d :: r)) ((written a).length + w.length) := by
      refine ⟨a ++ w.map fun c => (.code, [c]), x, _, by rw [List.append_assoc]; exact hscan, ?_⟩
      simp [written, List.flatMap_map]
    have hfirst : CodeAt none (written a ++ (w ++ x :: d :: r)) (written a).length := by
      cases w with
      | nil => exact hlast
      | cons c w => exact ⟨a, c, _, hscan, rfl⟩
    have hout := hlast.not_inside
    exact ⟨iff_of_false hout (not_not_intro hfirst), iff_of_false hout (not_not_intro hlast)⟩
  · exact ⟨iff_of_true hinside hcode, iff_of_true hinside fun hlast => hlast.not_inside hinside⟩

end Recast.Text
