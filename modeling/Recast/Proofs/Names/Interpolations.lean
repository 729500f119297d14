import Recast.Proofs.Names.Listing
import Recast.Proofs.Pattern.Edits
import Recast.Proofs.Text.Partners

/-!
# Templates in interpolations

Templates nest: an interpolation holds code, and in that code templates may begin. A reading that keeps
the open frames knows at every place whether it is in the code. The scan for names keeps none: it takes a
template to end at its first tick. Both agree up to a place outside all templates if no tick before it stands
inside an interpolation (`Reads.inCode`).
-/

namespace Recast.FreeNames

open Text

/-! ### Where literals and brackets end -/

theorem exists_of_closerIndex? {b : Bracket} {d k : ℕ} {m : Marked} (h : closerIndex? b d m = some k) :
    ∃ m₁ m₂, m = m₁ ++ (b.closer, .code) :: m₂ ∧ m₁.length = k := by
  induction m generalizing d k with
  | nil => cases h
  | cons x m ih =>
    obtain ⟨c, l⟩ := x
    have hlater {d : ℕ} (h : (closerIndex? b d m).map (· + 1) = some k) :
        ∃ m₁ m₂, (c, l) :: m = m₁ ++ (b.closer, .code) :: m₂ ∧ m₁.length = k := by
      obtain ⟨k, hk, rfl⟩ := Option.map_eq_some_iff.1 h
      obtain ⟨m₁, m₂, rfl, rfl⟩ := ih hk
      exact ⟨(c, l) :: m₁, m₂, rfl, rfl⟩
    rw [closerIndex?] at h
    split at h
    · exact hlater h
    · split at h
      · rename_i hcloser
        split at h
        · cases h
          simp only [Bool.and_eq_true, beq_iff_eq] at hcloser
          exact ⟨[], m, by rw [hcloser.1, hcloser.2]; rfl, rfl⟩
        · exact hlater h
      · exact hlater h

/-- Where a text is cut is told by the length of the part before. -/
theorem cut_unique {x text u part v a b : List Char} (h : x ++ text = a ++ b) (htext : text = u ++ (part ++ v))
    (hlength : a.length = x.length + u.length) : a = x ++ u ∧ b = part ++ v := by
  rw [htext, ← List.append_assoc] at h
  obtain ⟨ha, hb⟩ := List.append_inj h (by rw [List.length_append, hlength])
  exact ⟨ha.symm, hb.symm⟩

theorem drop_closer (u rest : List Char) : (u ++ '}' :: rest).drop (u.length + 1) = rest := by
  rw [List.append_cons]
  exact List.drop_left' (by simp)

/-- A part without a tick, with the brace behind it, belongs to the template whatever it escapes. -/
theorem templateLength_append_closer {u : List Char} (hu : '`' ∉ u) (v : List Char) :
    templateLength (u ++ '}' :: v) = u.length + 1 + templateLength v := by
  induction hn : u.length using Nat.strongRecOn generalizing u with
  | _ n ih =>
    subst hn
    cases u with
    | nil =>
      rw [List.nil_append, templateLength_cons (by decide) (by decide), List.length_nil]
      omega
    | cons c u =>
      simp only [List.mem_cons, not_or] at hu
      by_cases hc : c = '\\'
      · subst hc
        cases u with
        | nil => exact Nat.add_comm _ _
        | cons d u =>
          have hshort := ih u.length (by simp) (fun h => hu.2 (List.mem_cons_of_mem d h)) rfl
          show templateLength (u ++ '}' :: v) + 2 = _
          rw [hshort, List.length_cons, List.length_cons]
          omega
      · rw [List.cons_append, templateLength_cons hc (Ne.symm hu.1), ih u.length (by simp) hu.2 rfl, List.length_cons]
        omega

theorem getLast?_of_templateLength {u v : List Char} (h : templateLength (u ++ v) = u.length) (hv : v ≠ []) :
    u.getLast? = some '`' := by
  obtain ⟨w, rest, hsplit, hlength, hend⟩ := templateLength_split (u ++ v)
  obtain ⟨rfl, rfl⟩ := List.append_inj hsplit (h.symm.trans hlength)
  exact hend.resolve_left hv

/-- Up to a character of code a scan meets the literals that it meets if the text is cut there. -/
theorem literal?_cut {prev : Option Char} {text : List Char} {m m' : Marked} {c : Char}
    (h : markAfter prev text = m ++ (c, .code) :: m') (hm : m ≠ []) :
    literal? prev (m.map Prod.fst) = literal? prev text := by
  have htext := eq_append_of_markAfter h
  cases hliteral : literal? prev text with
  | none =>
    obtain ⟨x, m, rfl⟩ := List.exists_cons_of_ne_nil hm
    rw [htext] at hliteral
    exact literal?_eq_none_of_append hliteral
  | some y =>
    obtain ⟨l, n⟩ := y
    obtain ⟨u, r, rfl, hu, rfl, -⟩ := literal?_split hliteral
    rw [markAfter, mark_literal hu hliteral] at h
    obtain ⟨m₂, rfl, -⟩ := exists_append_of_labelled (ne_code_of_literal? hliteral) h
    rw [List.map_append, map_fst_labelled, List.append_assoc, List.append_cancel_left_eq] at htext
    subst htext
    rw [List.map_append, map_fst_labelled]
    rcases label_of_literal? hliteral with rfl | rfl
    · exact literal?_comment_of_prefix hliteral (List.prefix_append _ _)
    · exact literal?_append hliteral (by simp) _

/-! ### Reading with open frames -/

inductive Frame
  | template
  | interpolation
  | brace
  deriving DecidableEq, Repr

/-- Where a reading stands: in the open frames, the innermost first, and that many characters before the
end of a literal or an escape. -/
structure Place where
  frames : List Frame
  skip : ℕ
  deriving DecidableEq, Repr

namespace Place

/-- The place behind the character `c` of a text that goes on with `r`. -/
def next (s : Place) (prev : Option Char) (c : Char) (r : List Char) : Place :=
  match s with
  | ⟨fs, n + 1⟩ => ⟨fs, n⟩
  | ⟨.template :: fs, 0⟩ =>
    if c = '\\' then ⟨.template :: fs, 1⟩
    else if c = '`' then ⟨fs, 0⟩
    else if c = '$' ∧ r.head? = some '{' then ⟨.interpolation :: .template :: fs, 1⟩
    else ⟨.template :: fs, 0⟩
  | ⟨fs, 0⟩ =>
    if c = '`' then ⟨.template :: fs, 0⟩
    else
      match literal? prev (c :: r) with
      | some (_, n) => ⟨fs, n - 1⟩
      | none =>
        if c = '{' ∧ fs ≠ [] then ⟨.brace :: fs, 0⟩
        else if c = '}' then ⟨fs.tail, 0⟩
        else ⟨fs, 0⟩

/-- The place behind a part of the text, before the rest of it. -/
def behind (s : Place) (prev : Option Char) : List Char → List Char → Place
  | [], _ => s
  | c :: u, rest => (s.next prev c (u ++ rest)).behind (some c) u rest

def inCode (s : Place) : Bool := s.skip == 0 && s.frames.head? != some .template

def inInterpolation (s : Place) : Bool := s.frames.head?.any (· != .template)

theorem behind_append (s : Place) (prev : Option Char) (u v rest : List Char) :
    s.behind prev (u ++ v) rest = (s.behind prev u (v ++ rest)).behind (u.getLast?.or prev) v rest := by
  induction u generalizing s prev with
  | nil => rfl
  | cons c u ih => rw [List.cons_append, behind, behind, ih, List.append_assoc, Pattern.getLast?_cons_or]

/-- No tick of the part stands inside an interpolation. -/
def TickFree (s : Place) (prev : Option Char) : List Char → List Char → Prop
  | [], _ => True
  | c :: u, rest => (c = '`' → s.inInterpolation = false) ∧ (s.next prev c (u ++ rest)).TickFree (some c) u rest

theorem tickFree_append {s : Place} {prev : Option Char} {u v rest : List Char} :
    s.TickFree prev (u ++ v) rest ↔
      s.TickFree prev u (v ++ rest) ∧ (s.behind prev u (v ++ rest)).TickFree (u.getLast?.or prev) v rest := by
  induction u generalizing s prev with
  | nil => exact (and_iff_right trivial).symm
  | cons c u ih =>
    rw [List.cons_append, TickFree, TickFree, behind, ih, List.append_assoc, Pattern.getLast?_cons_or, and_assoc]

end Place

/-- Where the reading stands before the character at `p`. -/
def placeAt (expr : List Char) (p : ℕ) : Place := (⟨[], 0⟩ : Place).behind none (expr.take p) (expr.drop p)

theorem placeAt_append (a b : List Char) : placeAt (a ++ b) a.length = (⟨[], 0⟩ : Place).behind none a b := by
  rw [placeAt, List.take_left, List.drop_left]

/-- Before position `p` a tick stands inside an interpolation. -/
def TickInside (expr : List Char) (p : ℕ) : Prop :=
  ∃ i < p, expr[i]? = some '`' ∧ (placeAt expr i).inInterpolation = true

instance (expr : List Char) (p : ℕ) : Decidable (TickInside expr p) :=
  inferInstanceAs (Decidable (∃ i < p, _))

theorem tickFree_of_not_tickInside {expr : List Char} {q : ℕ} (h : ¬ TickInside expr q) :
    (⟨[], 0⟩ : Place).TickFree none (expr.take q) (expr.drop q) := by
  have hpart (v : List Char) (s : Place) (prev : Option Char)
      (hticks : ∀ x y, v = x ++ '`' :: y → (s.behind prev x ('`' :: y ++ expr.drop q)).inInterpolation = false) :
      s.TickFree prev v (expr.drop q) := by
    induction v generalizing s prev with
    | nil => trivial
    | cons c v ih =>
      refine ⟨?_, ih _ _ fun x y hxy => ?_⟩
      · rintro rfl
        exact hticks [] v rfl
      · have htick := hticks (c :: x) y (congrArg (c :: ·) hxy)
        rwa [Place.behind, ← List.append_assoc, ← hxy] at htick
  refine hpart _ _ _ fun x y hxy => ?_
  have hexpr : expr = x ++ ('`' :: y ++ expr.drop q) := by
    rw [← List.append_assoc, ← hxy, List.take_append_drop]
  have hlength : x.length < q := by
    have hshort := congrArg List.length hxy
    simp at hshort
    omega
  have htick : (x ++ ('`' :: y ++ expr.drop q))[x.length]? = some '`' := by simp
  have hplace := placeAt_append x ('`' :: y ++ expr.drop q)
  rw [← hexpr] at htick hplace
  rw [← hplace, Bool.eq_false_iff]
  exact fun hinside => h ⟨x.length, hlength, htick, hinside⟩

namespace Place

/-! ### Inside an interpolation -/

theorem next_code {fs : List Frame} (h : fs.head? ≠ some .template) (prev : Option Char) (c : Char) (r : List Char) :
    (⟨fs, 0⟩ : Place).next prev c r =
      if c = '`' then ⟨.template :: fs, 0⟩
      else
        match literal? prev (c :: r) with
        | some (_, n) => ⟨fs, n - 1⟩
        | none =>
          if c = '{' ∧ fs ≠ [] then ⟨.brace :: fs, 0⟩
          else if c = '}' then ⟨fs.tail, 0⟩
          else ⟨fs, 0⟩ := by
  cases fs with
  | nil => rfl
  | cons f fs => cases f <;> first | rfl | exact absurd rfl h

/-- Inside an interpolation of a template that no other contains. -/
def inner (d : ℕ) : List Frame := List.replicate d .brace ++ [.interpolation, .template]

theorem head?_inner (d : ℕ) : (inner d).head? ≠ some .template := by
  cases d <;> simp [inner, List.replicate_succ]

/-- The reading stands in an interpolation, and the search for the brace that closes it, with the result `x`,
has come to the same place. -/
def Seeks (s : Place) (prev : Option Char) (text : List Char) (x : Option ℕ) : Prop :=
  ∃ d l, s.frames = inner d ∧ (s.skip = 0 ∨ l ≠ .code) ∧
    closerIndex? .curly (d + 1) (markFrom prev l s.skip text) = x

variable {s : Place} {prev : Option Char} {x : Option ℕ}

theorem Seeks.inInterpolation {text : List Char} (h : s.Seeks prev text x) : s.inInterpolation = true := by
  obtain ⟨d, l, hframes, -⟩ := h
  rw [Place.inInterpolation, hframes]
  cases d <;> simp [inner, List.replicate_succ]

theorem Seeks.frames_ne {text : List Char} (h : s.Seeks prev text x) : s.frames ≠ [] := by
  obtain ⟨d, l, hframes, -⟩ := h
  simp [hframes, inner]

theorem Seeks.next {c : Char} {r : List Char} (h : s.Seeks prev (c :: r) x) (hc : c ≠ '`') :
    (c = '}' ∧ x = some 0 ∧ s.next prev c r = ⟨[.template], 0⟩) ∨
      ∃ x', x = x'.map (· + 1) ∧ (s.next prev c r).Seeks (some c) r x' := by
  obtain ⟨d, l, hframes, hskip, rfl⟩ := h
  obtain ⟨fs, n⟩ := s
  obtain rfl : fs = inner d := hframes
  have hpassed {l : Label} (hl : l ≠ .code) (m : Marked) :
      closerIndex? .curly (d + 1) ((c, l) :: m) = (closerIndex? .curly (d + 1) m).map (· + 1) := by
    simp [closerIndex?, hl]
  cases n with
  | succ n =>
    have hl : l ≠ .code := hskip.resolve_left (Nat.succ_ne_zero n)
    exact .inr ⟨_, hpassed hl _, d, l, rfl, .inr hl, rfl⟩
  | zero =>
    rw [next_code (head?_inner d), if_neg hc]
    cases hliteral : literal? prev (c :: r) with
    | some y =>
      obtain ⟨l', n⟩ := y
      obtain ⟨n, rfl⟩ := Nat.exists_eq_add_one.2 (literal?_pos hliteral)
      have hl : l' ≠ .code := ne_code_of_literal? hliteral
      simp only [markFrom, hliteral]
      exact .inr ⟨_, hpassed hl _, d, l', rfl, .inr hl, rfl⟩
    | none =>
      simp only [markFrom, hliteral]
      by_cases hopen : c = '{'
      · subst hopen
        rw [if_pos ⟨rfl, by simp [inner]⟩]
        exact .inr ⟨_, rfl, d + 1, .code, rfl, .inl rfl, rfl⟩
      rw [if_neg fun h => hopen h.1]
      by_cases hclose : c = '}'
      · subst hclose
        rw [if_pos rfl]
        cases d with
        | zero => exact .inl ⟨rfl, rfl, rfl⟩
        | succ d => exact .inr ⟨_, rfl, d, .code, rfl, .inl rfl, rfl⟩
      · rw [if_neg hclose]
        refine .inr ⟨_, ?_, d, .code, rfl, .inl rfl, rfl⟩
        simp [closerIndex?, Bracket.opener, Bracket.closer, hopen, hclose]

/-- Up to the brace that closes it a reading stays inside the interpolation, so no tick is met there. -/
theorem Seeks.behind {u v : List Char} (h : s.Seeks prev (u ++ v) x) (hx : ∀ k ∈ x, u.length ≤ k)
    (hticks : s.TickFree prev u v) :
    '`' ∉ u ∧ ∃ x', x = x'.map (· + u.length) ∧ (s.behind prev u v).Seeks (u.getLast?.or prev) v x' := by
  induction u generalizing s prev x with
  | nil => exact ⟨List.not_mem_nil, x, by simp, h⟩
  | cons c u ih =>
    have hc : c ≠ '`' := by
      intro hc
      have hout := hticks.1 hc
      rw [h.inInterpolation] at hout
      cases hout
    rcases h.next hc with ⟨-, rfl, -⟩ | ⟨x', rfl, hnext⟩
    · exact absurd (hx 0 rfl) (Nat.not_succ_le_zero _)
    · have hx' : ∀ k ∈ x', u.length ≤ k := by
        rintro k rfl
        exact Nat.le_of_succ_le_succ (hx (k + 1) rfl)
      obtain ⟨hrest, x'', rfl, hseeks⟩ := ih hnext hx' hticks.2
      rw [Pattern.getLast?_cons_or]
      refine ⟨by simp [Ne.symm hc, hrest], x'', ?_, hseeks⟩
      simp [Option.map_map, Function.comp_def, Nat.add_assoc]

/-- The reading stands in an interpolation, and `text` is left before the brace that closes it. -/
def Inside (s : Place) (prev : Option Char) (text rest : List Char) : Prop :=
  s.Seeks prev (text ++ '}' :: rest) (some text.length)

variable {rest : List Char}

theorem Inside.next_closer (h : s.Inside prev [] rest) : s.next prev '}' rest = ⟨[.template], 0⟩ := by
  rcases Seeks.next h (by decide) with ⟨-, -, hnext⟩ | ⟨x', hx, -⟩
  · exact hnext
  · cases x' <;> cases hx

theorem Inside.next {c : Char} {r : List Char} (h : s.Inside prev (c :: r) rest) (hc : c ≠ '`') :
    (s.next prev c (r ++ '}' :: rest)).Inside (some c) r rest := by
  rcases Seeks.next h hc with ⟨-, hx, -⟩ | ⟨x', hx, hnext⟩
  · cases hx
  · obtain ⟨k, rfl, hk⟩ := Option.map_eq_some_iff.1 hx.symm
    rw [Nat.succ.inj hk] at hnext
    exact hnext

theorem Inside.behind {u v : List Char} (h : s.Inside prev (u ++ v) rest)
    (hticks : s.TickFree prev u (v ++ '}' :: rest)) :
    '`' ∉ u ∧ (s.behind prev u (v ++ '}' :: rest)).Inside (u.getLast?.or prev) v rest := by
  rw [Inside, List.append_assoc] at h
  obtain ⟨htick, x, hx, hseeks⟩ := Seeks.behind h (by simp) hticks
  obtain ⟨k, rfl, hk⟩ := Option.map_eq_some_iff.1 hx.symm
  rw [List.length_append, Nat.add_comm, Nat.add_left_cancel_iff] at hk
  rw [hk] at hseeks
  exact ⟨htick, hseeks⟩

/-! ### To the end of a template -/

/-- The reading of the part ends outside all templates, and no tick of it stands inside an interpolation. -/
structure Clear (s : Place) (prev : Option Char) (u rest : List Char) : Prop where
  ticks : s.TickFree prev u rest
  ends : (s.behind prev u rest).frames = []

theorem clear_append {u v : List Char} : s.Clear prev (u ++ v) rest ↔
    s.TickFree prev u (v ++ rest) ∧ (s.behind prev u (v ++ rest)).Clear (u.getLast?.or prev) v rest := by
  constructor
  · rintro ⟨hticks, hends⟩
    rw [tickFree_append] at hticks
    rw [behind_append] at hends
    exact ⟨hticks.1, hticks.2, hends⟩
  · rintro ⟨hticks, hticks', hends⟩
    exact ⟨tickFree_append.2 ⟨hticks, hticks'⟩, by rwa [behind_append]⟩

theorem Clear.next {c : Char} {u : List Char} (h : s.Clear prev (c :: u) rest) :
    (s.next prev c (u ++ rest)).Clear (some c) u rest :=
  ⟨h.ticks.2, h.ends⟩

/-- A brace that has its partner opens an interpolation. -/
theorem exists_inside {r : List Char} {k : ℕ} (h : closerIndex? .curly 1 (markAfter (some '{') r) = some k) :
    ∃ u rest, r = u ++ '}' :: rest ∧ u.length = k ∧ (⟨inner 0, 0⟩ : Place).Inside (some '{') u rest := by
  obtain ⟨m₁, m₂, hmark, rfl⟩ := exists_of_closerIndex? h
  have hr := eq_append_of_markAfter hmark
  refine ⟨m₁.map Prod.fst, m₂.map Prod.fst, hr, List.length_map .., 0, .code, rfl, .inl rfl, ?_⟩
  rw [List.length_map, ← h, hr]
  rfl

/-- A reading that ends outside all templates leaves an interpolation by the brace that the search finds. -/
theorem Clear.exists_closer {u v : List Char} (h : (⟨inner 0, 0⟩ : Place).Clear (some '{') u v) :
    ∃ w rest, u = w ++ '}' :: rest ∧ closerIndex? .curly 1 (markAfter (some '{') (u ++ v)) = some w.length ∧
      (⟨inner 0, 0⟩ : Place).Inside (some '{') w (rest ++ v) := by
  have hseeks : (⟨inner 0, 0⟩ : Place).Seeks (some '{') (u ++ v)
      (closerIndex? .curly 1 (markAfter (some '{') (u ++ v))) := ⟨0, .code, rfl, .inl rfl, rfl⟩
  have hleft : ¬ ∀ k ∈ closerIndex? .curly 1 (markAfter (some '{') (u ++ v)), u.length ≤ k := by
    intro hlong
    obtain ⟨-, x, -, hstill⟩ := hseeks.behind hlong h.ticks
    exact Seeks.frames_ne hstill h.ends
  simp only [not_forall, not_le] at hleft
  obtain ⟨k, hk, hshort⟩ := hleft
  obtain ⟨w, rest, hsplit, rfl, hinside⟩ := exists_inside hk
  rw [List.append_cons] at hsplit
  obtain ⟨a, rfl⟩ : w ++ ['}'] <+: u :=
    List.prefix_of_prefix_length_le (hsplit ▸ List.prefix_append _ _) (List.prefix_append u v) (by simpa using hshort)
  obtain rfl : a ++ v = rest := List.append_cancel_left (List.append_assoc .. ▸ hsplit)
  exact ⟨w, a, (List.append_cons ..).symm, hk, hinside⟩

theorem Inside.behind_closer {u : List Char} (h : s.Inside prev u rest)
    (hticks : s.TickFree prev u ('}' :: rest)) :
    '`' ∉ u ∧ s.behind prev (u ++ ['}']) rest = ⟨[.template], 0⟩ := by
  rw [← List.append_nil u] at h
  obtain ⟨htick, hinside⟩ := h.behind hticks
  exact ⟨htick, by rw [behind_append]; exact hinside.next_closer⟩

theorem behind_opener (prev : Option Char) (r : List Char) :
    (⟨[.template], 0⟩ : Place).behind prev ['$', '{'] r = ⟨inner 0, 0⟩ := rfl

/-- A reading of a template past an interpolation. -/
theorem Clear.interpolation {u v : List Char} (h : (⟨[.template], 0⟩ : Place).Clear prev ('$' :: u) v)
    (hopen : (u ++ v).head? = some '{') :
    ∃ w rest, u = '{' :: (w ++ '}' :: rest) ∧ '`' ∉ w ∧
      closerIndex? .curly 1 (markAfter (some '{') (w ++ '}' :: rest ++ v)) = some w.length ∧
      (⟨[.template], 0⟩ : Place).behind prev ('$' :: '{' :: (w ++ ['}'])) (rest ++ v) = ⟨[.template], 0⟩ ∧
      (⟨[.template], 0⟩ : Place).Clear (some '}') rest v := by
  have hnext : (⟨[.template], 0⟩ : Place).next prev '$' (u ++ v) = ⟨inner 0, 1⟩ := by
    rw [Place.next, if_neg (by decide), if_neg (by decide), if_pos ⟨rfl, hopen⟩]
    rfl
  have hclear := h.next
  rw [hnext] at hclear
  cases u with
  | nil => cases hclear.ends
  | cons c u =>
    obtain rfl : c = '{' := Option.some.inj hopen
    have hclear : (⟨inner 0, 0⟩ : Place).Clear (some '{') u v := hclear.next
    obtain ⟨w, rest, rfl, hcloser, hinside⟩ := hclear.exists_closer
    rw [List.append_cons, clear_append] at hclear
    obtain ⟨hticks, hbehind⟩ := hclear
    rw [tickFree_append] at hticks
    obtain ⟨htick, hplace⟩ := hinside.behind_closer hticks.1
    rw [hplace, List.getLast?_concat] at hbehind
    exact ⟨w, rest, rfl, htick, hcloser, hplace, hbehind⟩

theorem next_template (prev : Option Char) {c : Char} {r : List Char} (hslash : c ≠ '\\') (htick : c ≠ '`')
    (hopen : ¬ (c = '$' ∧ r.head? = some '{')) :
    (⟨[.template], 0⟩ : Place).next prev c r = ⟨[.template], 0⟩ := by
  rw [Place.next, if_neg hslash, if_neg htick, if_neg hopen]

/-- The reading of a template ends where the scan ends it. -/
theorem behind_template {u y v : List Char} (hlength : templateLength (u ++ (y ++ v)) = u.length)
    (hrest : y ++ v ≠ []) (h : (⟨[.template], 0⟩ : Place).Clear prev (u ++ y) v) :
    (⟨[.template], 0⟩ : Place).behind prev u (y ++ v) = ⟨[], 0⟩ := by
  induction hn : u.length using Nat.strongRecOn generalizing u prev with
  | _ n ih =>
    subst hn
    have hlast := getLast?_of_templateLength hlength hrest
    cases u with
    | nil => cases hlast
    | cons c u =>
      rw [List.cons_append] at h
      by_cases hslash : c = '\\'
      · subst hslash
        cases u with
        | nil => cases hlast
        | cons d u =>
          have hlength : templateLength (u ++ (y ++ v)) + 2 = u.length + 2 := hlength
          have hend := ih u.length (by simp) (Nat.add_right_cancel hlength) h.next.next rfl
          exact hend
      by_cases htick : c = '`'
      · subst htick
        have hone : 1 = u.length + 1 := hlength
        obtain rfl : u = [] := List.length_eq_zero_iff.1 (Nat.succ.inj hone).symm
        rfl
      rw [List.cons_append, templateLength_cons hslash htick, List.length_cons, Nat.add_right_cancel_iff] at hlength
      by_cases hopen : c = '$' ∧ (u ++ (y ++ v)).head? = some '{'
      · obtain ⟨rfl, hbrace⟩ := hopen
        rw [← List.append_assoc] at hbrace
        obtain ⟨w, rest, hu, htick, -, hplace, hclear⟩ := h.interpolation hbrace
        -- The last tick is not in the interpolation, so the template goes on behind its brace.
        have hlast := getLast?_of_templateLength hlength hrest
        have hwhole : '{' :: (w ++ ['}']) <+: u ++ y := ⟨rest, by simp [hu]⟩
        rcases List.prefix_or_prefix_of_prefix hwhole (List.prefix_append u y) with hbefore | hinside
        · obtain ⟨u', rfl⟩ := hbefore
          obtain rfl : u' ++ y = rest := by simpa using hu
          have hshort : templateLength (u' ++ (y ++ v)) = u'.length := by
            have hsame : '{' :: (w ++ ['}']) ++ u' ++ (y ++ v) = '{' :: (w ++ '}' :: (u' ++ (y ++ v))) := by simp
            rw [hsame, templateLength_cons (by decide) (by decide), templateLength_append_closer htick] at hlength
            simp at hlength
            omega
          have hend := ih u'.length (by simp; omega) hshort hclear rfl
          rw [List.append_assoc] at hplace
          rw [← List.cons_append, behind_append, hplace]
          simpa [List.getLast?_cons] using hend
        · have hmem := hinside.subset (List.mem_of_getLast? hlast)
          simp [htick] at hmem
      · have hnext := next_template prev hslash htick hopen
        have hclear := h.next
        rw [List.append_assoc, hnext] at hclear
        rw [Place.behind, hnext]
        exact ih u.length (by simp) hlength hclear rfl

end Place

/-- The scan finds the interpolations of a template where the reading comes to them. -/
theorem Interpolation.reached {pos n start : ℕ} {text inner a b y v : List Char} {prev : Option Char}
    (h : Interpolation pos n text start inner) (htext : text = a ++ b) (hstart : start = pos + a.length)
    (hn : n = templateLength text) (hb : b = y ++ v)
    (hclear : (⟨[.template], 0⟩ : Place).Clear prev (a ++ y) v) :
    (⟨[.template], 0⟩ : Place).behind prev a b = ⟨Place.inner 0, 0⟩ ∧ a.getLast? = some '{' ∧
      ∃ rest, b = inner ++ '}' :: rest ∧ (⟨Place.inner 0, 0⟩ : Place).Inside (some '{') inner rest := by
  induction h generalizing a prev with
  | @first pos n k r hk =>
    have hparts : ['$', '{'] ++ r = a ++ b := htext
    obtain ⟨rfl, rfl⟩ := List.append_inj hparts (Nat.add_left_cancel hstart)
    obtain ⟨w, rest, rfl, rfl, hinside⟩ := Place.exists_inside hk
    rw [List.take_left]
    exact ⟨Place.behind_opener prev _, rfl, rest, rfl, hinside⟩
  | @later pos n k r start inner hk h ih =>
    obtain ⟨w, rest, rfl, rfl, -⟩ := Place.exists_inside hk
    rw [drop_closer] at h ih
    obtain ⟨a', b', hrest, hstart'⟩ := h.split
    rw [List.append_assoc] at hrest
    have hparts : '$' :: '{' :: (w ++ ['}']) ++ rest = a ++ b := by simpa using htext
    obtain ⟨rfl, rfl⟩ := cut_unique hparts hrest (by simp; omega)
    rw [List.append_assoc, List.cons_append] at hclear
    obtain ⟨w', rest', hw, htick, hcloser, hplace, hclear⟩ := hclear.interpolation rfl
    have hpart : w' ++ '}' :: rest' = w ++ '}' :: (a' ++ y) := by simpa using hw.symm
    have hwhole : w ++ '}' :: (a' ++ y) ++ v = w ++ '}' :: rest := by simp [hrest, hb]
    rw [hpart, hwhole, hk, Option.some_inj] at hcloser
    obtain ⟨rfl, hrest'⟩ := List.append_inj hpart hcloser.symm
    obtain rfl : rest' = a' ++ y := (List.cons.inj hrest').2
    have hshort : n - (w'.length + 1) = templateLength rest := by
      rw [templateLength_cons (by decide) (by decide), templateLength_cons (by decide) (by decide),
        templateLength_append_closer htick] at hn
      omega
    obtain ⟨hplace', hlast, hfound⟩ := ih hrest hstart' hshort hclear
    rw [List.append_assoc, ← hb] at hplace
    refine ⟨?_, by simp [List.getLast?_cons, List.getLast?_append, hlast], hfound⟩
    rw [Place.behind_append, hplace]
    simpa [List.getLast?_cons] using hplace'
  | @escaped pos n c r start inner h ih =>
    obtain ⟨a', b', hrest, hstart'⟩ := h.split
    rw [List.append_assoc] at hrest
    obtain ⟨rfl, rfl⟩ : a = '\\' :: c :: a' ∧ b = inner ++ b' :=
      cut_unique (x := ['\\', c]) htext hrest (by simp; omega)
    have hlength : n + 2 = templateLength r + 2 := hn
    have hclear : (⟨[.template], 0⟩ : Place).Clear (some c) (a' ++ y) v := hclear.next.next
    obtain ⟨hplace, hlast, hfound⟩ := ih hrest hstart' (Nat.add_right_cancel hlength) hclear
    exact ⟨hplace, by simp [List.getLast?_cons, hlast], hfound⟩
  | @char pos n c r start inner hc hk h ih =>
    obtain ⟨a', b', hrest, hstart'⟩ := h.split
    rw [List.append_assoc] at hrest
    obtain ⟨rfl, rfl⟩ : a = c :: a' ∧ b = inner ++ b' := cut_unique (x := [c]) htext hrest (by simp; omega)
    have htick : c ≠ '`' := by
      rintro rfl
      cases hn
    rw [templateLength_cons hc htick] at hn
    rw [List.cons_append] at hclear
    have hopen : ¬ (c = '$' ∧ r.head? = some '{') := by
      rintro ⟨rfl, hbrace⟩
      have hwhole : r = a' ++ y ++ v := by rw [hrest, hb, List.append_assoc]
      obtain ⟨w, rest, hw, -, hcloser, -⟩ := hclear.interpolation (hwhole ▸ hbrace)
      have hnone := hk (w ++ '}' :: rest ++ v) rfl (by rw [hwhole, hw]; rfl)
      rw [hnone] at hcloser
      cases hcloser
    have hnext := Place.next_template prev hc htick hopen
    have hlater := hclear.next
    rw [List.append_assoc, ← hb, ← hrest, hnext] at hlater
    obtain ⟨hplace, hlast, hfound⟩ := ih hrest hstart' (Nat.succ.inj hn) hlater
    rw [Place.behind, ← hrest, hnext]
    exact ⟨hplace, by simp [List.getLast?_cons, hlast], hfound⟩

/-! ### The scan stays in code -/

namespace Place

/-- The reading stands in code, with `text` left before the end of the code. -/
inductive Stands (s : Place) (prev : Option Char) (text after : List Char) : Prop
  | outside (hs : s = ⟨[], 0⟩) (hafter : after = [])
  | inside {rest} (hskip : s.skip = 0) (h : s.Inside prev text rest) (hafter : after = '}' :: rest)

variable {s : Place} {prev : Option Char} {text after : List Char}

theorem Stands.frames (h : s.Stands prev text after) :
    ∃ fs : List Frame, s = ⟨fs, 0⟩ ∧ fs.head? ≠ some .template := by
  obtain ⟨fs, n⟩ := s
  cases h with
  | outside hs =>
    cases hs
    exact ⟨[], rfl, by simp⟩
  | inside hskip h =>
    obtain ⟨d, -, hframes, -⟩ := h
    obtain rfl : n = 0 := hskip
    obtain rfl : fs = inner d := hframes
    exact ⟨inner d, rfl, head?_inner d⟩

theorem Stands.inCode (h : s.Stands prev text after) : s.inCode = true := by
  obtain ⟨fs, rfl, hfs⟩ := h.frames
  simp [Place.inCode, hfs]

theorem Stands.literal?_eq (h : s.Stands prev text after) (htext : text ≠ []) :
    literal? prev (text ++ after) = literal? prev text := by
  cases h with
  | outside hs hafter => rw [hafter, List.append_nil]
  | @inside rest hskip h hafter =>
    obtain ⟨d, l, -, -, hcloser⟩ := h
    subst hafter
    obtain ⟨m, m', hmark, hlength⟩ := exists_of_closerIndex? hcloser
    rw [hskip] at hmark
    have hcode : markAfter prev (text ++ '}' :: rest) = m ++ ('}', .code) :: m' :=
      (markFrom_append prev l [] _).symm.trans hmark
    obtain ⟨rfl, -⟩ := List.append_inj (eq_append_of_markAfter hcode) (by simp [hlength])
    exact (literal?_cut hcode (by simpa using htext)).symm

theorem behind_skip (fs : List Frame) (u rest : List Char) (prev : Option Char) :
    (⟨fs, u.length⟩ : Place).behind prev u rest = ⟨fs, 0⟩ := by
  induction u generalizing prev with
  | nil => rfl
  | cons c u ih => exact ih (some c)

/-- Past a character that begins no literal. -/
theorem Stands.char {c : Char} {r : List Char} (h : s.Stands prev (c :: r) after)
    (hnone : literal? prev (c :: r) = none) : (s.next prev c (r ++ after)).Stands (some c) r after := by
  have hfull : literal? prev (c :: (r ++ after)) = none := (h.literal?_eq (by simp)).trans hnone
  have htick : c ≠ '`' := by
    rintro rfl
    cases hnone
  obtain ⟨fs, rfl, hfs⟩ := h.frames
  have hnext := next_code hfs prev c (r ++ after)
  rw [if_neg htick, hfull] at hnext
  cases h with
  | outside hs hafter =>
    cases hs
    refine .outside ?_ hafter
    rw [hnext]
    simp
  | @inside rest hskip h hafter =>
    subst hafter
    refine .inside ?_ (h.next htick) rfl
    rw [hnext]
    split_ifs <;> rfl

/-- Past a literal that is no template. -/
theorem Stands.literal {u r : List Char} {l : Label} (h : s.Stands prev (u ++ r) after) (hu : u ≠ [])
    (hliteral : literal? prev (u ++ r) = some (l, u.length)) (htick : u.head? ≠ some '`')
    (hticks : s.TickFree prev u (r ++ after)) :
    (s.behind prev u (r ++ after)).Stands (u.getLast?.or prev) r after := by
  obtain ⟨fs, rfl, hfs⟩ := h.frames
  have hpassed : (⟨fs, 0⟩ : Place).behind prev u (r ++ after) = ⟨fs, 0⟩ := by
    have hfull := (h.literal?_eq (by simp [hu])).trans hliteral
    obtain ⟨c, u, rfl⟩ := List.exists_cons_of_ne_nil hu
    have hc : c ≠ '`' := fun hc => htick (congrArg some hc)
    have hnext := next_code hfs prev c (u ++ (r ++ after))
    rw [List.append_assoc, List.cons_append] at hfull
    rw [if_neg hc, hfull] at hnext
    rw [Place.behind, hnext]
    exact behind_skip fs u _ _
  cases h with
  | outside hs hafter => exact .outside (hpassed.trans hs) hafter
  | @inside rest hskip h hafter =>
    subst hafter
    refine .inside ?_ (h.behind hticks).2 rfl
    rw [hpassed]

theorem Stands.eq_outside (h : s.Stands prev text after) (hout : s.inInterpolation = false) :
    s = ⟨[], 0⟩ ∧ after = [] := by
  cases h with
  | outside hs hafter => exact ⟨hs, hafter⟩
  | inside hskip h =>
    rw [h.inInterpolation] at hout
    cases hout

/-- Past a template that is followed by something. -/
theorem Stands.template {u r y v : List Char} (h : s.Stands prev ('`' :: (u ++ r)) after)
    (hlength : templateLength (u ++ r) = u.length) (hr : r ≠ []) (hrest : r ++ after = y ++ v)
    (hclear : s.Clear prev ('`' :: u ++ y) v) (prev' : Option Char) :
    (s.behind prev ('`' :: u) (r ++ after)).Stands prev' r after := by
  obtain ⟨rfl, rfl⟩ := h.eq_outside (hclear.ticks.1 rfl)
  rw [List.append_nil] at hrest ⊢
  subst hrest
  exact .outside (behind_template hlength hr hclear.next) rfl

end Place

/-- Where the scan reads on as code, the reading stands in code. The reading is clear up to some place behind. -/
theorem Reads.inCode {prev prev' before : Option Char} {pos p : ℕ} {text text' a b after y v : List Char} {s : Place}
    (h : Reads prev pos text prev' p text') (hne : text' ≠ []) (hs : s.Stands before text after)
    (hbefore : before.any isIdentChar = prev.any isIdentChar) (htext : text = a ++ b) (hp : p = pos + a.length)
    (hb : b ++ after = y ++ v) (hclear : s.Clear before (a ++ y) v) :
    (s.behind before a (b ++ after)).inCode = true := by
  induction h generalizing s before a b after with
  | here =>
    obtain rfl : a = [] := List.length_eq_zero_iff.1 (by omega)
    exact hs.inCode
  | @char prev pos c r prev' p text' hnone h ih =>
    obtain ⟨u, v', hr, hp'⟩ := h.split
    rw [List.append_assoc] at hr
    obtain ⟨rfl, rfl⟩ : a = c :: u ∧ b = text' ++ v' := cut_unique (x := [c]) htext hr (by simp; omega)
    rw [← literal?_alike (.inl hbefore)] at hnone
    have hnext := hs.char hnone
    subst hr
    rw [List.append_assoc] at hnext
    rw [List.cons_append] at hclear
    have hlater := hclear.next
    rw [List.append_assoc, ← hb] at hlater
    have hend := ih hne hnext rfl rfl hp' hb hlater
    exact hend
  | @literal prev pos text l n prev' p text' hliteral h ih =>
    obtain ⟨u, r, rfl, hu, rfl, -⟩ := literal?_split hliteral
    rw [List.drop_left] at h ih
    obtain ⟨u', v', hr, hp'⟩ := h.split
    rw [List.append_assoc] at hr
    obtain ⟨rfl, rfl⟩ := cut_unique htext hr (by omega)
    have hnonempty : r ≠ [] := by
      rintro rfl
      exact hne h.eq_nil
    have hrest : r ++ after = u' ++ y ++ v := by rw [hr, List.append_assoc, hb, List.append_assoc]
    rw [List.append_assoc] at hclear
    obtain ⟨hpassed, hlater⟩ := Place.clear_append.1 hclear
    rw [← hrest] at hpassed hlater
    have hstands : (s.behind before u (r ++ after)).Stands (u.getLast?.or before) r after := by
      by_cases htick : u.head? = some '`'
      · obtain ⟨u, rfl⟩ := List.head?_eq_some_iff.1 htick
        rw [List.cons_append, literal?_tick] at hliteral
        obtain ⟨-, hlength⟩ := Prod.mk.inj (Option.some.inj hliteral)
        exact hs.template (Nat.succ.inj hlength) hnonempty hrest hclear _
      · rw [← literal?_alike (.inl hbefore)] at hliteral
        exact hs.literal hu hliteral htick hpassed
    have hlast : (u.getLast?.or before).any isIdentChar = ((u ++ r)[u.length - 1]?).any isIdentChar := by
      obtain ⟨w, d, rfl⟩ := List.eq_nil_or_concat u |>.resolve_left hu
      simp
    have hend := ih hne hstands hlast hr (by simp at hp; omega) hb hlater
    rwa [Place.behind_append, ← List.append_assoc, ← hr]
  | @interpolation prev pos r start inner prev' p text' hi h ih =>
    obtain ⟨u, v', hr, hstart⟩ := hi.split
    obtain ⟨u', v'', hinner, hp'⟩ := h.split
    rw [List.append_assoc] at hr hinner
    have hwhole : r = u ++ u' ++ (text' ++ v'' ++ v') := by
      rw [hr, hinner]
      simp
    obtain ⟨rfl, rfl⟩ : a = '`' :: (u ++ u') ∧ b = text' ++ v'' ++ v' :=
      cut_unique (x := ['`']) htext hwhole (by simp; omega)
    obtain ⟨rfl, rfl⟩ := hs.eq_outside (hclear.ticks.1 rfl)
    rw [List.append_nil] at hb ⊢
    have hbehind : inner ++ v' = u' ++ y ++ v := by
      rw [List.append_assoc, ← hb, hinner]
      simp
    have hopened : (⟨[.template], 0⟩ : Place).Clear (some '`') (u ++ u' ++ y) v := hclear.next
    rw [List.append_assoc] at hopened
    obtain ⟨hplace, hlast, rest, hrest, hinside⟩ := hi.reached hr hstart rfl hbehind hopened
    obtain rfl : v' = '}' :: rest := List.append_cancel_left hrest
    obtain ⟨-, hlater⟩ := Place.clear_append.1 hopened
    rw [← hbehind, hplace, hlast] at hlater
    have hend := ih hne (.inside rfl hinside rfl) rfl hinner hp' hb hlater
    have hall : (⟨[.template], 0⟩ : Place).behind (some '`') (u ++ u') (text' ++ v'' ++ '}' :: rest) =
        (⟨Place.inner 0, 0⟩ : Place).behind (some '{') u' (text' ++ v'' ++ '}' :: rest) := by
      rw [Place.behind_append, hb, ← List.append_assoc, ← hbehind, hplace, hlast]
      rfl
    rw [← hall] at hend
    exact hend

end Recast.FreeNames
