import Recast.Optimize.FreeNames

/-!
# Reading names

What the scan for names finds, said without the scan. Code is read from left to
right: string literals and comments are passed over, and the interpolations of a
template are read as code of their own. A name is a run of name characters that
none touches and that starts with no digit.

`mem_tokens_iff` says that the scan finds these names and no others.
-/

namespace Recast.FreeNames

open Text

/-- An interpolation of a template of which `n` characters are left from position `pos`
on: its text and the position of that. -/
inductive Interpolation : (pos n : Nat) → List Char → (start : Nat) → List Char → Prop
  | first {pos n k r} (hk : closerIndex? .curly 1 (markAfter (some '{') r) = some k) :
      Interpolation pos (n + 2) ('$' :: '{' :: r) (pos + 2) (r.take k)
  | later {pos n k r start inner} (hk : closerIndex? .curly 1 (markAfter (some '{') r) = some k)
      (h : Interpolation (pos + 2 + k + 1) (n - (k + 1)) (r.drop (k + 1)) start inner) :
      Interpolation pos (n + 2) ('$' :: '{' :: r) start inner
  | escaped {pos n c r start inner} (h : Interpolation (pos + 2) n r start inner) :
      Interpolation pos (n + 2) ('\\' :: c :: r) start inner
  | char {pos n c r start inner} (hc : c ≠ '\\')
      (hk : ∀ r', c = '$' → r = '{' :: r' →
        closerIndex? .curly 1 (markAfter (some '{') r') = none)
      (h : Interpolation (pos + 1) (n + 1) r start inner) :
      Interpolation pos (n + 2) (c :: r) start inner

/-- Reading the text from position `pos` on as code, after the character `prev`, comes to
`rest` at position `pos'` after the character `prev'`. -/
inductive Reads : (prev : Option Char) → (pos : Nat) → List Char →
    (prev' : Option Char) → (pos' : Nat) → (rest : List Char) → Prop
  | here {prev pos text} : Reads prev pos text prev pos text
  | char {prev pos c r prev' pos' rest} (hl : literal? prev (c :: r) = none)
      (h : Reads (some c) (pos + 1) r prev' pos' rest) : Reads prev pos (c :: r) prev' pos' rest
  | literal {prev pos text l n prev' pos' rest} (hl : literal? prev text = some (l, n))
      (h : Reads text[n - 1]? (pos + n) (text.drop n) prev' pos' rest) :
      Reads prev pos text prev' pos' rest
  | interpolation {prev pos r start inner prev' pos' rest}
      (hi : Interpolation (pos + 1) (templateLength r) r start inner)
      (h : Reads none start inner prev' pos' rest) : Reads prev pos ('`' :: r) prev' pos' rest

/-- The word stands at the start of the text and no name character touches it. -/
structure StandsAlone (prev : Option Char) (text w rest : List Char) : Prop where
  eq : text = w ++ rest
  before : ¬ prev.any isIdentChar
  after : ¬ rest.head?.any isIdentChar

/-- The word stands in the code of the expression at position `p`, alone. -/
def Occurs (expr w : List Char) (p : Nat) : Prop :=
  ∃ prev text rest, Reads none 0 expr prev p text ∧ StandsAlone prev text w rest

/-- A run of name characters that starts with no digit. -/
def isRun : List Char → Bool
  | [] => false
  | c :: r => !c.isDigit && (c :: r).all isIdentChar

theorem literal?_eq_none_of_ident {prev : Option Char} {c : Char} {r : List Char}
    (hc : isIdentChar c = true) : literal? prev (c :: r) = none := by
  have hs : c ≠ '/' ∧ c ≠ '`' ∧ c ≠ '\'' ∧ c ≠ '"' := by
    refine ⟨?_, ?_, ?_, ?_⟩ <;> rintro rfl <;> simp [isIdentChar] at hc
  unfold literal?
  split <;> simp_all

theorem not_isIdentChar_of_literal? {prev : Option Char} {c : Char} {r : List Char}
    {x : Label × Nat} (h : literal? prev (c :: r) = some x) : ¬ isIdentChar c := by
  intro hc
  rw [literal?_eq_none_of_ident hc] at h
  cases h

/-- No name that began before the text runs on into it. -/
def Fresh (prev : Option Char) (text : List Char) : Prop :=
  prev.any isIdentChar → ¬ text.head?.any isIdentChar

theorem stringLength?_split {q : Char} {r : List Char} {n : Nat}
    (h : stringLength? q r = some n) : ∃ u rest, r = u ++ q :: rest ∧ n = u.length + 1 := by
  fun_induction stringLength? q r generalizing n with
  | case1 => simp at h
  | case2 => simp at h
  | case3 c r ih =>
    obtain ⟨m, hm, rfl⟩ := Option.map_eq_some_iff.1 h
    obtain ⟨u, rest, rfl, rfl⟩ := ih hm
    exact ⟨'\\' :: c :: u, rest, rfl, rfl⟩
  | case4 => simp at h
  | case5 c r _ _ _ hq =>
    cases h
    exact ⟨[], r, by simpa using hq, rfl⟩
  | case6 c r _ _ _ _ ih =>
    obtain ⟨m, hm, rfl⟩ := Option.map_eq_some_iff.1 h
    obtain ⟨u, rest, rfl, rfl⟩ := ih hm
    exact ⟨c :: u, rest, rfl, rfl⟩

theorem templateLength_split (r : List Char) :
    ∃ u rest, r = u ++ rest ∧ templateLength r = u.length ∧ (rest = [] ∨ u.getLast? = some '`') := by
  fun_induction templateLength r with
  | case1 => exact ⟨[], [], rfl, rfl, .inl rfl⟩
  | case2 => exact ⟨['\\'], [], rfl, rfl, .inl rfl⟩
  | case3 c r ih =>
    obtain ⟨u, rest, rfl, hn, hr⟩ := ih
    exact ⟨'\\' :: c :: u, rest, rfl, by simp [hn], hr.imp_right fun h => by simp [List.getLast?_cons, h]⟩
  | case4 r => exact ⟨['`'], r, rfl, rfl, .inr rfl⟩
  | case5 c r _ _ _ ih =>
    obtain ⟨u, rest, rfl, hn, hr⟩ := ih
    exact ⟨c :: u, rest, rfl, by simp [hn], hr.imp_right fun h => by simp [List.getLast?_cons, h]⟩

theorem blockCommentLength_split (r : List Char) :
    ∃ u rest, r = u ++ rest ∧ blockCommentLength r = u.length ∧
      (rest = [] ∨ u.getLast? = some '/') := by
  fun_induction blockCommentLength r with
  | case1 => exact ⟨[], [], rfl, rfl, .inl rfl⟩
  | case2 r => exact ⟨['*', '/'], r, rfl, rfl, .inr rfl⟩
  | case3 c r _ ih =>
    obtain ⟨u, rest, rfl, hn, hr⟩ := ih
    exact ⟨c :: u, rest, rfl, by simp [hn], hr.imp_right fun h => by simp [List.getLast?_cons, h]⟩

theorem fresh_of_getLast? {u rest : List Char} {d : Char} (hd : isIdentChar d = false)
    (h : rest = [] ∨ u.getLast? = some d) : Fresh u.getLast? rest := by
  intro hu
  rcases h with rfl | h
  · simp
  · simp [h, hd] at hu

theorem literal?_split {prev : Option Char} {text : List Char} {l : Label} {n : Nat}
    (h : literal? prev text = some (l, n)) :
    ∃ u rest, text = u ++ rest ∧ u ≠ [] ∧ n = u.length ∧ Fresh u.getLast? rest := by
  unfold literal? at h
  split at h
  · rename_i r
    cases h
    refine ⟨'/' :: '/' :: r.takeWhile (· != '\n'), r.dropWhile (· != '\n'), ?_, by simp, by simp, ?_⟩
    · simp
    · intro _ hr
      cases hd : r.dropWhile (· != '\n') with
      | nil => simp [hd] at hr
      | cons d s =>
        have hp := List.head_dropWhile_not (p := (· != '\n')) (l := r) (by simp [hd])
        simp only [hd, List.head_cons, bne_eq_false_iff_eq] at hp
        subst hp
        simp [hd, isIdentChar] at hr
  · rename_i r
    cases h
    obtain ⟨u, rest, rfl, hn, hr⟩ := blockCommentLength_split r
    refine ⟨'/' :: '*' :: u, rest, rfl, by simp, by simp [hn], fresh_of_getLast? (d := '/') rfl ?_⟩
    exact hr.imp_right fun h => by simp [List.getLast?_cons, h]
  · rename_i r
    cases h
    obtain ⟨u, rest, rfl, hn, hr⟩ := templateLength_split r
    refine ⟨'`' :: u, rest, rfl, by simp, by simp [hn], fresh_of_getLast? (d := '`') rfl ?_⟩
    exact hr.imp_right fun h => by simp [List.getLast?_cons, h]
  · rename_i c r _ _ _
    split at h
    · rename_i hq
      obtain ⟨m, hm, hmn⟩ := Option.map_eq_some_iff.1 h
      cases hmn
      obtain ⟨u, rest, rfl, rfl⟩ := stringLength?_split hm
      have hc : isIdentChar c = false := by
        simp only [Bool.and_eq_true, Bool.or_eq_true, beq_iff_eq] at hq
        rcases hq.1 with rfl | rfl <;> rfl
      exact ⟨c :: (u ++ [c]), rest, by simp, by simp, by simp,
        fresh_of_getLast? hc (.inr (by simp [List.getLast?_cons]))⟩
    · cases h
  · cases h

theorem isRun_append_takeWhile {c : Char} {r : List Char} (hc : isIdentChar c = true)
    (hd : c.isDigit = false) : isRun (c :: r.takeWhile isIdentChar) = true := by
  simp [isRun, hc, hd]

theorem drop_length_takeWhile (p : Char → Bool) (r : List Char) :
    r.drop (r.takeWhile p).length = r.dropWhile p := by
  induction r with
  | nil => rfl
  | cons c r ih => cases h : p c <;> simp [h, ih]

theorem Reads.after_run {c : Char} {r : List Char} {pos : Nat} {prev' : Option Char} {p : Nat}
    {text : List Char} (h : Reads (some c) pos r prev' p text) (hc : isIdentChar c = true)
    (hp : ¬ prev'.any isIdentChar) :
    Reads (c :: r.takeWhile isIdentChar).getLast? (pos + (r.takeWhile isIdentChar).length)
      (r.drop (r.takeWhile isIdentChar).length) prev' p text := by
  induction r generalizing c pos with
  | nil => simpa using h
  | cons d r ih =>
    cases hd : isIdentChar d with
    | false => simpa [List.takeWhile_cons, hd] using h
    | true =>
      have hr : Reads (some d) (pos + 1) r prev' p text := by
        cases h with
        | here => simp [hc] at hp
        | char _ h => exact h
        | literal hl _ => exact absurd hd (not_isIdentChar_of_literal? hl)
        | interpolation _ _ => simp [isIdentChar] at hd
      have hi := ih hr hd
      simpa [List.takeWhile_cons, hd, List.getLast?_cons, Nat.add_left_comm, Nat.add_comm] using hi

theorem StandsAlone.eq_run {prev : Option Char} {c : Char} {r w rest : List Char}
    (ha : StandsAlone prev (c :: r) w rest) (hw : isRun w = true) :
    isIdentChar c = true ∧ c.isDigit = false ∧ w = c :: r.takeWhile isIdentChar := by
  cases w with
  | nil => simp [isRun] at hw
  | cons d v =>
    obtain ⟨rfl, rfl⟩ : d = c ∧ r = v ++ rest := by simpa [eq_comm] using ha.eq
    simp only [isRun, List.all_cons, Bool.and_eq_true, Bool.not_eq_true'] at hw
    refine ⟨hw.2.1, hw.1, ?_⟩
    rw [List.takeWhile_append_of_pos (by simpa using hw.2.2)]
    cases rest with
    | nil => simp
    | cons x xs =>
      have hx : isIdentChar x = false := by simpa using ha.after
      simp [hx]

theorem Reads.eq_nil {prev : Option Char} {pos : Nat} {prev' : Option Char} {p : Nat}
    {text : List Char} (h : Reads prev pos [] prev' p text) : text = [] := by
  cases h with
  | here => rfl
  | literal hl _ => simp [literal?] at hl

theorem template_end (r : List Char) :
    r.drop (templateLength r) = [] ∨ ('`' :: r)[templateLength r]? = some '`' := by
  obtain ⟨u, rest, rfl, hn, hr⟩ := templateLength_split r
  rw [hn]
  refine hr.imp (by rintro rfl; simp) fun hu => ?_
  obtain ⟨v, rfl⟩ := List.getLast?_eq_some_iff.1 hu
  simp

theorem literal?_tick (prev : Option Char) (r : List Char) :
    literal? prev ('`' :: r) = some (.quoted, templateLength r + 1) := rfl

theorem literal?_pos {prev : Option Char} {text : List Char} {l : Label} {n : Nat}
    (h : literal? prev text = some (l, n)) : 0 < n := by
  obtain ⟨u, rest, -, hu, rfl, -⟩ := literal?_split h
  exact List.length_pos_iff.2 hu

/-! ### The scan step by step -/

section

variable (prev : Option Char) (pos : Nat) {c : Char} {r : List Char} {l : Label} {n k : Nat}

theorem tokensFrom_tick (r : List Char) :
    tokensFrom prev pos ('`' :: r) = interpolated (pos + 1) (templateLength r) r ++
      tokensFrom (some '`') (pos + 1 + templateLength r) (r.drop (templateLength r)) := by
  rw [tokensFrom]

theorem tokensFrom_literal (hc : c ≠ '`') (hl : literal? prev (c :: r) = some (l, n)) :
    tokensFrom prev pos (c :: r) = tokensFrom (c :: r)[n - 1]? (pos + n) (r.drop (n - 1)) := by
  rw [tokensFrom, hl]
  exact hc

/-- A run of name characters is taken at once. It is a name if it starts with no digit. -/
theorem tokensFrom_run (hi : isIdentChar c = true) :
    tokensFrom prev pos (c :: r) =
      (if c.isDigit then [] else
        [⟨c :: r.takeWhile isIdentChar, pos, pos + 1 + (r.takeWhile isIdentChar).length⟩]) ++
      tokensFrom (c :: r.takeWhile isIdentChar).getLast? (pos + 1 + (r.takeWhile isIdentChar).length)
        (r.drop (r.takeWhile isIdentChar).length) := by
  rw [tokensFrom, literal?_eq_none_of_ident hi]
  · dsimp only
    rw [if_pos hi]
    split <;> rfl
  · rintro rfl
    simp [isIdentChar] at hi

theorem tokensFrom_code (hc : c ≠ '`') (hl : literal? prev (c :: r) = none) (hi : isIdentChar c = false) :
    tokensFrom prev pos (c :: r) = tokensFrom (some c) (pos + 1) r := by
  rw [tokensFrom, hl]
  · exact if_neg (Bool.eq_false_iff.1 hi)
  · exact hc

theorem interpolated_closed (hk : closerIndex? .curly 1 (markAfter (some '{') r) = some k) :
    interpolated pos (n + 2) ('$' :: '{' :: r) =
      tokensFrom none (pos + 2) (r.take k) ++ interpolated (pos + 2 + k + 1) (n - (k + 1)) (r.drop (k + 1)) := by
  rw [interpolated, hk]

theorem interpolated_unclosed (hk : closerIndex? .curly 1 (markAfter (some '{') r) = none) :
    interpolated pos (n + 2) ('$' :: '{' :: r) = interpolated (pos + 1) (n + 1) ('{' :: r) := by
  rw [interpolated, hk]

end

section

variable {prev prev' : Option Char} {pos p : Nat} {c : Char} {r text' : List Char}

/-- Where no literal starts, reading ends or takes one character. -/
theorem Reads.code_cases (hc : c ≠ '`') (hl : literal? prev (c :: r) = none) (h : Reads prev pos (c :: r) prev' p text') :
    (prev' = prev ∧ p = pos ∧ text' = c :: r) ∨ Reads (some c) (pos + 1) r prev' p text' := by
  cases h with
  | here => exact .inl ⟨rfl, rfl, rfl⟩
  | char _ h => exact .inr h
  | literal hl' _ =>
    rw [hl] at hl'
    cases hl'
  | interpolation => exact absurd rfl hc

/-- Where a literal starts that is no template, reading ends or passes over it. -/
theorem Reads.literal_cases {l : Label} {n : Nat} (hc : c ≠ '`') (hl : literal? prev (c :: r) = some (l, n))
    (h : Reads prev pos (c :: r) prev' p text') :
    (prev' = prev ∧ p = pos ∧ text' = c :: r) ∨ Reads (c :: r)[n - 1]? (pos + n) (r.drop (n - 1)) prev' p text' := by
  cases h with
  | here => exact .inl ⟨rfl, rfl, rfl⟩
  | char hl' _ =>
    rw [hl] at hl'
    cases hl'
  | literal hl' h =>
    cases hl.symm.trans hl'
    obtain ⟨m, rfl⟩ := Nat.exists_eq_add_one.2 (literal?_pos hl)
    exact .inr h
  | interpolation => exact absurd rfl hc

/-- At a template reading ends, goes on in one of its interpolations or passes over it. A template that is not closed
ends the text. -/
theorem Reads.tick_cases (h : Reads prev pos ('`' :: r) prev' p text') :
    (prev' = prev ∧ p = pos ∧ text' = '`' :: r) ∨
      (∃ start inner, Interpolation (pos + 1) (templateLength r) r start inner ∧ Reads none start inner prev' p text') ∨
      text' = [] ∨ Reads (some '`') (pos + 1 + templateLength r) (r.drop (templateLength r)) prev' p text' := by
  cases h with
  | here => exact .inl ⟨rfl, rfl, rfl⟩
  | char hl _ => cases (literal?_tick prev r).symm.trans hl
  | interpolation hi h => exact .inr (.inl ⟨_, _, hi, h⟩)
  | literal hl h =>
    cases (literal?_tick prev r).symm.trans hl
    rcases template_end r with he | he
    · rw [List.drop_succ_cons, he] at h
      exact .inr (.inr (.inl h.eq_nil))
    · rw [Nat.add_sub_cancel, he, List.drop_succ_cons, ← Nat.add_assoc, Nat.add_right_comm] at h
      exact .inr (.inr (.inr h))

end

/-- Where reading comes to a place at which no name has begun, the names from there on
stand together among the names of the text. -/
theorem tokensFrom_of_reads {prev' : Option Char} {p : Nat} {text' : List Char}
    (hp : ¬ prev'.any isIdentChar) :
    (∀ prev pos text, Reads prev pos text prev' p text' →
      tokensFrom prev' p text' <:+: tokensFrom prev pos text) ∧
    ∀ pos n text, ∀ start inner, Interpolation pos n text start inner →
      Reads none start inner prev' p text' →
      tokensFrom prev' p text' <:+: interpolated pos n text := by
  -- The cases are those of the scan. Reading goes character by character through a name
  -- that the scan takes at once, so it cannot have come to its end before the name has.
  apply tokensFrom.mutual_induct
  case case1 =>
    intro prev pos h
    obtain rfl := h.eq_nil
    simp [tokensFrom]
  case case2 =>
    intro prev pos r n ihi ihr h
    rcases h.tick_cases with ⟨rfl, rfl, rfl⟩ | ⟨start, inner, hi, h⟩ | rfl | h
    · exact List.infix_rfl
    · rw [tokensFrom_tick]
      exact (ihi _ _ hi h).trans (List.prefix_append _ _).isInfix
    · rw [tokensFrom.eq_def prev' p []]
      exact List.nil_infix
    · rw [tokensFrom_tick]
      exact (ihr h).trans (List.suffix_append _ _).isInfix
  case case3 =>
    intro prev pos c r hc l n hl ih h
    rcases h.literal_cases hc hl with ⟨rfl, rfl, rfl⟩ | h
    · exact List.infix_rfl
    · rw [tokensFrom_literal _ _ hc hl]
      exact ih h
  case case4 | case5 =>
    intro prev pos c r hc hl hi more stop _ ih h
    rcases h.code_cases hc hl with ⟨rfl, rfl, rfl⟩ | h
    · exact List.infix_rfl
    · rw [tokensFrom_run _ _ hi]
      exact (ih (h.after_run hi hp)).trans (List.suffix_append _ _).isInfix
  case case6 =>
    intro prev pos c r hc hl hi ih h
    rcases h.code_cases hc hl with ⟨rfl, rfl, rfl⟩ | h
    · exact List.infix_rfl
    · rw [tokensFrom_code _ _ hc hl (Bool.eq_false_iff.2 hi)]
      exact ih h
  case case7 =>
    intro pos n c r ih start inner hi h
    rw [interpolated]
    cases hi with
    | escaped hi => exact ih _ _ hi h
    | char hc => exact absurd rfl hc
  case case8 =>
    intro pos n r k hk ihi ihr start inner hi h
    rw [interpolated_closed _ hk]
    cases hi with
    | first hk' =>
      cases hk.symm.trans hk'
      exact (ihi h).trans (List.prefix_append _ _).isInfix
    | later hk' hi =>
      cases hk.symm.trans hk'
      exact (ihr _ _ hi h).trans (List.suffix_append _ _).isInfix
    | char _ hn => cases (hn r rfl rfl).symm.trans hk
  case case9 =>
    intro pos n r hk ih start inner hi h
    rw [interpolated_unclosed _ hk]
    cases hi with
    | first hk' => cases hk.symm.trans hk'
    | later hk' => cases hk.symm.trans hk'
    | char _ _ hi => exact ih _ _ hi h
  case case10 =>
    intro pos n c r he hk ih start inner hi h
    have hs : interpolated pos (n + 2) (c :: r) = interpolated (pos + 1) (n + 1) r := by
      rw [interpolated] <;> assumption
    rw [hs]
    cases hi with
    | first => exact absurd rfl (hk _ rfl)
    | later => exact absurd rfl (hk _ rfl)
    | escaped => exact absurd rfl (he _ _ rfl)
    | char _ _ hi => exact ih _ _ hi h
  case case11 =>
    intro pos n text he hk hc start inner hi
    cases hi with
    | first => exact absurd rfl (hk _ _ rfl)
    | later => exact absurd rfl (hk _ _ rfl)
    | escaped => exact absurd rfl (he _ _ _ rfl)
    | char => exact absurd rfl (hc _ _ _ rfl)

theorem tokensFrom_of_standsAlone {prev : Option Char} {pos : Nat} {text w rest : List Char}
    (hw : isRun w = true) (ha : StandsAlone prev text w rest) :
    tokensFrom prev pos text =
      ⟨w, pos, pos + w.length⟩ :: tokensFrom w.getLast? (pos + w.length) rest := by
  cases text with
  | nil =>
    have := ha.eq
    simp_all [isRun]
  | cons c r =>
    obtain ⟨hi, hd, he⟩ := ha.eq_run hw
    have hr : rest = r.drop (r.takeWhile isIdentChar).length := by
      have ht := ha.eq
      rw [he, List.cons_append, List.cons.injEq] at ht
      rw [drop_length_takeWhile]
      exact List.append_cancel_left (ht.2.symm.trans List.takeWhile_append_dropWhile.symm)
    have hstop : pos + 1 + (r.takeWhile isIdentChar).length = pos + w.length := by
      rw [he, List.length_cons]
      omega
    rw [tokensFrom_run _ _ hi, hd, hstop, hr, ← he]
    rfl

def Found (prev : Option Char) (pos : Nat) (text : List Char) (t : Token) : Prop :=
  isRun t.word ∧ t.stop = t.start + t.word.length ∧
    ∃ prev' text' rest, Reads prev pos text prev' t.start text' ∧ StandsAlone prev' text' t.word rest

theorem Found.of_reads {prev prev₁ : Option Char} {pos pos₁ : Nat} {text text₁ : List Char} {t : Token}
    (hr : ∀ {prev' p text'}, Reads prev₁ pos₁ text₁ prev' p text' → Reads prev pos text prev' p text')
    (h : Found prev₁ pos₁ text₁ t) : Found prev pos text t := by
  obtain ⟨hw, hs, prev', text', rest, h, ha⟩ := h
  exact ⟨hw, hs, prev', text', rest, hr h, ha⟩

theorem literal?_fresh {prev : Option Char} {text : List Char} {l : Label} {n : Nat}
    (h : literal? prev text = some (l, n)) : Fresh text[n - 1]? (text.drop n) := by
  obtain ⟨u, rest, rfl, hu, rfl, hb⟩ := literal?_split h
  obtain ⟨v, d, rfl⟩ := List.eq_nil_or_concat u |>.resolve_left hu
  simpa using hb

theorem not_ident_after_takeWhile (r : List Char) :
    ¬ (r.drop (r.takeWhile isIdentChar).length).head?.any isIdentChar := by
  rw [drop_length_takeWhile]
  have h := List.head?_dropWhile_not isIdentChar r
  cases hd : (r.dropWhile isIdentChar).head? with
  | none => simp
  | some d => simpa [hd] using h

theorem Reads.of_after_run {c : Char} {r : List Char} {pos : Nat} {prev' : Option Char} {p : Nat}
    {text : List Char} (h : Reads (c :: r.takeWhile isIdentChar).getLast?
      (pos + (r.takeWhile isIdentChar).length) (r.drop (r.takeWhile isIdentChar).length)
      prev' p text) : Reads (some c) pos r prev' p text := by
  induction r generalizing c pos with
  | nil => simpa using h
  | cons d r ih =>
    cases hd : isIdentChar d with
    | false => simpa [List.takeWhile_cons, hd] using h
    | true =>
      refine .char (literal?_eq_none_of_ident hd) (ih ?_)
      simpa [List.takeWhile_cons, hd, List.getLast?_cons, Nat.add_left_comm, Nat.add_comm] using h

theorem mem_word {c : Char} {w t : Token} : t ∈ (if c.isDigit then [] else [w]) ↔ c.isDigit = false ∧ t = w := by
  cases c.isDigit <;> simp

theorem found_of_mem_tokensFrom :
    (∀ prev pos text, Fresh prev text → ∀ t ∈ tokensFrom prev pos text, Found prev pos text t) ∧
    ∀ pos n text, ∀ t ∈ interpolated pos n text,
      ∃ start inner, Interpolation pos n text start inner ∧ Found none start inner t := by
  apply tokensFrom.mutual_induct
  case case1 =>
    intro prev pos _ t ht
    simp [tokensFrom] at ht
  case case2 =>
    intro prev pos r n ihi ihr _ t ht
    rw [tokensFrom_tick, List.mem_append] at ht
    rcases ht with ht | ht
    · obtain ⟨start, inner, hi, hf⟩ := ihi t ht
      exact hf.of_reads (.interpolation hi)
    · rcases template_end r with he | he
      · simp [he, tokensFrom] at ht
      · refine (ihr (by simp [Fresh, isIdentChar]) t ht).of_reads fun h => ?_
        refine .literal (literal?_tick prev r) ?_
        rw [Nat.add_sub_cancel, he, List.drop_succ_cons, ← Nat.add_assoc, Nat.add_right_comm]
        exact h
  case case3 =>
    intro prev pos c r hc l n hl ih _ t ht
    rw [tokensFrom_literal _ _ hc hl] at ht
    obtain ⟨m, rfl⟩ := Nat.exists_eq_add_one.2 (literal?_pos hl)
    exact (ih (literal?_fresh hl) t ht).of_reads fun h => .literal hl h
  case case4 | case5 =>
    intro prev pos c r hc hl hi more stop _ ih hf t ht
    rw [tokensFrom_run _ _ hi, List.mem_append] at ht
    rcases ht with ht | ht
    · obtain ⟨hd, rfl⟩ := mem_word.1 ht
      refine ⟨isRun_append_takeWhile hi hd, by simp; omega, prev, c :: r,
        r.drop (r.takeWhile isIdentChar).length, .here, ?_, fun hp => hf hp (by simp [hi]),
        not_ident_after_takeWhile r⟩
      simp [drop_length_takeWhile]
    · exact (ih (fun _ => not_ident_after_takeWhile r) t ht).of_reads fun h => .char hl (.of_after_run h)
  case case6 =>
    intro prev pos c r hc hl hi ih _ t ht
    rw [tokensFrom_code _ _ hc hl (Bool.eq_false_iff.2 hi)] at ht
    exact (ih (by simp [Fresh, hi]) t ht).of_reads (.char hl)
  case case7 =>
    intro pos n c r ih t ht
    rw [interpolated] at ht
    obtain ⟨start, inner, hi, hf⟩ := ih t ht
    exact ⟨start, inner, .escaped hi, hf⟩
  case case8 =>
    intro pos n r k hk ihi ihr t ht
    rw [interpolated_closed _ hk, List.mem_append] at ht
    rcases ht with ht | ht
    · exact ⟨_, _, .first hk, ihi (by simp [Fresh]) t ht⟩
    · obtain ⟨start, inner, hi, hf⟩ := ihr t ht
      exact ⟨start, inner, .later hk hi, hf⟩
  case case9 =>
    intro pos n r hk ih t ht
    rw [interpolated_unclosed _ hk] at ht
    obtain ⟨start, inner, hi, hf⟩ := ih t ht
    refine ⟨start, inner, .char (by decide) ?_ hi, hf⟩
    rintro r' - ⟨⟩
    exact hk
  case case10 =>
    intro pos n c r he hk ih t ht
    have hs : interpolated pos (n + 2) (c :: r) = interpolated (pos + 1) (n + 1) r := by
      rw [interpolated] <;> assumption
    rw [hs] at ht
    have hc : c ≠ '\\' := by
      rintro rfl
      cases r with
      | nil => simp [interpolated] at ht
      | cons d r => exact he d r rfl rfl
    obtain ⟨start, inner, hi, hf⟩ := ih t ht
    exact ⟨start, inner, .char hc (fun r' h h' => (hk r' h h').elim) hi, hf⟩
  case case11 =>
    intro pos n text he hk hc t ht
    have hs : interpolated pos n text = [] := by
      rw [interpolated] <;> assumption
    simp [hs] at ht

/-- The scan for names finds what reading finds, and nothing else. -/
theorem mem_tokens_iff {expr : List Char} {t : Token} :
    t ∈ tokens expr ↔
      isRun t.word ∧ t.stop = t.start + t.word.length ∧ Occurs expr t.word t.start := by
  constructor
  · intro ht
    exact found_of_mem_tokensFrom.1 none 0 expr (by simp [Fresh]) t ht
  · rintro ⟨hw, hs, prev, text, rest, h, ha⟩
    obtain ⟨w, p, e⟩ := t
    obtain rfl : e = p + w.length := hs
    have hs := (tokensFrom_of_reads ha.before).1 none 0 expr h
    rw [tokensFrom_of_standsAlone hw ha] at hs
    exact hs.subset (List.mem_cons_self ..)

theorem Occurs.mem_tokens {expr w : List Char} {p : Nat} (h : Occurs expr w p) (hw : isRun w = true) :
    ⟨w, p, p + w.length⟩ ∈ tokens expr :=
  mem_tokens_iff.2 ⟨hw, rfl, h⟩

theorem occurs_of_mem_tokens {expr w : List Char} {p : Nat}
    (h : ⟨w, p, p + w.length⟩ ∈ tokens expr) : Occurs expr w p :=
  (mem_tokens_iff.1 h).2.2

theorem Interpolation.ne_nil {pos n start : Nat} {text inner : List Char}
    (h : Interpolation pos n text start inner) : text ≠ [] := by
  cases h <;> simp

theorem Interpolation.split {pos n start : Nat} {text inner : List Char}
    (h : Interpolation pos n text start inner) :
    ∃ a b, text = a ++ inner ++ b ∧ start = pos + a.length := by
  induction h with
  | @first pos n k r hk => exact ⟨['$', '{'], r.drop k, by simp, rfl⟩
  | @later pos n k r start inner hk h ih =>
    have hr : r.drop (k + 1) ≠ [] := h.ne_nil
    obtain ⟨a, b, ht, rfl⟩ := ih
    have hl : k + 1 ≤ r.length :=
      Nat.le_of_not_lt fun hl => hr (List.drop_eq_nil_of_le (Nat.le_of_lt hl))
    refine ⟨'$' :: '{' :: (r.take (k + 1) ++ a), b, ?_, by simp [hl]; omega⟩
    have hs := List.take_append_drop (k + 1) r
    rw [ht] at hs
    simpa using hs.symm
  | @escaped pos n c r start inner h ih =>
    obtain ⟨a, b, rfl, rfl⟩ := ih
    exact ⟨'\\' :: c :: a, b, rfl, by simp; omega⟩
  | @char pos n c r start inner hc hk h ih =>
    obtain ⟨a, b, rfl, rfl⟩ := ih
    exact ⟨c :: a, b, rfl, by simp; omega⟩

theorem Reads.split {prev : Option Char} {pos : Nat} {text : List Char} {prev' : Option Char}
    {p : Nat} {text' : List Char} (h : Reads prev pos text prev' p text') :
    ∃ a b, text = a ++ text' ++ b ∧ p = pos + a.length := by
  induction h with
  | here => exact ⟨[], [], by simp⟩
  | @char prev pos c r prev' p text' hl h ih =>
    obtain ⟨a, b, rfl, rfl⟩ := ih
    exact ⟨c :: a, b, rfl, by simp; omega⟩
  | @literal prev pos text l n prev' p text' hl h ih =>
    obtain ⟨u, rest, rfl, -, rfl, -⟩ := literal?_split hl
    obtain ⟨a, b, ht, rfl⟩ := ih
    refine ⟨u ++ a, b, ?_, by simp; omega⟩
    simp only [List.drop_left] at ht
    simp [ht]
  | @interpolation prev pos r start inner prev' p text' hi h ih =>
    obtain ⟨a, b, hr, rfl⟩ := hi.split
    obtain ⟨c, d, rfl, rfl⟩ := ih
    exact ⟨'`' :: (a ++ c), d ++ b, by simp [hr], by simp; omega⟩

theorem Occurs.take_add {expr w : List Char} {p : Nat} (h : Occurs expr w p) :
    expr.take (p + w.length) = expr.take p ++ w := by
  obtain ⟨prev, text, rest, hr, ha⟩ := h
  obtain ⟨a, b, rfl, rfl⟩ := hr.split
  rw [ha.eq, Nat.zero_add, List.take_add]
  simp

end Recast.FreeNames
