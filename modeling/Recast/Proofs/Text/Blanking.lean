import Recast.Component.Analysis
import Recast.Proofs.Names.Reading
import Recast.Proofs.Text.Encoding

/-!
# Blanked comments

Blanking works byte by byte: a byte of a comment becomes a space unless it ends a line, and
every other byte stays (`utf8_blankComments`).

A second scan stops at the same places as the first. The one danger is a quote that found no
partner, since blanks now stand where the first scan met escapes; but no quote finds a
partner that it did not find before (`closes_of_blankFrom`).
-/

namespace Recast.Text

/-- What becomes of a character of a comment. -/
def blankOut (c : Char) : List Char := if c = '\n' then ['\n'] else List.replicate c.utf8Size ' '

def blankMarked (x : Char × Label) : List Char := if x.2 = .comment then blankOut x.1 else [x.1]

theorem blankComments_eq (text : List Char) :
    blankComments text = (mark text).flatMap blankMarked := by
  unfold blankComments
  refine congrArg (List.flatMap · (mark text)) (funext fun x => ?_)
  obtain ⟨c, l⟩ := x
  by_cases hl : l = .comment <;> by_cases hc : c = '\n' <;> simp [blankMarked, blankOut, hl, hc]

/-- The text that follows `prev`, its comments blanked. -/
def blankFrom (prev : Option Char) (text : List Char) : List Char :=
  (markFrom prev .code 0 text).flatMap blankMarked

theorem blankComments_eq_blankFrom (text : List Char) : blankComments text = blankFrom none text :=
  blankComments_eq text

theorem markFrom_append (prev : Option Char) (l : Label) (u rest : List Char) :
    markFrom prev l u.length (u ++ rest) =
      u.map (·, l) ++ markFrom (u.getLast?.or prev) .code 0 rest := by
  induction u generalizing prev with
  | nil => cases rest <;> rfl
  | cons c u ih =>
    have hlast : (c :: u).getLast?.or prev = u.getLast?.or (some c) := by
      cases u with
      | nil => rfl
      | cons d u => simp [List.getLast?_cons]
    rw [List.cons_append, List.length_cons, markFrom, ih, hlast]
    rfl

theorem mark_literal {prev : Option Char} {u rest : List Char} {l : Label} (hu : u ≠ [])
    (h : literal? prev (u ++ rest) = some (l, u.length)) :
    markFrom prev .code 0 (u ++ rest) = u.map (·, l) ++ markFrom u.getLast? .code 0 rest := by
  obtain ⟨c, u, rfl⟩ := List.exists_cons_of_ne_nil hu
  have htail := markFrom_append (some c) l u rest
  have hlast : u.getLast?.or (some c) = (c :: u).getLast? := by
    cases u <;> simp [List.getLast?_cons]
  rw [hlast] at htail
  rw [List.cons_append, List.length_cons] at h
  rw [List.cons_append, markFrom, h]
  simp only [htail, List.map_cons, List.cons_append]

theorem mark_code {prev : Option Char} {c : Char} {r : List Char}
    (h : literal? prev (c :: r) = none) :
    markFrom prev .code 0 (c :: r) = (c, .code) :: markFrom (some c) .code 0 r := by
  rw [markFrom, h]

@[simp] theorem blankFrom_nil (prev : Option Char) : blankFrom prev [] = [] := rfl

theorem blankFrom_comment {prev : Option Char} {u rest : List Char} (hu : u ≠ [])
    (h : literal? prev (u ++ rest) = some (.comment, u.length)) :
    blankFrom prev (u ++ rest) = u.flatMap blankOut ++ blankFrom u.getLast? rest := by
  unfold blankFrom
  rw [mark_literal hu h, List.flatMap_append, List.flatMap_map]
  rfl

theorem blankFrom_quoted {prev : Option Char} {u rest : List Char} (hu : u ≠ [])
    (h : literal? prev (u ++ rest) = some (.quoted, u.length)) :
    blankFrom prev (u ++ rest) = u ++ blankFrom u.getLast? rest := by
  unfold blankFrom
  rw [mark_literal hu h, List.flatMap_append, List.flatMap_map]
  simp [blankMarked]

theorem blankFrom_code {prev : Option Char} {c : Char} {r : List Char}
    (h : literal? prev (c :: r) = none) :
    blankFrom prev (c :: r) = c :: blankFrom (some c) r := by
  unfold blankFrom
  rw [mark_code h]
  rfl

theorem label_of_literal? {prev : Option Char} {text : List Char} {l : Label} {n : Nat}
    (h : literal? prev text = some (l, n)) : l = .comment ∨ l = .quoted := by
  unfold literal? at h
  split at h
  case h_4 =>
    split at h
    · obtain ⟨m, -, hm⟩ := Option.map_eq_some_iff.1 h
      cases hm
      exact .inr rfl
    · cases h
  case h_5 => cases h
  all_goals
    cases h
    simp

/-- A text is scanned piece by piece: a literal or comment whole, or one character of code. -/
@[elab_as_elim]
theorem scan_induction {motive : Option Char → List Char → Prop} (prev : Option Char)
    (text : List Char) (nil : ∀ prev, motive prev [])
    (comment : ∀ prev u rest, u ≠ [] → literal? prev (u ++ rest) = some (.comment, u.length) →
      motive u.getLast? rest → motive prev (u ++ rest))
    (quoted : ∀ prev u rest, u ≠ [] → literal? prev (u ++ rest) = some (.quoted, u.length) →
      motive u.getLast? rest → motive prev (u ++ rest))
    (code : ∀ prev c r, literal? prev (c :: r) = none → motive (some c) r → motive prev (c :: r)) :
    motive prev text := by
  induction hn : text.length using Nat.strongRecOn generalizing prev text with
  | _ n ih =>
    subst hn
    cases text with
    | nil => exact nil prev
    | cons c r =>
      cases hl : literal? prev (c :: r) with
      | none => exact code prev c r hl (ih r.length (by simp) _ r rfl)
      | some x =>
        obtain ⟨l, n⟩ := x
        obtain ⟨u, rest, htext, hu, rfl, -⟩ := FreeNames.literal?_split hl
        have hlt : rest.length < (c :: r).length := by
          have hpos := List.length_pos_iff.2 hu
          rw [htext, List.length_append]
          omega
        have hrest := ih rest.length hlt u.getLast? rest rfl
        rw [htext] at hl ⊢
        rcases label_of_literal? hl with rfl | rfl
        · exact comment prev u rest hu hl hrest
        · exact quoted prev u rest hu hl hrest

theorem blockComment_shape (r : List Char) :
    ∃ v rest, r = v ++ rest ∧ blockCommentLength r = v.length ∧
      (rest = [] ∨ ∃ w, v = w ++ ['*', '/']) := by
  fun_induction blockCommentLength r with
  | case1 => exact ⟨[], [], rfl, rfl, .inl rfl⟩
  | case2 r => exact ⟨['*', '/'], r, rfl, rfl, .inr ⟨[], rfl⟩⟩
  | case3 c r _ ih =>
    obtain ⟨v, rest, rfl, hn, hr⟩ := ih
    refine ⟨c :: v, rest, rfl, by simp [hn], hr.imp_right ?_⟩
    rintro ⟨w, rfl⟩
    exact ⟨c :: w, rfl⟩

/-- A comment ends the text, or it ends before a line feed, or by its end mark. -/
theorem comment_shape {prev : Option Char} {u rest : List Char}
    (h : literal? prev (u ++ rest) = some (.comment, u.length)) :
    u.head? = some '/' ∧
      (rest = [] ∨ (∃ r, rest = '\n' :: r) ∨ ∃ w, u = '/' :: '*' :: (w ++ ['*', '/'])) := by
  generalize htext : u ++ rest = text at h
  unfold literal? at h
  split at h
  · rename_i r
    simp only [Option.some.injEq, Prod.mk.injEq, true_and] at h
    have hsplit : u ++ rest = ('/' :: '/' :: r.takeWhile (· != '\n')) ++ r.dropWhile (· != '\n') := by
      rw [htext]
      simp
    obtain ⟨rfl, rfl⟩ := List.append_inj hsplit (by simpa using h.symm)
    refine ⟨rfl, ?_⟩
    cases hd : r.dropWhile (· != '\n') with
    | nil => exact .inl rfl
    | cons d s =>
      have hp := List.head_dropWhile_not (p := (· != '\n')) (l := r) (by simp [hd])
      simp only [hd, List.head_cons, bne_eq_false_iff_eq] at hp
      exact .inr (.inl ⟨s, by rw [hp]⟩)
  · rename_i r
    simp only [Option.some.injEq, Prod.mk.injEq, true_and] at h
    obtain ⟨v, rest', rfl, hn, hr⟩ := blockComment_shape r
    have hsplit : u ++ rest = ('/' :: '*' :: v) ++ rest' := by rw [htext]; rfl
    obtain ⟨rfl, rfl⟩ := List.append_inj hsplit (by simp [← h, hn])
    refine ⟨rfl, hr.imp_right fun hw => .inr ?_⟩
    obtain ⟨w, rfl⟩ := hw
    exact ⟨w, rfl⟩
  · simp at h
  · split at h
    · obtain ⟨m, -, hm⟩ := Option.map_eq_some_iff.1 h
      cases hm
    · cases h
  · cases h

/-- Read as the inside of a string, the text comes to an unescaped `q` on its line. -/
def closes (q : Char) : Bool → List Char → Bool
  | _, [] => false
  | true, _ :: r => closes q false r
  | false, c :: r =>
    if c = '\\' then closes q true r
    else if c = '\n' then false
    else if c = q then true
    else closes q false r

theorem not_backslash {c : Char} {r : List Char} (hlone : c = '\\' → r = [] → False)
    (hpair : ∀ d s, c = '\\' → r = d :: s → False) : c ≠ '\\' := by
  rintro rfl
  cases r with
  | nil => exact hlone rfl rfl
  | cons d s => exact hpair d s rfl rfl

theorem isSome_stringLength? (q : Char) (r : List Char) :
    (stringLength? q r).isSome = closes q false r := by
  fun_induction stringLength? q r with
  | case1 => rfl
  | case2 => rfl
  | case3 c r ih => simpa [closes] using ih
  | case4 c r hlone hpair hn =>
    obtain rfl : c = '\n' := by simpa using hn
    rfl
  | case5 c r hlone hpair hn hq =>
    have hn : c ≠ '\n' := by simpa using hn
    have hq : c = q := by simpa using hq
    rw [closes, if_neg (not_backslash hlone hpair), if_neg hn, if_pos hq]
    rfl
  | case6 c r hlone hpair hn hq ih =>
    have hn : c ≠ '\n' := by simpa using hn
    have hq : c ≠ q := by simpa using hq
    rw [closes, if_neg (not_backslash hlone hpair), if_neg hn, if_neg hq, ← ih, Option.isSome_map]

theorem closes_cons_of_imp {q c : Char} {r r' : List Char} (hc : c ≠ '\\')
    (himp : closes q false r = true → closes q false r' = true) {esc : Bool}
    (h : closes q esc (c :: r) = true) : closes q esc (c :: r') = true := by
  cases esc with
  | true => exact himp h
  | false =>
    by_cases hn : c = '\n'
    · simp [closes, hn] at h
    by_cases hq : c = q
    · rw [closes, if_neg hc, if_neg hn, if_pos hq]
    simp only [closes, hc, hn, hq, if_false] at h ⊢
    exact himp h

/-- Behind a whole string the scan for a quote goes on as it would before any other text. -/
theorem closes_string {q s : Char} {r : List Char} {n : Nat} (hs : s ≠ '\\')
    (h : stringLength? s r = some n)
    {rest rest' : List Char} (himp : closes q false rest = true → closes q false rest' = true)
    (hcloses : closes q false (r.take n ++ rest) = true) :
    closes q false (r.take n ++ rest') = true := by
  fun_induction stringLength? s r generalizing n with
  | case1 => cases h
  | case2 => cases h
  | case3 c r ih =>
    obtain ⟨m, hm, rfl⟩ := Option.map_eq_some_iff.1 h
    exact ih hm hcloses
  | case4 => cases h
  | case5 c r _ _ _ hq =>
    obtain rfl : c = s := by simpa using hq
    cases h
    exact closes_cons_of_imp hs himp hcloses
  | case6 c r hlone hpair _ _ ih =>
    obtain ⟨m, hm, rfl⟩ := Option.map_eq_some_iff.1 h
    exact closes_cons_of_imp (not_backslash hlone hpair) (ih hm) hcloses

theorem closes_template {q : Char} {r : List Char} (hrest : r.drop (templateLength r) ≠ [])
    {rest rest' : List Char} (himp : closes q false rest = true → closes q false rest' = true)
    (hcloses : closes q false (r.take (templateLength r) ++ rest) = true) :
    closes q false (r.take (templateLength r) ++ rest') = true := by
  fun_induction templateLength r with
  | case1 => exact absurd rfl hrest
  | case2 => exact absurd rfl hrest
  | case3 c r ih => exact ih hrest hcloses
  | case4 r => exact closes_cons_of_imp (by decide) himp hcloses
  | case5 c r hlone hpair _ ih => exact closes_cons_of_imp (not_backslash hlone hpair) (ih hrest) hcloses

/-- A literal is a template or a string. -/
theorem quoted_shape {prev : Option Char} {u rest : List Char}
    (h : literal? prev (u ++ rest) = some (.quoted, u.length)) :
    (∃ r : List Char, u = '`' :: r.take (templateLength r) ∧ rest = r.drop (templateLength r)) ∨
      ∃ (c : Char) (r : List Char) (n : Nat), (c = '\'' ∨ c = '"') ∧ ¬ prev.any isIdentChar ∧
        stringLength? c r = some n ∧
        u = c :: r.take n ∧ rest = r.drop n := by
  have hsplit {c : Char} {r : List Char} {n : Nat} (htext : u ++ rest = c :: r) (hn : u.length = n + 1) :
      u = c :: r.take n ∧ rest = r.drop n := by
    obtain ⟨d, v, rfl⟩ := List.exists_cons_of_length_eq_add_one hn
    obtain ⟨rfl, rfl⟩ := List.cons.inj htext
    obtain rfl : v.length = n := by simpa using hn
    simp
  generalize htext : u ++ rest = text at h
  unfold literal? at h
  split at h
  · simp at h
  · simp at h
  · rename_i r
    simp only [Option.some.injEq, Prod.mk.injEq, true_and] at h
    exact .inl ⟨r, hsplit htext h.symm⟩
  · rename_i c r _ _ _
    split at h
    · rename_i hq
      simp only [Bool.and_eq_true, Bool.or_eq_true, beq_iff_eq, Bool.not_eq_true'] at hq
      obtain ⟨n, hn, hlength⟩ := Option.map_eq_some_iff.1 h
      simp only [Prod.mk.injEq, true_and] at hlength
      exact .inr ⟨c, r, n, hq.1, by simp [hq.2], hn, hsplit htext hlength.symm⟩
    · cases h
  · cases h

/-- Behind a literal that does not end the text, too. -/
theorem closes_literal {q : Char} {prev : Option Char} {u rest : List Char}
    (h : literal? prev (u ++ rest) = some (.quoted, u.length)) (hrest : rest ≠ [])
    {s s' : List Char} (himp : closes q false s = true → closes q false s' = true) {esc : Bool}
    (hcloses : closes q esc (u ++ s) = true) : closes q esc (u ++ s') = true := by
  rcases quoted_shape h with ⟨r, rfl, rfl⟩ | ⟨c, r, n, hc, -, hn, rfl, rfl⟩
  · exact closes_cons_of_imp (by decide) (closes_template hrest himp) hcloses
  · have hc : c ≠ '\\' := by rcases hc with rfl | rfl <;> decide
    exact closes_cons_of_imp hc (closes_string hc hn himp) hcloses

theorem blankOut_eq (c : Char) : (c = '\n' ∧ blankOut c = ['\n']) ∨
    (c ≠ '\n' ∧ ∃ n, blankOut c = List.replicate (n + 1) ' ') := by
  by_cases hc : c = '\n'
  · exact .inl ⟨hc, by simp [blankOut, hc]⟩
  · refine .inr ⟨hc, c.utf8Size - 1, ?_⟩
    rw [blankOut, if_neg hc, Nat.sub_add_cancel c.utf8Size_pos]

theorem closes_spaces {q : Char} (hq : q ≠ ' ') (n : Nat) (rest : List Char) :
    closes q false (List.replicate n ' ' ++ rest) = closes q false rest := by
  induction n with
  | zero => rfl
  | succ n ih => rw [List.replicate_succ, List.cons_append, closes, if_neg (by decide), if_neg (by decide),
      if_neg hq.symm, ih]

/-- Through blanks the scan for a quote comes only if they hold no line feed. -/
theorem closes_blanks {q : Char} (hq : q ≠ ' ') {u rest : List Char}
    (h : closes q false (u.flatMap blankOut ++ rest) = true) :
    '\n' ∉ u ∧ closes q false rest = true := by
  induction u with
  | nil => exact ⟨by simp, h⟩
  | cons c u ih =>
    rw [List.flatMap_cons, List.append_assoc] at h
    rcases blankOut_eq c with ⟨-, hb⟩ | ⟨hc, n, hb⟩
    · simp [hb, closes] at h
    · rw [hb, closes_spaces hq] at h
      exact ⟨by simp [Ne.symm hc, (ih h).1], (ih h).2⟩

theorem closes_slash {q : Char} {rest : List Char} (h : closes q false rest = true) :
    closes q false ('/' :: rest) = true := by
  rw [closes, if_neg (by decide), if_neg (by decide), h]
  simp

/-- The end mark of a block comment is no escape, so behind it the scan goes on in step. -/
theorem closes_block {q : Char} {w rest : List Char} (hw : '\n' ∉ w)
    (h : closes q false rest = true)
    (esc : Bool) : closes q esc (w ++ '*' :: '/' :: rest) = true := by
  induction w generalizing esc with
  | nil =>
    cases esc with
    | true => exact closes_slash h
    | false =>
      rw [List.nil_append, closes, if_neg (by decide), if_neg (by decide), closes_slash h]
      simp
  | cons c w ih =>
    simp only [List.mem_cons, not_or] at hw
    cases esc with
    | true => exact ih hw.2 false
    | false =>
      simp only [List.cons_append, closes, Ne.symm hw.1, if_false, ih hw.2]
      simp

/-- A quote that finds its partner behind blanked comments finds one before they are blanked. -/
theorem closes_of_blankFrom {q : Char} (hq : q ≠ ' ') (prev : Option Char) (text : List Char)
    {esc : Bool} (h : closes q esc (blankFrom prev text) = true) : closes q esc text = true := by
  induction prev, text using scan_induction generalizing esc with
  | nil prev => exact h
  | code prev c r hl ih =>
    rw [blankFrom_code hl] at h
    cases esc with
    | true => exact ih h
    | false =>
      by_cases hc : c = '\\'
      · subst hc
        exact @ih true h
      · exact closes_cons_of_imp hc ih h
  | quoted prev u rest hu hl ih =>
    rw [blankFrom_quoted hu hl] at h
    by_cases hrest : rest = []
    · subst hrest
      exact h
    · exact closes_literal hl hrest ih h
  | comment prev u rest hu hl ih =>
    rw [blankFrom_comment hu hl] at h
    obtain ⟨hhead, hshape⟩ := comment_shape hl
    obtain ⟨v, rfl⟩ := List.head?_eq_some_iff.1 hhead
    have hblanks : closes q false (v.flatMap blankOut ++ blankFrom ('/' :: v).getLast? rest) = true := by
      cases esc with
      | true => exact h
      | false => exact (closes_spaces hq 1 _).symm.trans h
    obtain ⟨hv, hrest⟩ := closes_blanks hq hblanks
    rcases hshape with rfl | ⟨r, rfl⟩ | ⟨w, hw⟩
    · cases hrest
    · have hline := ih hrest
      simp [closes] at hline
    · obtain rfl : v = '*' :: (w ++ ['*', '/']) := (List.cons.inj hw).2
      have hline : '\n' ∉ '/' :: '*' :: w := by simpa using hv
      simpa using closes_block hline (ih hrest) esc

/-- The characters before two texts do not matter to a scan of what follows. -/
def Alike (prev prev' : Option Char) (text : List Char) : Prop :=
  prev'.any isIdentChar = prev.any isIdentChar ∨ text.head? ≠ some '\'' ∧ text.head? ≠ some '"'

theorem literal?_alike {prev prev' : Option Char} {text : List Char} (h : Alike prev prev' text) :
    literal? prev' text = literal? prev text := by
  unfold literal?
  split
  · rfl
  · rfl
  · rfl
  · rename_i c r _ _ _
    rcases h with h | ⟨hs, hd⟩
    · rw [h]
    · have hs : (c == '\'') = false := by simpa using hs
      have hd : (c == '"') = false := by simpa using hd
      simp [hs, hd]
  · rfl

/-- Blanked text has a blank, or what the text has, as its first character. -/
theorem head?_blankFrom (prev : Option Char) (text : List Char) :
    (blankFrom prev text).head? = text.head? ∨ (blankFrom prev text).head? = some ' ' := by
  induction prev, text using scan_induction with
  | nil prev => exact .inl rfl
  | code prev c r hl ih => exact .inl (by rw [blankFrom_code hl]; rfl)
  | quoted prev u rest hu hl ih =>
    rw [blankFrom_quoted hu hl]
    obtain ⟨c, u, rfl⟩ := List.exists_cons_of_ne_nil hu
    exact .inl rfl
  | comment prev u rest hu hl ih =>
    obtain ⟨v, rfl⟩ := List.head?_eq_some_iff.1 (comment_shape hl).1
    rw [blankFrom_comment hu hl]
    exact .inr rfl

theorem literal?_slash_eq_none_iff {prev : Option Char} {r : List Char} :
    literal? prev ('/' :: r) = none ↔ r.head? ≠ some '/' ∧ r.head? ≠ some '*' := by
  cases r with
  | nil => simp [literal?]
  | cons c r =>
    constructor
    · intro h
      refine ⟨?_, ?_⟩ <;>
      · rintro hc
        obtain rfl := Option.some.inj hc
        simp [literal?] at h
    · rintro ⟨hs, ha⟩
      have hs : c ≠ '/' := by simpa using hs
      have ha : c ≠ '*' := by simpa using ha
      simp [literal?, hs, ha]

theorem literal?_string {prev : Option Char} {q : Char} (hq : q = '\'' ∨ q = '"') (r : List Char) :
    literal? prev (q :: r) =
      if prev.any isIdentChar then none else (stringLength? q r).map fun n => (.quoted, n + 1) := by
  cases hp : prev.any isIdentChar <;> rcases hq with rfl | rfl <;> simp [literal?, hp]

theorem literal?_plain {prev : Option Char} {c : Char} {r : List Char} (hs : c ≠ '/') (ht : c ≠ '`')
    (hq : ¬ (c = '\'' ∨ c = '"')) : literal? prev (c :: r) = none := by
  unfold literal?
  split <;> simp_all

theorem stringLength?_cons {q c : Char} {r : List Char} (hc : c ≠ '\\') :
    stringLength? q (c :: r) =
      if c == '\n' then none else if c == q then some 1 else (stringLength? q r).map (· + 1) := by
  rw [stringLength?]
  · exact fun h _ => hc h
  · exact fun _ _ h _ => hc h

theorem templateLength_cons {c : Char} {r : List Char} (hc : c ≠ '\\') (ht : c ≠ '`') :
    templateLength (c :: r) = templateLength r + 1 := by
  rw [templateLength]
  · exact fun h _ => hc h
  · exact fun _ _ h _ => hc h
  · exact ht

theorem stringLength?_take {q : Char} {r : List Char} {n : Nat} (h : stringLength? q r = some n)
    (s : List Char) : stringLength? q (r.take n ++ s) = some n := by
  fun_induction stringLength? q r generalizing n with
  | case1 => cases h
  | case2 => cases h
  | case3 c r ih =>
    obtain ⟨m, hm, rfl⟩ := Option.map_eq_some_iff.1 h
    show (stringLength? q (r.take m ++ s)).map (· + 2) = _
    rw [ih hm]
    rfl
  | case4 => cases h
  | case5 c r hlone hpair hn hq =>
    cases h
    rw [List.take_succ_cons, List.take_zero, List.cons_append,
      stringLength?_cons (not_backslash hlone hpair), if_neg hn, if_pos hq]
  | case6 c r hlone hpair hn hq ih =>
    obtain ⟨m, hm, rfl⟩ := Option.map_eq_some_iff.1 h
    rw [List.take_succ_cons, List.cons_append, stringLength?_cons (not_backslash hlone hpair),
      if_neg hn, if_neg hq, ih hm]
    rfl

theorem templateLength_take {r : List Char} (hrest : r.drop (templateLength r) ≠ [])
    (s : List Char) :
    templateLength (r.take (templateLength r) ++ s) = templateLength r := by
  fun_induction templateLength r with
  | case1 => exact absurd rfl hrest
  | case2 => exact absurd rfl hrest
  | case3 c r ih => exact congrArg (· + 2) (ih hrest)
  | case4 r => rfl
  | case5 c r hlone hpair htick ih =>
    rw [List.take_succ_cons, List.cons_append, templateLength_cons (not_backslash hlone hpair) htick,
      ih hrest]

theorem literal?_append {prev : Option Char} {u rest : List Char}
    (h : literal? prev (u ++ rest) = some (.quoted, u.length)) (hrest : rest ≠ []) (s : List Char) :
    literal? prev (u ++ s) = some (.quoted, u.length) := by
  rw [← h]
  rcases quoted_shape h with ⟨r, rfl, rfl⟩ | ⟨c, r, n, hc, hp, hn, rfl, rfl⟩
  · simp only [List.cons_append, literal?, List.take_append_drop, templateLength_take hrest]
  · simp only [List.cons_append, literal?_string hc, List.take_append_drop, stringLength?_take hn, hn]

theorem markFrom_blanks {b rest : List Char} (hb : ∀ c ∈ b, c = ' ' ∨ c = '\n') (prev : Option Char) :
    markFrom prev .code 0 (b ++ rest) =
      b.map (·, .code) ++ markFrom (b.getLast?.or prev) .code 0 rest := by
  induction b generalizing prev with
  | nil => rfl
  | cons c b ih =>
    obtain ⟨hc, hb⟩ := List.forall_mem_cons.1 hb
    have hcode : literal? prev (c :: (b ++ rest)) = none := by
      rcases hc with rfl | rfl <;> exact literal?_plain (by decide) (by decide) (by decide)
    have hlast : (c :: b).getLast?.or prev = b.getLast?.or (some c) := by
      cases b <;> simp [List.getLast?_cons]
    rw [List.cons_append, mark_code hcode, ih hb, hlast]
    rfl

theorem blank_of_mem_blankOut {u : List Char} : ∀ c ∈ u.flatMap blankOut, c = ' ' ∨ c = '\n' := by
  intro c hc
  obtain ⟨d, -, hd⟩ := List.mem_flatMap.1 hc
  unfold blankOut at hd
  split at hd
  · exact .inr (List.mem_singleton.1 hd)
  · exact .inl (List.eq_of_mem_replicate hd)

/-- A quote without a partner has none in the blanked text either, and no two characters of code
that stand together there start a comment. -/
theorem literal?_blankFrom {prev prev' : Option Char} {c : Char} {r : List Char}
    (hl : literal? prev (c :: r) = none) (h : Alike prev prev' (c :: r)) :
    literal? prev' (c :: blankFrom (some c) r) = none := by
  by_cases hs : c = '/'
  · subst hs
    obtain ⟨hslash, hstar⟩ := literal?_slash_eq_none_iff.1 hl
    rw [literal?_slash_eq_none_iff]
    rcases head?_blankFrom (some '/') r with hhead | hhead
    · rw [hhead]
      exact ⟨hslash, hstar⟩
    · rw [hhead]
      decide
  by_cases ht : c = '`'
  · subst ht
    simp [literal?] at hl
  by_cases hq : c = '\'' ∨ c = '"'
  · have halike : prev'.any isIdentChar = prev.any isIdentChar := by
      refine h.resolve_right ?_
      rintro ⟨hsingle, hdouble⟩
      rcases hq with rfl | rfl
      · exact hsingle rfl
      · exact hdouble rfl
    rw [literal?_string hq] at hl ⊢
    rw [halike]
    split
    · rfl
    · rename_i hprev
      rw [if_neg hprev, Option.map_eq_none_iff, ← Option.not_isSome_iff_eq_none,
        isSome_stringLength?] at hl
      rw [Option.map_eq_none_iff, ← Option.not_isSome_iff_eq_none, isSome_stringLength?]
      have hspace : c ≠ ' ' := by rcases hq with rfl | rfl <;> decide
      exact fun hcloses => hl (closes_of_blankFrom hspace (some c) r hcloses)
  · exact literal?_plain hs ht hq

/-- What the scan sees of a character once comments are blanked. -/
def blankLabelled (x : Char × Label) : Marked :=
  if x.2 = .comment then (blankOut x.1).map (·, .code) else [x]

/-- The blanked text is scanned as the text is, with blanks of code in the place of comments. -/
theorem markFrom_blankFrom {prev prev' : Option Char} {text : List Char} (h : Alike prev prev' text) :
    markFrom prev' .code 0 (blankFrom prev text) = (markFrom prev .code 0 text).flatMap blankLabelled := by
  induction prev, text using scan_induction generalizing prev' with
  | nil prev => rfl
  | code prev c r hl ih =>
    rw [blankFrom_code hl, mark_code (literal?_blankFrom hl h), mark_code hl, ih (.inl rfl)]
    rfl
  | quoted prev u rest hu hl ih =>
    have hagain : literal? prev' (u ++ blankFrom u.getLast? rest) = some (.quoted, u.length) := by
      by_cases hrest : rest = []
      · subst hrest
        exact (literal?_alike h).trans hl
      · exact literal?_append ((literal?_alike h).trans hl) hrest _
    have hquoted : (u.map (·, Label.quoted)).flatMap blankLabelled = u.map (·, Label.quoted) := by
      rw [List.flatMap_map, List.map_eq_flatMap]
      rfl
    rw [blankFrom_quoted hu hl, mark_literal hu hagain, mark_literal hu hl, ih (.inl rfl),
      List.flatMap_append, hquoted]
  | comment prev u rest hu hl ih =>
    have hafter : ((u.flatMap blankOut).getLast?.or prev').any isIdentChar = false := by
      have hne : u.flatMap blankOut ≠ [] := by
        obtain ⟨c, v, rfl⟩ := List.exists_cons_of_ne_nil hu
        rcases blankOut_eq c with ⟨-, hb⟩ | ⟨-, n, hb⟩ <;> simp [hb]
      rw [List.getLast?_eq_some_getLast hne]
      rcases blank_of_mem_blankOut _ (List.getLast_mem hne) with hlast | hlast <;> rw [hlast] <;> rfl
    have halike : Alike u.getLast? ((u.flatMap blankOut).getLast?.or prev') rest := by
      rcases (comment_shape hl).2 with rfl | ⟨r, rfl⟩ | ⟨w, rfl⟩
      · exact .inr (by decide)
      · exact .inr (by simp)
      · exact .inl (by rw [hafter]; simp [List.getLast?_cons, isIdentChar])
    have hcomment : (u.map (·, Label.comment)).flatMap blankLabelled = (u.flatMap blankOut).map (·, .code) := by
      rw [List.flatMap_map, List.map_flatMap]
      rfl
    rw [blankFrom_comment hu hl, markFrom_blanks blank_of_mem_blankOut, ih halike, mark_literal hu hl,
      List.flatMap_append, hcomment]

theorem blankFrom_blankFrom {prev prev' : Option Char} {text : List Char} (h : Alike prev prev' text) :
    blankFrom prev' (blankFrom prev text) = blankFrom prev text := by
  have honce (x : Char × Label) : (blankLabelled x).flatMap blankMarked = blankMarked x := by
    obtain ⟨c, l⟩ := x
    unfold blankLabelled blankMarked
    split
    · simp [List.flatMap_map]
    · rename_i hl
      simp [hl]
  show (markFrom prev' .code 0 (blankFrom prev text)).flatMap blankMarked = _
  rw [markFrom_blankFrom h, List.flatMap_assoc]
  exact congrArg (List.flatMap · _) (funext honce)

/-- Blanking a second time changes nothing. -/
theorem blankComments_blankComments (text : List Char) :
    blankComments (blankComments text) = blankComments text := by
  simp only [blankComments_eq_blankFrom]
  exact blankFrom_blankFrom (.inl rfl)

/-- The bytes of the text, each with the label of its character. -/
def Marked.bytes (m : Marked) : List (UInt8 × Label) :=
  m.flatMap fun x => (String.utf8EncodeChar x.1).map (·, x.2)

def blankByte (x : UInt8 × Label) : UInt8 := if x.2 = .comment ∧ x.1 ≠ 10 then 32 else x.1

theorem map_fst_bytes (m : Marked) : m.bytes.map Prod.fst = utf8 (m.map Prod.fst) := by
  unfold Marked.bytes utf8
  rw [List.map_flatMap, List.flatMap_map]
  simp [Function.comp_def]

/-- Only a line feed has its byte. -/
theorem eq_lineFeed_of_mem {c : Char} (h : 10 ∈ String.utf8EncodeChar c) : c = '\n' := by
  have hbyte {n : Nat} (hn : n < 256) (heq : (10 : UInt8) = UInt8.ofNat n) : n = 10 := by
    rw [← UInt8.toNat_ofNat_of_lt' hn, ← heq]
    rfl
  unfold String.utf8EncodeChar at h
  simp only at h
  split at h
  · have hv : c.val.toNat = 10 := hbyte (by omega) (List.mem_singleton.1 h)
    rw [← Char.ofNat_toNat c, Char.toNat, hv]
  -- every byte of a longer character lies above the ASCII range
  split at h
  · simp only [List.mem_cons, List.not_mem_nil, or_false] at h
    rcases h with h | h <;> have hn := hbyte (by omega) h <;> omega
  split at h
  · simp only [List.mem_cons, List.not_mem_nil, or_false] at h
    rcases h with h | h | h <;> have hn := hbyte (by omega) h <;> omega
  · simp only [List.mem_cons, List.not_mem_nil, or_false] at h
    rcases h with h | h | h | h <;> have hn := hbyte (by omega) h <;> omega

theorem utf8_spaces (n : Nat) : utf8 (List.replicate n ' ') = List.replicate n 32 := by
  induction n with
  | zero => rfl
  | succ n ih => rw [List.replicate_succ, utf8_cons, ih]; rfl

theorem utf8_blankMarked (x : Char × Label) :
    utf8 (blankMarked x) = ((String.utf8EncodeChar x.1).map (·, x.2)).map blankByte := by
  obtain ⟨c, l⟩ := x
  rw [List.map_map]
  by_cases hl : l = .comment
  · subst hl
    by_cases hc : c = '\n'
    · subst hc
      rfl
    · have hbyte : ∀ b ∈ String.utf8EncodeChar c, (blankByte ∘ (·, Label.comment)) b = 32 := by
        intro b hb
        have hne : b ≠ 10 := by
          rintro rfl
          exact hc (eq_lineFeed_of_mem hb)
        simp [blankByte, hne]
      rw [List.map_congr_left hbyte, List.map_const', String.length_utf8EncodeChar, blankMarked, if_pos rfl,
        blankOut, if_neg hc, utf8_spaces]
  · simp [blankMarked, hl, utf8, blankByte, Function.comp_def]

theorem utf8_blankComments (text : List Char) :
    utf8 (blankComments text) = (mark text).bytes.map blankByte := by
  rw [blankComments_eq]
  unfold Marked.bytes utf8
  rw [List.flatMap_assoc, List.map_flatMap]
  exact congrArg (List.flatMap · _) (funext utf8_blankMarked)

/-- `out` is the text with its comments blanked in place. -/
structure BlankedInPlace (text out : List Char) : Prop where
  length : (utf8 out).length = (utf8 text).length
  /-- The blanked bytes are those of a text, so that nothing is replaced when they are read. -/
  bytes : utf8 out = (mark text).bytes.map blankByte
  read : decode ((mark text).bytes.map blankByte) = out
  kept : ∀ c ∈ out, c = ' ' ∨ c ∈ text
  labelled : (mark text).bytes.map Prod.fst = utf8 text
  lineFeed : ∀ i : Nat, (utf8 out)[i]? = some 10 ↔ (utf8 text)[i]? = some 10
  comment : ∀ (i : Nat) (b : UInt8), (mark text).bytes[i]? = some (b, .comment) →
    (utf8 out)[i]? = some (if b = 10 then 10 else 32)
  code : ∀ (i : Nat) (b : UInt8), (mark text).bytes[i]? = some (b, .code) → (utf8 out)[i]? = some b
  quoted : ∀ (i : Nat) (b : UInt8), (mark text).bytes[i]? = some (b, .quoted) → (utf8 out)[i]? = some b

theorem blankByte_eq_lineFeed_iff (x : UInt8 × Label) : blankByte x = 10 ↔ x.1 = 10 := by
  unfold blankByte
  split
  · rename_i h
    exact iff_of_false (by decide) h.2
  · rfl

theorem mem_blankComments {text : List Char} {c : Char} (h : c ∈ blankComments text) :
    c = ' ' ∨ c ∈ text := by
  rw [blankComments_eq] at h
  obtain ⟨x, hx, hc⟩ := List.mem_flatMap.1 h
  have hmem : x.1 ∈ text := map_fst_mark text ▸ List.mem_map_of_mem hx
  unfold blankMarked blankOut at hc
  split at hc
  · split at hc
    · rename_i hn
      rw [List.mem_singleton.1 hc, ← hn]
      exact .inr hmem
    · exact .inl (List.eq_of_mem_replicate hc)
  · exact .inr (List.mem_singleton.1 hc ▸ hmem)

theorem map_fst_bytes_mark (text : List Char) : (mark text).bytes.map Prod.fst = utf8 text := by
  rw [map_fst_bytes, map_fst_mark]

theorem blankedInPlace_blankComments (text : List Char) :
    BlankedInPlace text (blankComments text) where
  length := by rw [utf8_blankComments, ← map_fst_bytes_mark, List.length_map, List.length_map]
  bytes := utf8_blankComments text
  read := by rw [← utf8_blankComments, decode_utf8]
  kept _ := mem_blankComments
  labelled := map_fst_bytes_mark text
  lineFeed i := by
    rw [utf8_blankComments, ← map_fst_bytes_mark, List.getElem?_map, List.getElem?_map]
    simp [blankByte_eq_lineFeed_iff]
  comment i b h := by
    rw [utf8_blankComments, List.getElem?_map, h]
    by_cases hb : b = 10 <;> simp [blankByte, hb]
  code i b h := by
    rw [utf8_blankComments, List.getElem?_map, h]
    rfl
  quoted i b h := by
    rw [utf8_blankComments, List.getElem?_map, h]
    rfl

end Recast.Text

namespace Recast.Facts

open Recast.Text

/-- Analysis reads nothing of a source but its blanked text. -/
theorem analyze_congr {source source' : String}
    (h : blankComments source'.toList = blankComments source.toList)
    (declared? : Option String) : analyze source' declared? = analyze source declared? := by
  unfold analyze
  rw [h]

/-- Comments are blanked in place, once and for all, and analysis does not read them. -/
theorem analyze_blankComments (source : String) :
    BlankedInPlace source.toList (blankComments source.toList) ∧
      blankComments (blankComments source.toList) = blankComments source.toList ∧
      ∀ declared? : Option String,
        analyze (String.ofList (blankComments source.toList)) declared? = analyze source declared? := by
  refine ⟨blankedInPlace_blankComments _, blankComments_blankComments _, analyze_congr ?_⟩
  rw [String.toList_ofList, blankComments_blankComments]

end Recast.Facts
