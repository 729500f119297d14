import Recast.Proofs.Text.Blanking
import Recast.Text.Bracket
import Recast.Text.Quoted

/-!
# Balance of texts made of lines

A text that is put together from whole lines is scanned line by line, since no line of it
leaves a literal open. What stands outside literals is then known piece by piece, and the text
is balanced if the brackets of each piece are closed inside it.
-/

namespace Recast.Text

/-! ### What is left outside literals -/

/-- A character that starts no literal and no comment. -/
def isPlain (c : Char) : Bool := c != '/' && c != '`' && c != '\'' && c != '"'

theorem literal?_of_isPlain {c : Char} (h : isPlain c = true) (prev : Option Char) (r : List Char) :
    literal? prev (c :: r) = none := by
  simp only [isPlain, Bool.and_eq_true, bne_iff_ne] at h
  exact literal?_plain h.1.1.1 h.1.1.2 (not_or.2 ⟨h.1.2, h.2⟩)

theorem code_append (m m' : Marked) : (m ++ m' : Marked).code = m.code ++ m'.code := by
  simp [Marked.code]

theorem code_plain {u : List Char} {c : Char} (hu : u.all isPlain = true) (hc : isPlain c = true)
    (prev : Option Char) (rest : List Char) :
    (markAfter prev (u ++ c :: rest)).code = u ++ c :: (markAfter (some c) rest).code := by
  unfold markAfter
  induction u generalizing prev with
  | nil =>
    rw [List.nil_append, mark_code (literal?_of_isPlain hc prev rest)]
    rfl
  | cons d u ih =>
    rw [List.all_cons, Bool.and_eq_true] at hu
    rw [List.cons_append, mark_code (literal?_of_isPlain hu.1 prev _)]
    exact congrArg (d :: ·) (ih hu.2 (some d))

/-- Escaped text is read up to the quote that closes it. -/
theorem stringLength?_escapeQuoted (s rest : List Char) :
    stringLength? '\'' (escapeQuoted s ++ '\'' :: rest) = some ((escapeQuoted s).length + 1) := by
  induction s with
  | nil => rfl
  | cons c s ih =>
    have hcons : escapeQuoted (c :: s) = quotedChar c ++ escapeQuoted s := rfl
    rw [hcons]
    unfold quotedChar
    split
    case h_4 hslash hquote hline =>
      have hquote : ¬ (c == '\'') = true := by simpa using hquote
      have hline : ¬ (c == '\n') = true := by simpa using hline
      rw [List.singleton_append, List.cons_append, stringLength?_cons hslash, if_neg hline, if_neg hquote,
        ih]
      rfl
    all_goals
      show (stringLength? '\'' (escapeQuoted s ++ '\'' :: rest)).map (· + 2) = _
      rw [ih]
      rfl

theorem literal?_escapeQuoted {prev : Option Char} (hprev : prev.any isIdentChar = false) (s rest : List Char) :
    literal? prev ('\'' :: (escapeQuoted s ++ '\'' :: rest)) = some (.quoted, (escapeQuoted s).length + 2) := by
  rw [literal?_string (.inl rfl), hprev, stringLength?_escapeQuoted]
  rfl

/-- An escaped literal leaves nothing outside. -/
theorem code_quoted {prev : Option Char} (hprev : prev.any isIdentChar = false) (s rest : List Char) :
    (markAfter prev ('\'' :: (escapeQuoted s ++ '\'' :: rest))).code = (markAfter (some '\'') rest).code := by
  let u := '\'' :: (escapeQuoted s ++ ['\''])
  have htext : '\'' :: (escapeQuoted s ++ '\'' :: rest) = u ++ rest := by simp [u]
  have hliteral : literal? prev (u ++ rest) = some (.quoted, u.length) := by
    rw [← htext, literal?_escapeQuoted hprev]
    simp [u]
  have hlast : u.getLast? = some '\'' := by simp [u, List.getLast?_cons]
  have hnone : Marked.code (u.map (·, Label.quoted)) = [] := by
    have hfilter : (u.map (·, Label.quoted)).filter (·.2 == Label.code) = [] := by
      rw [List.filter_eq_nil_iff]
      simp
    rw [Marked.code, hfilter]
    rfl
  rw [htext, markAfter, mark_literal (List.cons_ne_nil _ _) hliteral, hlast, code_append, hnone]
  rfl

/-! ### Lines -/

/-- Scanned from the start of a line, the text `u` leaves `code` outside literals, and behind it a
line starts. -/
def LineCode (u code : List Char) : Prop :=
  ∀ prev rest, prev.any isIdentChar = false →
    (markAfter prev (u ++ rest)).code = code ++ (markAfter (some '\n') rest).code

theorem LineCode.append {u v a b : List Char} (hu : LineCode u a) (hv : LineCode v b) :
    LineCode (u ++ v) (a ++ b) := by
  intro prev rest hprev
  rw [List.append_assoc, hu prev _ hprev, hv (some '\n') rest rfl, List.append_assoc]

theorem lineCode_plain {l : List Char} (h : l.all isPlain = true) :
    LineCode (l ++ ['\n']) (l ++ ['\n']) := by
  intro prev rest _
  rw [List.append_assoc, List.singleton_append, code_plain h (by decide), List.append_assoc,
    List.singleton_append]

/-- A line with one escaped literal, which follows no name. -/
theorem lineCode_quoted {a b : List Char} {d : Char} (ha : a.all isPlain = true) (hd : isPlain d = true)
    (hname : isIdentChar d = false) (hb : b.all isPlain = true) (s : List Char) :
    LineCode (a ++ d :: '\'' :: (escapeQuoted s ++ '\'' :: (b ++ ['\n']))) (a ++ d :: (b ++ ['\n'])) := by
  intro prev rest _
  have htext : a ++ d :: '\'' :: (escapeQuoted s ++ '\'' :: (b ++ ['\n'])) ++ rest =
      a ++ d :: ('\'' :: (escapeQuoted s ++ '\'' :: (b ++ '\n' :: rest))) := by simp
  rw [htext, code_plain ha hd, code_quoted (by simpa using hname), code_plain hb (by decide)]
  simp

/-- A quote that finds no partner before a line feed finds none behind it. -/
theorem not_closes_append {q : Char} {r : List Char} (hline : '\n' ∈ r) (hslash : '\\' ∉ r)
    (h : closes q false r = false) (rest : List Char) : closes q false (r ++ rest) = false := by
  induction r with
  | nil => cases hline
  | cons c r ih =>
    simp only [List.mem_cons, not_or] at hslash
    rw [List.cons_append]
    simp only [closes, if_neg (Ne.symm hslash.1)] at h ⊢
    by_cases hc : c = '\n'
    · simp only [if_pos hc]
    · simp only [if_neg hc] at h ⊢
      split
      · rename_i hq
        rw [if_pos hq] at h
        cases h
      · rename_i hq
        rw [if_neg hq] at h
        exact ih ((List.mem_cons.1 hline).resolve_left (Ne.symm hc)) hslash.2 h

theorem literal?_append_of_none {prev : Option Char} {c : Char} {r : List Char} (hline : '\n' ∈ r)
    (hslash : '\\' ∉ r) (h : literal? prev (c :: r) = none) (rest : List Char) :
    literal? prev (c :: (r ++ rest)) = none := by
  by_cases hs : c = '/'
  · subst hs
    obtain ⟨d, s, rfl⟩ := List.exists_cons_of_ne_nil (List.ne_nil_of_mem hline)
    rw [literal?_slash_eq_none_iff] at h ⊢
    exact h
  by_cases ht : c = '`'
  · subst ht
    cases h
  by_cases hq : c = '\'' ∨ c = '"'
  · rw [literal?_string hq] at h ⊢
    split
    · rfl
    · rename_i hprev
      have hclose : closes c false r = false := by
        rw [if_neg hprev, Option.map_eq_none_iff] at h
        rw [← isSome_stringLength?, h]
        rfl
      rw [Option.map_eq_none_iff, ← Option.not_isSome_iff_eq_none, isSome_stringLength?,
        not_closes_append hline hslash hclose]
      exact Bool.false_ne_true
  · exact literal?_plain hs ht hq

/-- The text ends with a line feed outside literals and holds no comment and no escape. -/
def settled (u : List Char) : Bool :=
  !u.contains '\\' && (mark u).all (·.2 != .comment) && (mark u).getLast? == some ('\n', .code)

theorem getLast?_append_markFrom {text : List Char} (h : text ≠ []) (m : Marked) (prev : Option Char) :
    (m ++ markFrom prev .code 0 text).getLast? = (markFrom prev .code 0 text).getLast? := by
  have hmarks : markFrom prev .code 0 text ≠ [] := by
    intro hnil
    have htext := map_fst_markFrom prev .code 0 text
    rw [hnil] at htext
    exact h htext.symm
  rw [List.getLast?_append, List.getLast?_eq_some_getLast hmarks, Option.some_or]

theorem mark_append_of_settled (prev : Option Char) (u : List Char) (hslash : '\\' ∉ u)
    (hcomment : ∀ x ∈ markAfter prev u, x.2 ≠ .comment)
    (hlast : (markAfter prev u).getLast? = some ('\n', .code)) (rest : List Char) :
    markAfter prev (u ++ rest) = markAfter prev u ++ markAfter (some '\n') rest := by
  unfold markAfter at *
  induction prev, u using scan_induction with
  | nil prev => cases hlast
  | comment prev u v hu h _ =>
    obtain ⟨c, u, rfl⟩ := List.exists_cons_of_ne_nil hu
    rw [mark_literal hu h] at hcomment
    exact absurd rfl (hcomment (c, .comment) (by simp))
  | quoted prev u v hu h ih =>
    rw [mark_literal hu h] at hcomment hlast
    have hv : v ≠ [] := by
      rintro rfl
      obtain ⟨x, hx⟩ : ∃ x, u.getLast? = some x := ⟨_, List.getLast?_eq_some_getLast hu⟩
      simp [markFrom, hx] at hlast
    have hnext : (markFrom u.getLast? .code 0 v).getLast? = some ('\n', .code) := by
      rwa [getLast?_append_markFrom hv] at hlast
    have hrest := ih (fun hmem => hslash (List.mem_append_right _ hmem))
      (fun x hx => hcomment x (List.mem_append_right _ hx)) hnext
    rw [mark_literal hu h, List.append_assoc, mark_literal hu (literal?_append h hv (v ++ rest)), hrest,
      List.append_assoc]
  | code prev c r h ih =>
    rw [mark_code h] at hcomment hlast ⊢
    simp only [List.mem_cons, not_or] at hslash
    cases r with
    | nil =>
      obtain rfl : c = '\n' := by simpa [markFrom] using hlast
      exact mark_code (literal?_of_isPlain (by decide) prev rest)
    | cons d s =>
      have hnext : (markFrom (some c) .code 0 (d :: s)).getLast? = some ('\n', .code) := by
        rwa [← List.singleton_append, getLast?_append_markFrom (List.cons_ne_nil d s)] at hlast
      have hline : '\n' ∈ d :: s := by
        rw [← map_fst_markFrom (some c) .code 0 (d :: s)]
        exact List.mem_map.2 ⟨_, List.mem_of_getLast? hnext, rfl⟩
      have hnone := literal?_append_of_none hline hslash.2 h rest
      have hrest := ih hslash.2 (fun x hx => hcomment x (List.mem_cons_of_mem _ hx)) hnext
      rw [List.cons_append, mark_code hnone, hrest]
      rfl

theorem markAfter_fresh {prev : Option Char} (h : prev.any isIdentChar = false) (text : List Char) :
    markAfter prev text = mark text := by
  have hliteral {text : List Char} : literal? prev text = literal? none text := by
    unfold literal?
    split <;> simp_all
  cases text with
  | nil => rfl
  | cons c r =>
    unfold mark markAfter
    simp only [markFrom, hliteral]

theorem lineCode_of_settled {u : List Char} (h : settled u = true) : LineCode u (mark u).code := by
  simp only [settled, Bool.and_eq_true, Bool.not_eq_true', List.all_eq_true, bne_iff_ne, beq_iff_eq] at h
  obtain ⟨⟨hslash, hcomment⟩, hlast⟩ := h
  intro prev rest hprev
  rw [markAfter_fresh hprev, mark, mark_append_of_settled none u (by simpa using hslash) hcomment hlast,
    code_append]
  rfl

/-! ### Closed brackets -/

/-- The brackets of the code are closed inside it. -/
def Closed (code : List Char) : Prop := nests [] code = true

instance (code : List Char) : Decidable (Closed code) := inferInstanceAs (Decidable (nests [] code = true))

theorem nests_append {st st' : List Bracket} {u : List Char} (h : nests st u = true) (rest : List Char) :
    nests (st ++ st') (u ++ rest) = nests st' rest := by
  induction u generalizing st with
  | nil =>
    rw [nests, List.isEmpty_iff] at h
    rw [h]
    rfl
  | cons c u ih =>
    rw [List.cons_append]
    simp only [nests] at h ⊢
    cases ho : Bracket.ofOpener? c with
    | some b =>
      simp only [ho] at h ⊢
      exact ih h
    | none =>
      cases hc : Bracket.ofCloser? c with
      | none =>
        simp only [ho, hc] at h ⊢
        exact ih h
      | some b =>
        simp only [ho, hc] at h ⊢
        cases st with
        | nil => cases h
        | cons b' st =>
          rw [Bool.and_eq_true] at h
          rw [List.cons_append]
          simp only [h.1, Bool.true_and]
          exact ih h.2

theorem Closed.append {u v : List Char} (hu : Closed u) (hv : Closed v) : Closed (u ++ v) := by
  have huv : nests ([] ++ []) (u ++ v) = nests [] v := nests_append hu v
  exact huv.trans hv

theorem Closed.enclose {u : List Char} (hu : Closed u) (b : Bracket) :
    Closed (b.opener :: (u ++ [b.closer])) := by
  have hcloser : Bracket.ofOpener? b.closer = none := by cases b <;> rfl
  unfold Closed
  rw [nests, Bracket.ofOpener?_opener]
  show nests ([] ++ [b]) (u ++ [b.closer]) = true
  rw [nests_append hu, nests, hcloser, Bracket.ofCloser?_closer]
  simp [nests]

/-- A character that starts no literal and is no bracket. -/
def isNeutral (c : Char) : Bool := isPlain c && !isOpener c && !isCloser c

/-- The brackets, the slash and the quotes. -/
def signs : List Char := ['(', ')', '[', ']', '{', '}', '/', '`', '\'', '"']

theorem isNeutral_of_class {p : Char → Bool} (hp : signs.all (!p ·) = true)
    {c : Char} (h : p c = true) : isNeutral c = true := by
  have hne {d : Char} (hd : d ∈ signs) : c ≠ d := by
    rintro rfl
    have hc := List.all_eq_true.1 hp c hd
    rw [h] at hc
    cases hc
  have hopener : Bracket.ofOpener? c = none := by
    unfold Bracket.ofOpener?
    split
    · exact absurd rfl (hne (by decide))
    · exact absurd rfl (hne (by decide))
    · exact absurd rfl (hne (by decide))
    · rfl
  have hcloser : Bracket.ofCloser? c = none := by
    unfold Bracket.ofCloser?
    split
    · exact absurd rfl (hne (by decide))
    · exact absurd rfl (hne (by decide))
    · exact absurd rfl (hne (by decide))
    · rfl
  have hplain : isPlain c = true := by
    simp [isPlain, hne (d := '/') (by decide), hne (d := '`') (by decide), hne (d := '\'') (by decide),
      hne (d := '"') (by decide)]
  rw [isNeutral, isOpener, isCloser, hopener, hcloser, hplain]
  rfl

theorem isNeutral_of_isIdentChar {c : Char} (h : isIdentChar c = true) : isNeutral c = true :=
  isNeutral_of_class (by decide) h

theorem isNeutral_of_isBlank {c : Char} (h : isBlank c = true) : isNeutral c = true :=
  isNeutral_of_class (by decide) h

theorem all_isPlain_of_neutral {u : List Char} (h : u.all isNeutral = true) : u.all isPlain = true := by
  rw [List.all_eq_true] at h ⊢
  intro c hc
  have hneutral := h c hc
  rw [isNeutral, Bool.and_assoc, Bool.and_eq_true] at hneutral
  exact hneutral.1

theorem closed_of_neutral {u : List Char} (h : u.all isNeutral = true) : Closed u := by
  induction u with
  | nil => rfl
  | cons c u ih =>
    simp only [List.all_cons, isNeutral, Bool.and_eq_true, Bool.not_eq_true', isOpener, isCloser,
      Option.isSome_eq_false_iff, Option.isNone_iff_eq_none] at h
    unfold Closed
    simp only [nests, h.1.1.2, h.1.2]
    exact ih (by simpa [isNeutral, isOpener, isCloser] using h.2)

/-! ### Tidy texts -/

/-- From the start of a line the text is scanned to the start of a line, and the brackets of its
code are closed in it. -/
def Tidy (u : List Char) : Prop := ∃ code, LineCode u code ∧ Closed code

namespace Tidy

theorem isBalanced {u : List Char} (h : Tidy u) : isBalanced u = true := by
  obtain ⟨code, hline, hclosed⟩ := h
  have hcode := hline none [] rfl
  rw [List.append_nil] at hcode
  unfold Text.isBalanced mark
  rw [hcode]
  exact (congrArg (nests []) (List.append_nil code)).trans hclosed

theorem nil : Tidy [] := by
  refine ⟨[], fun prev rest hprev => ?_, rfl⟩
  have hline : (some '\n').any isIdentChar = false := rfl
  rw [List.nil_append, List.nil_append, markAfter_fresh hprev, markAfter_fresh hline]

theorem append {u v : List Char} (hu : Tidy u) (hv : Tidy v) : Tidy (u ++ v) := by
  obtain ⟨a, hu, ha⟩ := hu
  obtain ⟨b, hv, hb⟩ := hv
  exact ⟨a ++ b, hu.append hv, ha.append hb⟩

theorem flatMap {α : Type} {text : α → List Char} {xs : List α} (h : ∀ x ∈ xs, Tidy (text x)) :
    Tidy (xs.flatMap text) := by
  induction xs with
  | nil => exact .nil
  | cons x xs ih =>
    obtain ⟨hx, hrest⟩ := List.forall_mem_cons.1 h
    exact hx.append (ih hrest)

theorem of_settled {u : List Char} (h : settled u = true) (hclosed : Closed (mark u).code) : Tidy u :=
  ⟨_, lineCode_of_settled h, hclosed⟩

theorem of_plain {l : List Char} (h : l.all isPlain = true) (hclosed : Closed l) : Tidy (l ++ ['\n']) :=
  ⟨_, lineCode_plain h, hclosed.append rfl⟩

theorem of_quoted {a b : List Char} {d : Char} (ha : a.all isPlain = true) (hd : isPlain d = true)
    (hname : isIdentChar d = false) (hb : b.all isPlain = true) (hclosed : Closed (a ++ d :: (b ++ ['\n'])))
    (s : List Char) : Tidy (a ++ d :: '\'' :: (escapeQuoted s ++ '\'' :: (b ++ ['\n']))) :=
  ⟨_, lineCode_quoted ha hd hname hb s, hclosed⟩

/-- A block between a line that ends with a brace and a line with its partner. -/
theorem block {head indent u : List Char} (hhead : head.all isPlain = true) (hclosed : Closed head)
    (hindent : indent.all (· == ' ') = true) (hu : Tidy u) :
    Tidy (head ++ ['{', '\n'] ++ u ++ indent ++ ['}', '\n']) := by
  obtain ⟨code, hline, hcode⟩ := hu
  have hspace {c : Char} (hc : c ∈ indent) : c = ' ' := by simpa using List.all_eq_true.1 hindent c hc
  have hneutral : indent.all isNeutral = true := List.all_eq_true.2 fun c hc => hspace hc ▸ rfl
  have hstart : LineCode (head ++ ['{'] ++ ['\n']) (head ++ ['{'] ++ ['\n']) :=
    lineCode_plain (by rw [List.all_append, hhead]; rfl)
  have hend : LineCode (indent ++ ['}'] ++ ['\n']) (indent ++ ['}'] ++ ['\n']) :=
    lineCode_plain (by rw [List.all_append, all_isPlain_of_neutral hneutral]; rfl)
  refine ⟨head ++ ('{' :: ('\n' :: code ++ indent ++ ['}'])) ++ ['\n'], ?_, ?_⟩
  · have htext := (hstart.append hline).append hend
    simpa using htext
  · have hinner : Closed ('\n' :: code ++ indent) :=
      (Closed.append (u := ['\n']) rfl hcode).append (closed_of_neutral hneutral)
    exact (hclosed.append (hinner.enclose .curly)).append rfl

end Tidy

end Recast.Text
