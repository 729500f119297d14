import Recast.Proofs.Artifact.Paths
import Recast.Proofs.Text.Occurrence
import Recast.Proofs.Text.Splitting
import Recast.Text.Lines

/-!
# Lines that hold ink

The lines of a text that are not blank, without the blanks around them. Code that is moved to another
depth, or set apart by blank lines, keeps them. A word on one line is found in the text exactly if it is
found in one of them (`contains_iff_inkLines`), and where they are given the text itself is known but for
the blanks around its line breaks (`exists_of_inkLines`).
-/

namespace Recast.Text

/-! ### Ink -/

/-- The characters that are not blank. -/
def ink (text : List Char) : List Char := text.filter (!isBlank ·)

@[simp] theorem ink_nil : ink [] = [] := rfl

@[simp] theorem ink_append (u v : List Char) : ink (u ++ v) = ink u ++ ink v := List.filter_append ..

theorem ink_eq_nil_iff {text : List Char} : ink text = [] ↔ isBlankText text = true := by
  simp [ink, isBlankText]

theorem ink_cons_of_blank {c : Char} (hc : isBlank c = true) (r : List Char) : ink (c :: r) = ink r := by
  simp [ink, hc]

theorem ink_trimEnd (text : List Char) : ink (trimEnd text) = ink text := by
  obtain ⟨v, hv, hblank⟩ := exists_append_trimEnd_of_blank text
  conv_rhs => rw [hv]
  rw [ink_append, ink_eq_nil_iff.2 hblank, List.append_nil]

theorem ink_lines (text : List Char) : (lines text).flatMap ink = ink text := by
  fun_induction lines text with
  | case1 => rfl
  | case2 r ih => rw [List.flatMap_cons, ih, ink_cons_of_blank (by decide)]; rfl
  | case3 r ih => rw [List.flatMap_cons, ih, ink_cons_of_blank (by decide), ink_cons_of_blank (by decide)]; rfl
  | case4 c r _ _ hlines ih =>
    rw [hlines] at ih
    have hcons : ink (c :: r) = ink [c] ++ ink r := ink_append [c] r
    rw [hcons, ← ih, List.flatMap_cons]
  | case5 c r _ _ l ls hlines ih =>
    rw [hlines, List.flatMap_cons] at ih
    have hcons (u : List Char) : ink (c :: u) = ink [c] ++ ink u := ink_append [c] u
    rw [List.flatMap_cons, hcons l, hcons r, ← ih, List.append_assoc]

theorem ink_joinLines (ls : List (List Char)) : ink (joinLines ls) = ls.flatMap ink := by
  have hfeed : ink ['\n'] = [] := rfl
  unfold joinLines
  induction ls with
  | nil => rfl
  | cons l ls ih =>
    cases ls with
    | nil => simp [joinWith]
    | cons m ms =>
      rw [joinWith_cons_cons, ink_append, ink_append, hfeed, List.append_nil, ih]
      rfl

theorem flatMap_ink_of_blank {ls : List (List Char)} (h : ∀ l ∈ ls, isBlankText l = true) :
    ls.flatMap ink = [] :=
  List.flatMap_eq_nil_iff.2 fun l hl => ink_eq_nil_iff.2 (h l hl)

/-! ### Lines -/

/-- The lines that are not blank, without the blanks around them. -/
def inkLines (text : List Char) : List (List Char) := ((splitOn '\n' text).map trim).filter (!·.isEmpty)

/-- A text is its first line, or that and the text behind its break. -/
theorem line_induction {P : List Char → Prop} (line : ∀ l, '\n' ∉ l → P l)
    (cons : ∀ l r, '\n' ∉ l → P r → P (l ++ '\n' :: r)) (text : List Char) : P text := by
  induction hn : text.length using Nat.strong_induction_on generalizing text with
  | _ n ih =>
    by_cases hfeed : '\n' ∈ text
    · obtain ⟨l, r, rfl, hl⟩ := List.eq_append_cons_of_mem hfeed
      exact cons l r hl (ih r.length (by simp only [List.length_append, List.length_cons] at hn; omega) r rfl)
    · exact line text hfeed

theorem isBlankText_append (u v : List Char) : isBlankText (u ++ v) = (isBlankText u && isBlankText v) :=
  List.all_append

/-- A break between blank texts. -/
theorem isBlankText_append_feed {u v : List Char} :
    isBlankText (u ++ '\n' :: v) = true ↔ isBlankText u = true ∧ isBlankText v = true := by
  have hfeed : isBlankText ('\n' :: v) = isBlankText v := rfl
  rw [isBlankText_append, hfeed, Bool.and_eq_true_iff]

theorem not_isBlank_of_trimStart {c : Char} {r : List Char} (h : trimStart (c :: r) = c :: r) :
    isBlank c = false := by
  have hhead := List.dropWhile_eq_self_iff.1 h (by simp)
  simpa using hhead

theorem trim_eq_nil_iff {text : List Char} : trim text = [] ↔ isBlankText text = true := by
  obtain ⟨u, v, htext, hu, hv⟩ := exists_trim_append text
  constructor
  · intro htrim
    rw [htext, htrim, List.nil_append, isBlankText_append, hu, hv]
    rfl
  · intro hblank
    rw [trim, trimStart, List.dropWhile_eq_nil_iff.2 (List.all_eq_true.1 hblank)]
    rfl

theorem ink_trim (text : List Char) : ink (trim text) = ink text := by
  obtain ⟨u, v, htext, hu, hv⟩ := exists_trim_append text
  conv_rhs => rw [htext]
  rw [ink_append, ink_append, ink_eq_nil_iff.2 hu, ink_eq_nil_iff.2 hv, List.nil_append, List.append_nil]

/-- The text is on one line, and no blank stands at its ends. -/
structure IsPhrase (text : List Char) : Prop where
  line : '\n' ∉ text
  tight : IsTight text
  ne_nil : text ≠ []

instance (text : List Char) : Decidable (IsPhrase text) :=
  decidable_of_iff ('\n' ∉ text ∧ trim text = text ∧ text ≠ [])
    ⟨fun ⟨hline, htrim, hne⟩ => ⟨hline, isTight_of_trim_eq htrim, hne⟩,
      fun ⟨hline, htight, hne⟩ => ⟨hline, htight.trim_eq, hne⟩⟩

theorem IsPhrase.trim_eq {text : List Char} (h : IsPhrase text) : trim text = text := h.tight.trim_eq

theorem IsPhrase.append {u v w : List Char} (hu : IsPhrase u) (hw : '\n' ∉ w) (hv : IsPhrase v) :
    IsPhrase (u ++ (w ++ v)) where
  line := by simpa using ⟨hu.line, hw, hv.line⟩
  tight := hu.tight.append hv.tight hu.ne_nil hv.ne_nil w
  ne_nil := by simp [hu.ne_nil]

/-! ### Line by line -/

@[simp] theorem inkLines_nil : inkLines [] = [] := rfl

theorem inkLines_append_cons (l r : List Char) : inkLines (l ++ '\n' :: r) = inkLines l ++ inkLines r := by
  unfold inkLines
  rw [splitOn_append, List.map_append, List.filter_append]

theorem inkLines_line {l : List Char} (h : '\n' ∉ l) :
    inkLines l = if isBlankText l = true then [] else [trim l] := by
  unfold inkLines
  rw [splitOn_of_not_mem h, List.map_singleton]
  split
  · rename_i hblank
    rw [trim_eq_nil_iff.2 hblank]
    rfl
  · rename_i hblank
    rw [List.filter_cons_of_pos (by simpa using mt trim_eq_nil_iff.1 hblank), List.filter_nil]

theorem IsPhrase.inkLines {l : List Char} (h : IsPhrase l) : inkLines l = [l] := by
  rw [inkLines_line h.line, if_neg (by rw [← trim_eq_nil_iff, h.trim_eq]; exact h.ne_nil), h.trim_eq]

theorem inkLines_of_blank {u : List Char} (hu : isBlankText u = true) : inkLines u = [] := by
  induction u using line_induction with
  | line l hl => rw [inkLines_line hl, if_pos hu]
  | cons l r hl ih =>
    obtain ⟨hfirst, hrest⟩ := isBlankText_append_feed.1 hu
    rw [inkLines_append_cons, inkLines_line hl, if_pos hfirst, ih hrest, List.append_nil]

theorem inkLines_blank_append {u : List Char} (hu : isBlankText u = true) (text : List Char) :
    inkLines (u ++ text) = inkLines text := by
  induction u using line_induction with
  | line u hline =>
    -- The blanks join the first line of the text, which they do not change.
    have hfirst {l : List Char} (hl : '\n' ∉ l) : inkLines (u ++ l) = inkLines l := by
      rw [inkLines_line hl, inkLines_line (by simpa using ⟨hline, hl⟩), isBlankText_append, hu, Bool.true_and, trim,
        trimStart_append_of_blank hu, ← trim]
    induction text using line_induction with
    | line l hl => exact hfirst hl
    | cons l r hl => rw [← List.append_assoc, inkLines_append_cons, inkLines_append_cons, hfirst hl]
  | cons l r hl ih =>
    obtain ⟨hfirst, hrest⟩ := isBlankText_append_feed.1 hu
    rw [List.append_assoc, List.cons_append, inkLines_append_cons, inkLines_of_blank hfirst, ih hrest,
      List.nil_append]

theorem inkLines_append_blank (text : List Char) {v : List Char} (hv : isBlankText v = true) :
    inkLines (text ++ v) = inkLines text := by
  induction text using line_induction with
  | line l hl =>
    have hlast {v : List Char} (hline : '\n' ∉ v) (hv : isBlankText v = true) :
        inkLines (l ++ v) = inkLines l := by
      rw [inkLines_line hl, inkLines_line (by simpa using ⟨hl, hline⟩), isBlankText_append, hv, Bool.and_true,
        trim_append_of_blank l hv]
    induction v using line_induction with
    | line v hline => exact hlast hline hv
    | cons v r hline =>
      obtain ⟨hfirst, hrest⟩ := isBlankText_append_feed.1 hv
      rw [← List.append_assoc, inkLines_append_cons, hlast hline hfirst, inkLines_of_blank hrest, List.append_nil]
  | cons l r _ ih => rw [List.append_assoc, List.cons_append, inkLines_append_cons, inkLines_append_cons, ih]

/-- Nothing that can be seen is lost. -/
theorem ink_inkLines (text : List Char) : (inkLines text).flatMap ink = ink text := by
  have hfirst {l : List Char} (hl : '\n' ∉ l) : (inkLines l).flatMap ink = ink l := by
    rw [inkLines_line hl]
    split
    · rename_i hblank
      exact (ink_eq_nil_iff.2 hblank).symm
    · rw [List.flatMap_singleton, ink_trim]
  induction text using line_induction with
  | line l hl => exact hfirst hl
  | cons l r hl ih =>
    have hfeed : ink ('\n' :: r) = ink r := ink_cons_of_blank (by decide) r
    rw [inkLines_append_cons, List.flatMap_append, hfirst hl, ih, ink_append, hfeed]

/-! ### Splitting into lines -/

theorem lines_of_line {l : List Char} (h : '\n' ∉ l) (hne : l ≠ []) : lines l = [l] := by
  induction l with
  | nil => exact absurd rfl hne
  | cons c r ih =>
    simp only [List.mem_cons, not_or] at h
    rw [lines]
    · cases r with
      | nil => rfl
      | cons d r => rw [ih h.2 (List.cons_ne_nil _ _)]
    · exact fun hc => h.1 hc.symm
    · rintro r' - rfl
      exact h.2 List.mem_cons_self

/-- The line without the carriage return that belongs to its break. -/
def withoutReturn (l : List Char) : List Char := if l.getLast? = some '\r' then l.dropLast else l

theorem withoutReturn_cons (c : Char) {l : List Char} (hne : l ≠ []) :
    withoutReturn (c :: l) = c :: withoutReturn l := by
  rw [withoutReturn, withoutReturn, List.getLast?_cons_of_ne_nil hne, List.dropLast_cons_of_ne_nil hne]
  split <;> rfl

theorem lines_append_feed {l : List Char} (h : '\n' ∉ l) (r : List Char) :
    lines (l ++ '\n' :: r) = withoutReturn l :: lines r := by
  induction l with
  | nil => rfl
  | cons c l ih =>
    rw [List.mem_cons, not_or] at h
    by_cases hne : l = []
    · subst hne
      by_cases hreturn : c = '\r'
      · subst hreturn
        rfl
      · have hkept : withoutReturn [c] = [c] := if_neg (by simpa using hreturn)
        rw [hkept, List.singleton_append, lines]
        · rfl
        · exact fun hc => h.1 hc.symm
        · exact fun _ hc => absurd hc hreturn
    · rw [withoutReturn_cons c hne, List.cons_append, lines]
      · rw [ih h.2]
      · exact fun hc => h.1 hc.symm
      · rintro r' rfl hr
        obtain ⟨d, l, rfl⟩ := List.exists_cons_of_ne_nil hne
        obtain ⟨rfl, -⟩ := List.cons.inj hr
        exact h.2 List.mem_cons_self

/-- A line loses at most the carriage return before its break. -/
theorem exists_withoutReturn_append (l : List Char) : ∃ v, l = withoutReturn l ++ v ∧ isBlankText v = true := by
  unfold withoutReturn
  split
  · rename_i hlast
    obtain ⟨u, rfl⟩ := List.getLast?_eq_some_iff.1 hlast
    exact ⟨['\r'], by rw [List.dropLast_concat], rfl⟩
  · exact ⟨[], (List.append_nil l).symm, rfl⟩

theorem feed_not_mem_of_mem_lines {text l : List Char} (h : l ∈ lines text) : '\n' ∉ l := by
  induction text using line_induction with
  | line line hline =>
    by_cases hne : line = []
    · rw [hne] at h
      cases h
    · rw [lines_of_line hline hne, List.mem_singleton] at h
      rwa [h]
  | cons line rest hline ih =>
    rw [lines_append_feed hline] at h
    rcases List.mem_cons.1 h with rfl | h
    · obtain ⟨v, hv, -⟩ := exists_withoutReturn_append line
      rw [hv] at hline
      exact fun hmem => hline (List.mem_append_left v hmem)
    · exact ih h

theorem inkLines_lines (text : List Char) : (lines text).flatMap inkLines = inkLines text := by
  induction text using line_induction with
  | line l hl =>
    by_cases hne : l = []
    · subst hne
      rfl
    · rw [lines_of_line hl hne, List.flatMap_singleton]
  | cons l r hl ih =>
    obtain ⟨v, hv, hblank⟩ := exists_withoutReturn_append l
    rw [lines_append_feed hl, List.flatMap_cons, ih, inkLines_append_cons]
    conv_rhs => rw [hv, inkLines_append_blank _ hblank]

/-! ### Words on one line -/

theorem infix_blank_append {word u text : List Char} (hword : trimStart word = word) (hne : word ≠ [])
    (hu : isBlankText u = true) : word <:+: u ++ text ↔ word <:+: text := by
  induction u with
  | nil => rfl
  | cons c u ih =>
    rw [isBlankText, List.all_cons, Bool.and_eq_true_iff] at hu
    have hstart : ¬ word <+: c :: (u ++ text) := by
      intro hprefix
      obtain ⟨w, ws, rfl⟩ := List.exists_cons_of_ne_nil hne
      obtain ⟨rfl, -⟩ := List.cons_prefix_cons.1 hprefix
      rw [not_isBlank_of_trimStart hword] at hu
      cases hu.1
    rw [List.cons_append, List.infix_cons_iff, ih hu.2, or_iff_right hstart]

/-- The blanks around a text hold nothing of a word. -/
theorem infix_between_blanks {word u text v : List Char} (hword : IsPhrase word) (hu : isBlankText u = true)
    (hv : isBlankText v = true) : word <:+: u ++ (text ++ v) ↔ word <:+: text := by
  have hreverse : trimStart word.reverse = word.reverse :=
    List.reverse_injective (by rw [List.reverse_reverse]; exact hword.tight.last)
  have hblank : isBlankText v.reverse = true := by simpa [isBlankText] using hv
  rw [infix_blank_append hword.tight.first hword.ne_nil hu, ← List.reverse_infix, List.reverse_append,
    infix_blank_append hreverse (by simpa using hword.ne_nil) hblank, List.reverse_infix]

theorem contains_trim {word : List Char} (hword : IsPhrase word) (text : List Char) :
    contains (trim text) word = contains text word := by
  obtain ⟨u, v, htext, hu, hv⟩ := exists_trim_append text
  rw [Bool.eq_iff_iff, contains_iff, contains_iff]
  conv_rhs => rw [htext]
  exact (infix_between_blanks hword hu hv).symm

/-- A word on one line is in the text exactly if it is in one of its lines. -/
theorem contains_iff_inkLines {word : List Char} (hword : IsPhrase word) {text : List Char} :
    contains text word = true ↔ ∃ l ∈ inkLines text, contains l word = true := by
  have hfirst {l : List Char} (hl : '\n' ∉ l) :
      contains l word = true ↔ ∃ m ∈ inkLines l, contains m word = true := by
    rw [inkLines_line hl, ← contains_trim hword]
    split
    · rename_i hblank
      rw [trim_eq_nil_iff.2 hblank]
      simp [contains_iff, hword.ne_nil]
    · simp
  induction text using line_induction with
  | line l hl => exact hfirst hl
  | cons l r hl ih =>
    rw [contains_append_cons hword.line, Bool.or_eq_true, inkLines_append_cons]
    simp only [List.mem_append, or_and_right, exists_or]
    exact or_congr (hfirst hl) ih

/-! ### Back to the text -/

/-- Nothing but blanks stands behind the last line break. -/
def AtLineStart (text : List Char) : Prop :=
  ∃ u, isBlankText u = true ∧ (text = u ∨ ∃ r, text = r ++ '\n' :: u)

/-- Nothing but blanks stands up to the first line break. -/
def AtLineEnd (text : List Char) : Prop :=
  ∃ v, isBlankText v = true ∧ (text = v ∨ ∃ r, text = v ++ '\n' :: r)

theorem AtLineStart.after_feed {text : List Char} (h : AtLineStart text) (l : List Char) :
    AtLineStart (l ++ '\n' :: text) := by
  obtain ⟨u, hu, rfl | ⟨r, rfl⟩⟩ := h
  · exact ⟨text, hu, .inr ⟨l, rfl⟩⟩
  · exact ⟨u, hu, .inr ⟨l ++ '\n' :: r, by simp⟩⟩

/-- Where one of the lines is given, the text is what stands before it, the line, and what stands behind
it. -/
theorem exists_of_inkLines {text l : List Char} {before after : List (List Char)}
    (h : inkLines text = before ++ l :: after) :
    ∃ x y, text = x ++ (l ++ y) ∧ inkLines x = before ∧ inkLines y = after ∧ AtLineStart x ∧ AtLineEnd y := by
  induction text using line_induction generalizing before with
  | line m hm =>
    rw [inkLines_line hm] at h
    split at h
    · cases before <;> cases h
    · obtain ⟨rfl, hrest⟩ | ⟨_, rfl, hrest⟩ := List.cons_eq_append_iff.1 h
      · obtain ⟨rfl, rfl⟩ := List.cons.inj hrest
        obtain ⟨u, v, hparts, hu, hv⟩ := exists_trim_append m
        exact ⟨u, v, hparts, inkLines_of_blank hu, inkLines_of_blank hv, ⟨u, hu, .inl rfl⟩, ⟨v, hv, .inl rfl⟩⟩
      · cases List.append_eq_nil_iff.1 hrest.symm |>.2
  | cons m r hm ih =>
    have hrest {before' : List (List Char)} (hr : inkLines r = before' ++ l :: after) :
        ∃ x y, m ++ '\n' :: r = x ++ (l ++ y) ∧ inkLines x = inkLines m ++ before' ∧ inkLines y = after ∧
          AtLineStart x ∧ AtLineEnd y := by
      obtain ⟨x, y, rfl, rfl, hy, hstarts, hends⟩ := ih hr
      exact ⟨m ++ '\n' :: x, y, by simp, inkLines_append_cons m x, hy, hstarts.after_feed m, hends⟩
    rw [inkLines_append_cons] at h
    by_cases hblank : isBlankText m = true
    · rw [inkLines_of_blank hblank, List.nil_append] at h
      simpa only [inkLines_of_blank hblank, List.nil_append] using hrest h
    · have hline : inkLines m = [trim m] := by rw [inkLines_line hm, if_neg hblank]
      rw [hline, List.singleton_append] at h
      obtain ⟨rfl, hcons⟩ | ⟨before', rfl, hr⟩ := List.cons_eq_append_iff.1 h
      · obtain ⟨rfl, rfl⟩ := List.cons.inj hcons
        obtain ⟨u, v, hparts, hu, hv⟩ := exists_trim_append m
        refine ⟨u, v ++ '\n' :: r, ?_, inkLines_of_blank hu, ?_, ⟨u, hu, .inl rfl⟩, ⟨v, hv, .inr ⟨r, rfl⟩⟩⟩
        · conv_lhs => rw [hparts]
          simp only [List.append_assoc]
        · rw [inkLines_append_cons, inkLines_of_blank hv, List.nil_append]
      · simpa only [hline, List.singleton_append] using hrest hr

/-- A word that none of the lines holds stands for the first time where it is put on a line of its own. -/
theorem firstAfter_of_inkLines {word x : List Char} (hword : IsPhrase word) (hx : AtLineStart x)
    (hnone : ∀ l ∈ inkLines x, contains l word = false) : FirstAfter word x := by
  have hblank {u : List Char} (hu : isBlankText u = true) : FirstAfter word u := by
    refine firstAfter_of_head hword.ne_nil fun c hc hhead => ?_
    obtain ⟨ws, rfl⟩ : ∃ ws, word = c :: ws := ⟨word.tail, (List.cons_head?_tail hhead).symm⟩
    have hfirst : isBlank c = true := List.all_eq_true.1 hu c hc
    rw [not_isBlank_of_trimStart hword.tight.first] at hfirst
    cases hfirst
  have hlacks {l : List Char} (hl : ∀ m ∈ inkLines l, contains m word = false) : contains l word = false := by
    refine Bool.eq_false_iff.2 fun hcontains => ?_
    obtain ⟨m, hm, hin⟩ := (contains_iff_inkLines hword).1 hcontains
    rw [hl m hm] at hin
    cases hin
  obtain ⟨u, hu, rfl | ⟨r, rfl⟩⟩ := hx
  · exact hblank hu
  · rw [inkLines_append_cons, List.forall_mem_append] at hnone
    replace hnone := hnone.1
    induction r using line_induction with
    | line l hl => exact (hblank hu).line hword.line hword.ne_nil (hlacks hnone)
    | cons l r hl ih =>
      rw [inkLines_append_cons, List.forall_mem_append] at hnone
      rw [List.append_assoc, List.cons_append]
      exact (ih hnone.2).line hword.line hword.ne_nil (hlacks hnone.1)

/-! ### A phrase with a text inside -/

theorem IsPhrase.inkLines_append {u a : List Char} (hu : IsPhrase u) (ha : '\n' ∉ a) :
    Text.inkLines (u ++ a) = [u ++ trimEnd a] := by
  have hend : trimEnd (u ++ a) = u ++ trimEnd a := by
    obtain ⟨w, hw, hblank⟩ := exists_append_trimEnd_of_blank a
    conv_lhs => rw [hw, ← List.append_assoc, trimEnd_append_of_blank _ hblank]
    by_cases hempty : trimEnd a = []
    · rw [hempty, List.append_nil, hu.tight.last]
    · exact trimEnd_append u (trimEnd_trimEnd a) hempty
  have htrim : trim (u ++ a) = u ++ trimEnd a := by rw [trim, trimStart_append hu.tight.first hu.ne_nil, hend]
  rw [inkLines_line (by simpa using ⟨hu.line, ha⟩), if_neg, htrim]
  rw [← trim_eq_nil_iff, htrim]
  simp [hu.ne_nil]

theorem IsPhrase.exists_inkLines_append {v : List Char} (hv : IsPhrase v) (text : List Char) :
    ∃ rest z, Text.inkLines (text ++ v) = rest ++ [z ++ v] ∧ rest.flatMap ink ++ ink z = ink text := by
  induction text using line_induction with
  | line l hl =>
    obtain ⟨w, hw, hblank⟩ := exists_trimStart_append l
    have hstart : trimStart (l ++ v) = trimStart l ++ v := by
      conv_lhs => rw [hw, List.append_assoc, trimStart_append_of_blank hblank]
      by_cases hempty : trimStart l = []
      · rw [hempty, List.nil_append, hv.tight.first]
      · exact trimStart_append (List.dropWhile_idempotent isBlank l) hempty v
    have htrim : trim (l ++ v) = trimStart l ++ v := by rw [trim, hstart, trimEnd_append _ hv.tight.last hv.ne_nil]
    refine ⟨[], trimStart l, ?_, ?_⟩
    · rw [inkLines_line (by simpa using ⟨hl, hv.line⟩), if_neg, htrim, List.nil_append]
      rw [← trim_eq_nil_iff, htrim]
      simp [hv.ne_nil]
    · conv_rhs => rw [hw, ink_append, ink_eq_nil_iff.2 hblank]
      rfl
  | cons l r hl ih =>
    obtain ⟨rest, z, hlines, hink⟩ := ih
    refine ⟨Text.inkLines l ++ rest, z, ?_, ?_⟩
    · rw [List.append_assoc, List.cons_append, inkLines_append_cons, hlines, List.append_assoc]
    · have hfeed : ink ('\n' :: r) = ink r := ink_cons_of_blank (by decide) r
      rw [List.flatMap_append, List.append_assoc, hink, ink_inkLines, ink_append, hfeed]

/-- A phrase that begins and ends on a line and whose middle may go on for several lines: where its lines
are given, it stands in the text with the same ink in the middle, and with the same middle if that is on
one line. -/
theorem exists_phrase_of_inkLines {text u p v : List Char} {before after : List (List Char)} (hu : IsPhrase u)
    (hv : IsPhrase v) (h : inkLines text = before ++ (inkLines (u ++ (p ++ v)) ++ after)) :
    ∃ x p' y, text = x ++ (u ++ (p' ++ (v ++ y))) ∧ ink p' = ink p ∧ ('\n' ∉ p → p' = p) ∧
      inkLines x = before ∧ inkLines y = after ∧ AtLineStart x ∧ AtLineEnd y := by
  by_cases hp : '\n' ∈ p
  · obtain ⟨a, q, rfl, ha⟩ := List.eq_append_cons_of_mem hp
    obtain ⟨rest, z, hrest, hink⟩ := hv.exists_inkLines_append q
    have hlines : inkLines (u ++ (a ++ '\n' :: q ++ v)) = (u ++ trimEnd a) :: (rest ++ [z ++ v]) := by
      rw [List.append_assoc, List.cons_append, ← List.append_assoc, inkLines_append_cons, hrest,
        hu.inkLines_append ha, List.singleton_append]
    rw [hlines, List.cons_append] at h
    obtain ⟨x, y₁, rfl, hx, hy₁, hstarts, -⟩ := exists_of_inkLines h
    rw [List.append_assoc, List.singleton_append] at hy₁
    obtain ⟨x₂, y, rfl, hx₂, hy, -, hends⟩ := exists_of_inkLines hy₁
    refine ⟨x, trimEnd a ++ (x₂ ++ z), y, by simp, ?_, fun hno => absurd hp hno, hx, hy, hstarts, hends⟩
    have hfeed : ink ('\n' :: q) = ink q := ink_cons_of_blank (by decide) q
    rw [ink_append, ink_append, ink_trimEnd, ink_append, hfeed, ← hink, ← hx₂, ink_inkLines]
  · rw [(hu.append hp hv).inkLines, List.singleton_append] at h
    obtain ⟨x, y, rfl, hx, hy, hstarts, hends⟩ := exists_of_inkLines h
    exact ⟨x, p, y, by simp, rfl, fun _ => rfl, hx, hy, hstarts, hends⟩

end Recast.Text
