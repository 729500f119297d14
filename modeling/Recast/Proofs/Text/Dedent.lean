import Mathlib.Data.List.Forall2
import Recast.Proofs.Text.InkLines

/-!
# Dedenting and indenting

Dedenting deletes blanks and nothing else: the characters that are not blank stay, in their order
(`ink_dedent`). So nothing is left of a text exactly if it is blank.

What dedenting makes of a text is laid out in a normal form: no line shares its indentation with all others,
none ends in a blank, and no blank line stands around it. Indenting moves such a text as a whole, so dedenting
brings it back (`dedent_indent`). Of the lines that are not blank each keeps its place and its indentation
against the others.
-/

namespace Recast.Text

/-! ### Blanks that are deleted -/

/-- Only blank lines stand around what is kept. -/
theorem exists_trimBlankLines_append (ls : List (List Char)) :
    ∃ u v, ls = u ++ (trimBlankLines ls ++ v) ∧ (∀ l ∈ u, isBlankText l = true) ∧
      ∀ l ∈ v, isBlankText l = true := by
  have hblank (ls : List (List Char)) : ∀ l ∈ ls.takeWhile isBlankText, isBlankText l = true :=
    fun _ hl => List.mem_takeWhile_imp hl
  have hend : trimBlankLines ls ++ ((ls.dropWhile isBlankText).reverse.takeWhile isBlankText).reverse =
      ls.dropWhile isBlankText := by
    unfold trimBlankLines
    rw [← List.reverse_append, List.takeWhile_append_dropWhile, List.reverse_reverse]
  refine ⟨ls.takeWhile isBlankText, ((ls.dropWhile isBlankText).reverse.takeWhile isBlankText).reverse, ?_,
    hblank ls, fun l hl => hblank _ l (List.mem_reverse.1 hl)⟩
  rw [hend, List.takeWhile_append_dropWhile]

theorem ink_trimBlankLines (ls : List (List Char)) : (trimBlankLines ls).flatMap ink = ls.flatMap ink := by
  obtain ⟨u, v, hls, hu, hv⟩ := exists_trimBlankLines_append ls
  conv_rhs => rw [hls]
  rw [List.flatMap_append, List.flatMap_append, flatMap_ink_of_blank hu, flatMap_ink_of_blank hv,
    List.nil_append, List.append_nil]

theorem margin_le_indentation {ls : List (List Char)} {l : List Char} (hl : l ∈ ls)
    (hblank : isBlankText l = false) : margin ls ≤ indentation l := by
  have hmem : indentation l ∈ (ls.filter (!isBlankText ·)).map indentation :=
    List.mem_map_of_mem (List.mem_filter.2 ⟨hl, by simp [hblank]⟩)
  unfold margin
  cases hmin : ((ls.filter (!isBlankText ·)).map indentation).min? with
  | none => exact Nat.zero_le _
  | some n => exact (List.min?_eq_some_iff.1 hmin).2 _ hmem

/-- Spaces and tabs only. -/
def IsMargin (u : List Char) : Prop := ∀ c ∈ u, c = ' ' ∨ c = '\t'

theorem isMargin_take {n : Nat} {l : List Char} (h : n ≤ indentation l) : IsMargin (l.take n) := by
  have htake : l.take n <+: l.takeWhile fun c => c == ' ' || c == '\t' :=
    List.prefix_of_prefix_length_le (List.take_prefix n l) (List.takeWhile_prefix _)
      ((List.length_take_le n l).trans h)
  intro c hc
  simpa using List.mem_takeWhile_imp (htake.subset hc)

theorem isBlankText_of_isMargin {u : List Char} (hu : IsMargin u) : isBlankText u = true := by
  refine List.all_eq_true.2 fun c hc => ?_
  rcases hu c hc with rfl | rfl <;> rfl

/-- Of a line no more is cut than blanks. -/
theorem ink_dedentLine {n : Nat} {line : List Char} (h : isBlankText line = false → n ≤ indentation line) :
    ink (dedentLine n line) = ink line := by
  unfold dedentLine
  split
  · rename_i hblank
    rw [ink_eq_nil_iff.2 hblank, ink_nil]
  · rename_i hblank
    have htake := isBlankText_of_isMargin (isMargin_take (h (Bool.eq_false_iff.2 hblank)))
    conv_rhs => rw [← List.take_append_drop n line]
    rw [ink_trimEnd, ink_append, ink_eq_nil_iff.2 htake, List.nil_append]

theorem ink_dedent (text : List Char) : ink (dedent text) = ink text := by
  have hline : ∀ l ∈ trimBlankLines (lines text),
      ink (dedentLine (margin (trimBlankLines (lines text))) l) = ink l := fun l hl =>
    ink_dedentLine (margin_le_indentation hl)
  unfold dedent
  rw [ink_joinLines, List.flatMap_map, List.flatMap_congr hline, ink_trimBlankLines, ink_lines]

/-- Nothing is left of a blank text, and only of such a text. -/
theorem dedent_eq_nil_iff {text : List Char} : dedent text = [] ↔ isBlankText text = true := by
  constructor
  · intro h
    rw [← ink_eq_nil_iff, ← ink_dedent, h, ink_nil]
  · intro h
    have hlines : ∀ l ∈ lines text, isBlankText l = true := by
      have hink := ink_lines text
      rw [ink_eq_nil_iff.2 h, List.flatMap_eq_nil_iff] at hink
      exact fun l hl => ink_eq_nil_iff.1 (hink l hl)
    have hnone : trimBlankLines (lines text) = [] := by
      unfold trimBlankLines
      rw [List.dropWhile_eq_nil_iff.2 hlines]
      rfl
    unfold dedent
    rw [hnone]
    rfl

theorem isBlankText_dedent (text : List Char) : isBlankText (dedent text) = isBlankText text := by
  rw [Bool.eq_iff_iff, ← ink_eq_nil_iff, ink_dedent, ink_eq_nil_iff]

/-! ### Lines of a joined text -/

theorem lines_joinLines {ls : List (List Char)} (hfeed : ∀ l ∈ ls, '\n' ∉ l)
    (hreturn : ∀ l ∈ ls, withoutReturn l = l) (hlast : ls.getLast? ≠ some []) : lines (joinLines ls) = ls := by
  unfold joinLines
  induction ls with
  | nil => rfl
  | cons l ls ih =>
    obtain ⟨hl, hls⟩ := List.forall_mem_cons.1 hfeed
    obtain ⟨hl', hls'⟩ := List.forall_mem_cons.1 hreturn
    cases ls with
    | nil => exact lines_of_line hl fun hnil => hlast (congrArg some hnil)
    | cons m ms =>
      rw [joinWith_cons_cons, List.append_assoc, List.singleton_append, lines_append_feed hl, hl',
        ih hls hls' (by rwa [List.getLast?_cons_cons] at hlast)]

theorem trimEnd_of_blank {l : List Char} (h : isBlankText l = true) : trimEnd l = [] := by
  have hend := trimEnd_append_of_blank [] h
  rwa [List.nil_append] at hend

theorem withoutReturn_of_trimEnd {l : List Char} (h : trimEnd l = l) : withoutReturn l = l := by
  refine if_neg fun hlast => ?_
  obtain ⟨u, rfl⟩ := List.getLast?_eq_some_iff.1 hlast
  have hle := length_trimEnd_le u
  rw [trimEnd_append_of_blank u (by decide)] at h
  rw [h, List.length_append] at hle
  exact absurd hle (by simp)

/-! ### Blank lines around a text -/

theorem trimBlankLines_sublist (ls : List (List Char)) : (trimBlankLines ls).Sublist ls :=
  (List.rdropWhile_prefix isBlankText _).sublist.trans (List.dropWhile_sublist isBlankText)

/-- No blank line stands at either end. -/
structure IsTrimmed (ls : List (List Char)) : Prop where
  first : ∀ l, ls.head? = some l → isBlankText l = false
  last : ∀ l, ls.getLast? = some l → isBlankText l = false

theorem isTrimmed_trimBlankLines (ls : List (List Char)) : IsTrimmed (trimBlankLines ls) where
  first := by
    intro l h
    have hnot := List.head?_dropWhile_not isBlankText ls
    have hprefix : trimBlankLines ls <+: ls.dropWhile isBlankText := List.rdropWhile_prefix isBlankText _
    obtain ⟨r, hr⟩ := List.head?_eq_some_iff.1 h
    obtain ⟨v, hv⟩ := hprefix
    rw [hr, List.cons_append] at hv
    rwa [← hv] at hnot
  last := by
    intro l h
    have hnot := List.head?_dropWhile_not isBlankText (ls.dropWhile isBlankText).reverse
    rw [trimBlankLines, List.getLast?_reverse] at h
    rwa [h] at hnot

namespace IsTrimmed

variable {ls : List (List Char)} (h : IsTrimmed ls)

include h

theorem trimBlankLines_eq : trimBlankLines ls = ls := by
  have hkeep {ms : List (List Char)} (h : ∀ l, ms.head? = some l → isBlankText l = false) :
      ms.dropWhile isBlankText = ms := by
    cases ms with
    | nil => rfl
    | cons m ms => exact List.dropWhile_cons_of_neg (by simp [h m rfl])
  unfold trimBlankLines
  rw [hkeep h.first, hkeep (by simpa using h.last), List.reverse_reverse]

theorem map {f : List Char → List Char} (hf : ∀ l ∈ ls, isBlankText (f l) = isBlankText l) : IsTrimmed (ls.map f) where
  first := by
    rw [List.head?_map]
    intro _ hfl
    obtain ⟨l, hl, rfl⟩ := Option.map_eq_some_iff.1 hfl
    rw [hf l (List.mem_of_head? hl), h.first l hl]
  last := by
    rw [List.getLast?_map]
    intro _ hfl
    obtain ⟨l, hl, rfl⟩ := Option.map_eq_some_iff.1 hfl
    rw [hf l (List.mem_of_getLast? hl), h.last l hl]

end IsTrimmed

/-! ### Margins -/

theorem indentation_append {u : List Char} (hu : IsMargin u) (l : List Char) :
    indentation (u ++ l) = u.length + indentation l := by
  unfold indentation
  rw [List.takeWhile_append_of_pos (by simpa [IsMargin] using hu), List.length_append]

theorem indentation_le_length (l : List Char) : indentation l ≤ l.length :=
  (List.takeWhile_prefix _).length_le

theorem indentation_drop {n : Nat} {l : List Char} (h : n ≤ indentation l) :
    indentation l = n + indentation (l.drop n) := by
  conv_lhs => rw [← List.take_append_drop n l]
  rw [indentation_append (isMargin_take h), List.length_take, Nat.min_eq_left (h.trans (indentation_le_length l))]

theorem indentation_trimEnd {l : List Char} (h : isBlankText l = false) : indentation (trimEnd l) = indentation l := by
  obtain ⟨v, hv, hblank⟩ := exists_append_trimEnd_of_blank l
  have hink : ¬ IsMargin (trimEnd l) := by
    intro hmargin
    rw [hv, isBlankText_append, isBlankText_of_isMargin hmargin, hblank] at h
    cases h
  unfold indentation
  conv_rhs => rw [hv, List.takeWhile_append]
  rw [if_neg]
  intro hall
  refine hink fun c hc => ?_
  rw [← (List.takeWhile_prefix _).eq_of_length hall] at hc
  simpa using List.mem_takeWhile_imp hc

theorem exists_indentation_eq_margin {ls : List (List Char)} {l : List Char} (hl : l ∈ ls)
    (hink : isBlankText l = false) : ∃ m ∈ ls, isBlankText m = false ∧ indentation m = margin ls := by
  have hne : (ls.filter (!isBlankText ·)).map indentation ≠ [] := by
    simpa using ⟨l, hl, hink⟩
  obtain ⟨n, hn⟩ := Option.isSome_iff_exists.1 (List.isSome_min?_of_ne_nil hne)
  obtain ⟨m, hm, hmn⟩ := List.mem_map.1 (List.min?_mem hn)
  refine ⟨m, (List.mem_filter.1 hm).1, by simpa using (List.mem_filter.1 hm).2, ?_⟩
  rw [margin, hn, hmn]
  rfl

theorem margin_eq {ls : List (List Char)} {n : Nat} {l : List Char} (hl : l ∈ ls) (hink : isBlankText l = false)
    (hn : indentation l = n) (hle : ∀ m ∈ ls, isBlankText m = false → n ≤ indentation m) : margin ls = n := by
  obtain ⟨m, hm, hmink, hmargin⟩ := exists_indentation_eq_margin hl hink
  exact Nat.le_antisymm (hn ▸ margin_le_indentation hl hink) (hmargin ▸ hle m hm hmink)

theorem margin_eq_zero_of_blank {ls : List (List Char)} (h : ∀ l ∈ ls, isBlankText l = true) : margin ls = 0 := by
  have hnone : ls.filter (!isBlankText ·) = [] := by simpa using h
  rw [margin, hnone]
  rfl

/-! ### The normal form -/

/-- The lines of a dedented text. -/
structure IsDedented (ls : List (List Char)) : Prop where
  feed : ∀ l ∈ ls, '\n' ∉ l
  tight : ∀ l ∈ ls, trimEnd l = l
  trimmed : IsTrimmed ls
  margin : margin ls = 0

theorem IsDedented.eq_nil {ls : List (List Char)} (h : IsDedented ls) {l : List Char} (hl : l ∈ ls)
    (hblank : isBlankText l = true) : l = [] := by
  have hend := trimEnd_of_blank hblank
  rwa [h.tight l hl] at hend

theorem IsDedented.lines_joinLines {ls : List (List Char)} (h : IsDedented ls) : lines (joinLines ls) = ls := by
  refine Text.lines_joinLines h.feed (fun l hl => withoutReturn_of_trimEnd (h.tight l hl)) fun hlast => ?_
  cases h.trimmed.last [] hlast

section

variable {ls : List (List Char)} {n : Nat}

/-- Of a line that is not blank the margin goes, and the blanks at its end. -/
theorem dedentLine_of_ink {l : List Char} (hink : isBlankText l = false) : dedentLine n l = trimEnd (l.drop n) := by
  rw [dedentLine, if_neg (by simp [hink])]

theorem isBlankText_dedentLine (h : ∀ l ∈ ls, isBlankText l = false → n ≤ indentation l) {l : List Char}
    (hl : l ∈ ls) : isBlankText (dedentLine n l) = isBlankText l := by
  rw [Bool.eq_iff_iff, ← ink_eq_nil_iff, ink_dedentLine (h l hl), ink_eq_nil_iff]

theorem trimEnd_dedentLine (l : List Char) : trimEnd (dedentLine n l) = dedentLine n l := by
  unfold dedentLine
  split
  · rfl
  · exact trimEnd_trimEnd _

theorem indentation_dedentLine {l : List Char} (hink : isBlankText l = false) (hn : n ≤ indentation l) :
    indentation l = n + indentation (dedentLine n l) := by
  have hdrop : isBlankText (l.drop n) = false := by
    have hparts := isBlankText_append (l.take n) (l.drop n)
    rwa [List.take_append_drop, hink, isBlankText_of_isMargin (isMargin_take hn), Bool.true_and, eq_comm] at hparts
  rw [dedentLine_of_ink hink, indentation_trimEnd hdrop]
  exact indentation_drop hn

theorem dedentLine_sublist (l : List Char) : (dedentLine n l).Sublist l := by
  unfold dedentLine
  split
  · exact List.nil_sublist l
  · exact (List.rdropWhile_prefix isBlank (l.drop n)).sublist.trans (List.drop_sublist n l)

theorem byteLength_of_isMargin {u : List Char} (hu : IsMargin u) : byteLength u = u.length := by
  induction u with
  | nil => rfl
  | cons c u ih =>
    obtain ⟨hc, hu⟩ := List.forall_mem_cons.1 hu
    have hsize : c.utf8Size = 1 := by
      rcases hc with rfl | rfl <;> rfl
    rw [byteLength, hsize, ih hu, List.length_cons, Nat.add_comm]

/-- The line from the byte offset `n` on, if a character starts there and nothing but blanks stands before it, and else
the line without the blanks around it. -/
def cutLine (n : Nat) (l : List Char) : List Char :=
  match splitBytes n l with
  | .ok (before, after) => if isBlankText before then trimEnd after else trim l
  | .error _ => trim l

/-- A margin is as long in bytes as in characters, so it is only a blank line that a cut at its end may fail on, or that
has other blanks before the cut. -/
theorem dedentLine_eq_cutLine {l : List Char} (h : isBlankText l = false → n ≤ indentation l) :
    dedentLine n l = cutLine n l := by
  unfold cutLine
  cases hink : isBlankText l with
  | true =>
    have hall : dedentLine n l = [] := if_pos hink
    have htrim : trim l = [] := trim_eq_nil_iff.2 hink
    rw [hall, htrim]
    split
    · rename_i before after hsplit
      rw [← append_of_splitBytes hsplit, isBlankText_append, Bool.and_eq_true] at hink
      rw [trimEnd_of_blank hink.2, ite_self]
    · rfl
  | false =>
    have hmargin := isMargin_take (h hink)
    have hlength : byteLength (l.take n) = n := by
      rw [byteLength_of_isMargin hmargin, List.length_take, Nat.min_eq_left ((h hink).trans (indentation_le_length l))]
    have hsplit := splitBytes_append (l.take n) (l.drop n)
    rw [hlength, List.take_append_drop] at hsplit
    rw [hsplit]
    dsimp only
    rw [if_pos (isBlankText_of_isMargin hmargin), dedentLine_of_ink hink]

/-- Without its margin a text without blank lines around it is in normal form. -/
theorem isDedented_map_dedentLine (hfeed : ∀ l ∈ ls, '\n' ∉ l) (htrimmed : IsTrimmed ls) :
    IsDedented (ls.map (dedentLine (margin ls))) where
  feed := by
    simp only [List.mem_map]
    rintro _ ⟨l, hl, rfl⟩ hmem
    exact hfeed l hl ((dedentLine_sublist l).subset hmem)
  tight := by
    simp only [List.mem_map]
    rintro _ ⟨l, -, rfl⟩
    exact trimEnd_dedentLine l
  trimmed := htrimmed.map fun _ => isBlankText_dedentLine fun _ => margin_le_indentation
  margin := by
    have hblank {l : List Char} (hl : l ∈ ls) := isBlankText_dedentLine (fun _ => margin_le_indentation) hl
    by_cases hink : ∃ l ∈ ls, isBlankText l = false
    · obtain ⟨l, hl, hink⟩ := hink
      obtain ⟨m, hm, hmink, hmargin⟩ := exists_indentation_eq_margin hl hink
      have hshift := indentation_dedentLine hmink hmargin.ge
      exact margin_eq (List.mem_map_of_mem hm) (by rw [hblank hm, hmink]) (by omega) fun _ _ _ => Nat.zero_le _
    · refine margin_eq_zero_of_blank ?_
      simp only [List.mem_map]
      rintro _ ⟨l, hl, rfl⟩
      rw [hblank hl]
      exact eq_true_of_ne_false fun h => hink ⟨l, hl, h⟩

end

theorem dedent_eq (text : List Char) :
    dedent text = joinLines ((trimBlankLines (lines text)).map (dedentLine (margin (trimBlankLines (lines text))))) :=
  rfl

/-- A dedented text is joined from lines in normal form. -/
theorem isDedented_dedent (text : List Char) :
    IsDedented ((trimBlankLines (lines text)).map (dedentLine (margin (trimBlankLines (lines text))))) :=
  isDedented_map_dedentLine
    (fun _ hl => feed_not_mem_of_mem_lines ((trimBlankLines_sublist _).subset hl)) (isTrimmed_trimBlankLines _)

theorem lines_dedent (text : List Char) :
    lines (dedent text) = (trimBlankLines (lines text)).map (dedentLine (margin (trimBlankLines (lines text)))) :=
  (isDedented_dedent text).lines_joinLines

theorem isDedented_lines_dedent (text : List Char) : IsDedented (lines (dedent text)) := by
  rw [lines_dedent]
  exact isDedented_dedent text

theorem joinLines_lines_dedent (text : List Char) : joinLines (lines (dedent text)) = dedent text := by
  rw [lines_dedent, dedent_eq]

/-! ### Moved to the right -/

/-- The line moved right by `n` spaces, unless it is empty. -/
def indentLine (n : Nat) (l : List Char) : List Char := if l.isEmpty then l else List.replicate n ' ' ++ l

theorem indent_eq (n : Nat) (text : List Char) : indent n text = joinLines ((lines text).map (indentLine n)) := rfl

theorem isMargin_replicate (n : Nat) : IsMargin (List.replicate n ' ') :=
  fun _ hc => .inl (List.eq_of_mem_replicate hc)

theorem indentLine_of_ne_nil (n : Nat) {l : List Char} (h : l ≠ []) : indentLine n l = List.replicate n ' ' ++ l := by
  rw [indentLine, if_neg (by simpa using h)]

theorem isBlankText_indentLine (n : Nat) (l : List Char) : isBlankText (indentLine n l) = isBlankText l := by
  unfold indentLine
  split
  · rfl
  · rw [isBlankText_append, isBlankText_of_isMargin (isMargin_replicate n), Bool.true_and]

theorem feed_not_mem_indentLine {n : Nat} {l : List Char} (h : '\n' ∉ l) : '\n' ∉ indentLine n l := by
  unfold indentLine
  split
  · exact h
  · rw [List.mem_append, not_or]
    exact ⟨fun hmem => absurd (List.eq_of_mem_replicate hmem) (by decide), h⟩

theorem trimEnd_indentLine {n : Nat} {l : List Char} (h : trimEnd l = l) : trimEnd (indentLine n l) = indentLine n l := by
  by_cases hne : l = []
  · subst hne
    rfl
  · rw [indentLine_of_ne_nil n hne, trimEnd_append _ h hne]

theorem dedentLine_indentLine {n : Nat} {l : List Char} (h : trimEnd l = l) : dedentLine n (indentLine n l) = l := by
  cases hink : isBlankText l with
  | true =>
    have hend := trimEnd_of_blank hink
    rw [h] at hend
    rw [hend]
    rfl
  | false =>
    have hne : l ≠ [] := by
      rintro rfl
      cases hink
    rw [dedentLine_of_ink (by rw [isBlankText_indentLine, hink]), indentLine_of_ne_nil n hne, List.drop_left' (by simp), h]

namespace IsDedented

variable {ls : List (List Char)} (h : IsDedented ls)

include h

/-- Moved to the right as a whole, the lines share the indentation that they have got, and no more. -/
theorem margin_map_indentLine (hne : ls ≠ []) (n : Nat) : Text.margin (ls.map (indentLine n)) = n := by
  have hindent {l : List Char} (hink : isBlankText l = false) : indentation (indentLine n l) = n + indentation l := by
    rw [indentLine_of_ne_nil n (by rintro rfl; cases hink), indentation_append (isMargin_replicate n),
      List.length_replicate]
  obtain ⟨first, rest, rfl⟩ := List.exists_cons_of_ne_nil hne
  obtain ⟨m, hm, hink, hmargin⟩ := exists_indentation_eq_margin List.mem_cons_self (h.trimmed.first first rfl)
  rw [h.margin] at hmargin
  refine margin_eq (List.mem_map_of_mem hm) (by rw [isBlankText_indentLine, hink]) (by rw [hindent hink, hmargin, Nat.add_zero]) ?_
  simp only [List.mem_map]
  rintro _ ⟨l, -, rfl⟩ hl
  rw [isBlankText_indentLine] at hl
  rw [hindent hl]
  exact Nat.le_add_right n _

theorem lines_map_indentLine (n : Nat) :
    lines (joinLines (ls.map (indentLine n))) = ls.map (indentLine n) := by
  refine Text.lines_joinLines ?_ ?_ ?_
  · simp only [List.mem_map]
    rintro _ ⟨l, hl, rfl⟩
    exact feed_not_mem_indentLine (h.feed l hl)
  · simp only [List.mem_map]
    rintro _ ⟨l, hl, rfl⟩
    exact withoutReturn_of_trimEnd (trimEnd_indentLine (h.tight l hl))
  · rw [List.getLast?_map]
    intro hlast
    obtain ⟨l, hl, hnil⟩ := Option.map_eq_some_iff.1 hlast
    have hink := h.trimmed.last l hl
    rw [← isBlankText_indentLine n, hnil] at hink
    cases hink

theorem dedent_map_indentLine (n : Nat) : dedent (joinLines (ls.map (indentLine n))) = joinLines ls := by
  by_cases hne : ls = []
  · subst hne
    rfl
  have htrim : trimBlankLines (ls.map (indentLine n)) = ls.map (indentLine n) :=
    (h.trimmed.map fun l _ => isBlankText_indentLine n l).trimBlankLines_eq
  have hback : (ls.map (indentLine n)).map (dedentLine n) = ls := by
    rw [List.map_map]
    exact (List.map_congr_left fun l hl => dedentLine_indentLine (h.tight l hl)).trans (List.map_id ls)
  rw [dedent_eq, h.lines_map_indentLine n, htrim, h.margin_map_indentLine hne n, hback]

end IsDedented

theorem dedent_indent (n : Nat) (text : List Char) : dedent (indent n (dedent text)) = dedent text := by
  rw [indent_eq, (isDedented_lines_dedent text).dedent_map_indentLine, joinLines_lines_dedent]

/-- Moving by no space changes nothing. -/
theorem indent_zero_dedent (text : List Char) : indent 0 (dedent text) = dedent text := by
  have hzero : indentLine 0 = id := by
    funext l
    simp [indentLine]
  rw [indent_eq, hzero, List.map_id, joinLines_lines_dedent]

theorem dedent_dedent (text : List Char) : dedent (dedent text) = dedent text := by
  have hindent := dedent_indent 0 text
  rwa [indent_zero_dedent] at hindent

/-! ### What is deleted -/

/-- The second text is the first without some of its blanks. -/
inductive DropsBlanks : List Char → List Char → Prop
  | nil : DropsBlanks [] []
  | keep {u v : List Char} (c : Char) : DropsBlanks u v → DropsBlanks (c :: u) (c :: v)
  | drop {u v : List Char} {c : Char} : isBlank c = true → DropsBlanks u v → DropsBlanks (c :: u) v

theorem dropsBlanks_of_sublist {u v : List Char} (h : v.Sublist u) (hink : ink v = ink u) : DropsBlanks u v := by
  induction h with
  | slnil => exact .nil
  | @cons v u c hsub ih =>
    cases hc : isBlank c with
    | true => exact .drop hc (ih (by rw [hink, ink_cons_of_blank hc]))
    | false =>
      -- The ink of the rest would have to hold one character more than it does.
      have hlength := (hsub.filter (!isBlank ·)).length_le
      have hcons : ink (c :: u) = c :: ink u := List.filter_cons_of_pos (by simp [hc])
      rw [← ink, hink, hcons, List.length_cons] at hlength
      exact absurd hlength (Nat.not_succ_le_self _)
  | @cons_cons v u c _ ih =>
    refine .keep c (ih ?_)
    unfold ink at hink ⊢
    rw [List.filter_cons, List.filter_cons] at hink
    split at hink
    · exact (List.cons.inj hink).2
    · exact hink

theorem joinLines_cons_sublist (l : List Char) {text : List Char} {ls : List (List Char)}
    (h : (joinLines ls).Sublist text) : (joinLines (l :: ls)).Sublist (l ++ '\n' :: text) := by
  cases ls with
  | nil => exact List.sublist_append_left l _
  | cons m ms =>
    show (l ++ ['\n'] ++ joinLines (m :: ms)).Sublist _
    rw [List.append_assoc]
    exact (h.cons_cons '\n').append_left l

theorem joinLines_lines_sublist (text : List Char) : (joinLines (lines text)).Sublist text := by
  have hreturn (l : List Char) : (withoutReturn l).Sublist l := by
    unfold withoutReturn
    split
    · exact List.dropLast_sublist l
    · exact List.Sublist.refl l
  induction text using line_induction with
  | line l hl =>
    by_cases hne : l = []
    · subst hne
      exact List.Sublist.refl _
    · rw [lines_of_line hl hne]
      exact List.Sublist.refl _
  | cons l r hl ih =>
    rw [lines_append_feed hl]
    exact (joinLines_cons_sublist _ ih).trans ((hreturn l).append_right _)

theorem joinLines_sublist {ls ms : List (List Char)} (h : ls.Sublist ms) : (joinLines ls).Sublist (joinLines ms) := by
  induction h with
  | slnil => exact List.Sublist.refl _
  | @cons ls ms l _ ih =>
    refine ih.trans ?_
    cases ms with
    | nil => exact List.nil_sublist _
    | cons m ms =>
      show (joinLines (m :: ms)).Sublist (l ++ ['\n'] ++ joinLines (m :: ms))
      exact List.sublist_append_right _ _
  | @cons_cons ls ms l hsub ih =>
    cases ms with
    | nil =>
      rw [List.sublist_nil.1 hsub]
    | cons m ms =>
      have hms : joinLines (l :: m :: ms) = l ++ '\n' :: joinLines (m :: ms) := List.append_cons .. |>.symm
      rw [hms]
      exact joinLines_cons_sublist l ih

theorem joinLines_map_sublist {f : List Char → List Char} (hf : ∀ l, (f l).Sublist l) (ls : List (List Char)) :
    (joinLines (ls.map f)).Sublist (joinLines ls) := by
  induction ls with
  | nil => exact List.Sublist.refl _
  | cons l ls ih =>
    cases ls with
    | nil => exact hf l
    | cons m ms =>
      show (f l ++ ['\n'] ++ joinLines ((m :: ms).map f)).Sublist (l ++ ['\n'] ++ joinLines (m :: ms))
      exact ((hf l).append_right _).append ih

theorem dedent_sublist (text : List Char) : (dedent text).Sublist text :=
  ((joinLines_map_sublist (fun l => dedentLine_sublist l) _).trans
    (joinLines_sublist (trimBlankLines_sublist _))).trans (joinLines_lines_sublist text)

theorem dropsBlanks_dedent (text : List Char) : DropsBlanks text (dedent text) :=
  dropsBlanks_of_sublist (dedent_sublist text) (ink_dedent text)

/-! ### Line by line -/

/-- The lines that are not blank. -/
def solidLines (text : List Char) : List (List Char) := (lines text).filter (!isBlankText ·)

/-- The line has lost `n` spaces and tabs at its start and blanks at its end, and its indentation is the less
by `n`. -/
def Outdented (n : Nat) (l l' : List Char) : Prop :=
  (∃ u v, l = u ++ (l' ++ v) ∧ u.length = n ∧ IsMargin u ∧ isBlankText v = true) ∧ indentation l = n + indentation l'

theorem outdented_dedentLine {n : Nat} {l : List Char} (hink : isBlankText l = false) (hn : n ≤ indentation l) :
    Outdented n l (dedentLine n l) := by
  refine ⟨?_, indentation_dedentLine hink hn⟩
  obtain ⟨v, hv, hblank⟩ := exists_append_trimEnd_of_blank (l.drop n)
  refine ⟨l.take n, v, ?_, ?_, isMargin_take hn, hblank⟩
  · rw [dedentLine_of_ink hink, ← hv, List.take_append_drop]
  · rw [List.length_take, Nat.min_eq_left (hn.trans (indentation_le_length l))]

theorem filter_trimBlankLines (ls : List (List Char)) :
    (trimBlankLines ls).filter (!isBlankText ·) = ls.filter (!isBlankText ·) := by
  have hnone {us : List (List Char)} (h : ∀ l ∈ us, isBlankText l = true) : us.filter (!isBlankText ·) = [] := by
    simpa using h
  obtain ⟨u, v, hls, hu, hv⟩ := exists_trimBlankLines_append ls
  conv_rhs => rw [hls]
  rw [List.filter_append, List.filter_append, hnone hu, hnone hv, List.nil_append, List.append_nil]

theorem solidLines_dedent (text : List Char) :
    solidLines (dedent text) = (solidLines text).map (dedentLine (margin (trimBlankLines (lines text)))) := by
  unfold solidLines
  rw [lines_dedent, List.filter_map, ← filter_trimBlankLines (lines text)]
  refine congrArg _ (List.filter_congr fun l hl => ?_)
  rw [Function.comp_apply, isBlankText_dedentLine (fun _ => margin_le_indentation) hl]

theorem outdented_dedent (text : List Char) :
    List.Forall₂ (Outdented (margin (trimBlankLines (lines text)))) (solidLines text) (solidLines (dedent text)) := by
  rw [solidLines_dedent, List.forall₂_map_right_iff, List.forall₂_same]
  intro l hl
  rw [solidLines, ← filter_trimBlankLines] at hl
  have hink : isBlankText l = false := by simpa using (List.mem_filter.1 hl).2
  exact outdented_dedentLine hink (margin_le_indentation (List.mem_filter.1 hl).1 hink)

/-- Dedenting cuts every line at the end of the margin. Dedenting a text again changes nothing, and undoes any move to
the right. It deletes blanks only, no line that is not blank is lost, and all these lose the same number of spaces and
tabs at their start, so that nothing is left of the indentation that they share. -/
theorem dedent_normalises (text : List Char) (n : Nat) :
    dedent text = joinLines ((trimBlankLines (lines text)).map (cutLine (margin (trimBlankLines (lines text))))) ∧
      dedent (dedent text) = dedent text ∧ dedent (indent n (dedent text)) = dedent text ∧
      DropsBlanks text (dedent text) ∧ margin (lines (dedent text)) = 0 ∧
      ∃ m, List.Forall₂ (Outdented m) (solidLines text) (solidLines (dedent text)) := by
  refine ⟨?_, dedent_dedent text, dedent_indent n text, dropsBlanks_dedent text, (isDedented_lines_dedent text).margin,
    _, outdented_dedent text⟩
  rw [dedent_eq]
  exact congrArg joinLines (List.map_congr_left fun l hl => dedentLine_eq_cutLine (margin_le_indentation hl))

end Recast.Text
