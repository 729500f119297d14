import Mathlib.Data.Bool.AllAny
import Recast.Artifact.Style
import Recast.Proofs.Pattern.Mentions

/-!
# Words in style classes

Replacing style classes brings no word of an idiom into a list of classes: such a word holds
a dot, no new class does, and the old classes are cut at hyphens and blanks only.
-/

namespace Recast.Modernize

open Text Pattern Unicode

/-- The word of an idiom: it holds a dot, and nothing but word characters, dots and opening
brackets. -/
structure Idiom (w : List Char) : Prop where
  dot : '.' ∈ w
  chars : ∀ c ∈ w, isWordChar c = true ∨ c = '.' ∨ c = '('

theorem idiom_of_all {w : List Char} (hdot : '.' ∈ w)
    (h : (w.all fun c => decide (isWordChar c = true ∨ c = '.' ∨ c = '(')) = true) : Idiom w :=
  ⟨hdot, List.all_iff_forall_prop.1 h⟩

theorem Idiom.ne_nil {w : List Char} (hw : Idiom w) : w ≠ [] := List.ne_nil_of_mem hw.dot

theorem Idiom.not_mem {w : List Char} (hw : Idiom w) {c : Char} (hc : isWordChar c = false)
    (hd : c ≠ '.') (ho : c ≠ '(') : c ∉ w := by
  intro hmem
  rcases hw.chars c hmem with h | h | h
  · rw [hc] at h
    cases h
  · exact hd h
  · exact ho h

theorem Idiom.not_mem_blank {w : List Char} (hw : Idiom w) {c : Char} (hc : isBlank c = true) :
    c ∉ w := by
  refine hw.not_mem (not_isWordChar_of_blank hc) ?_ ?_ <;> rintro rfl <;> cases hc

theorem head_of_splitWhen {p : Char → Bool} {text piece : List Char} {pieces : List (List Char)}
    (h : splitWhen p text = piece :: pieces) : ∃ b, text = piece ++ b := by
  induction text generalizing piece pieces with
  | nil =>
    cases h
    exact ⟨[], rfl⟩
  | cons c r ih =>
    rw [splitWhen] at h
    split at h
    · cases h
      exact ⟨c :: r, rfl⟩
    · cases hr : splitWhen p r with
      | nil =>
        rw [hr] at h
        cases h
        exact ⟨r, rfl⟩
      | cons first rest =>
        rw [hr] at h
        cases h
        obtain ⟨b, hb⟩ := ih hr
        exact ⟨b, congrArg (c :: ·) hb⟩

theorem behind_of_mem_tail {p : Char → Bool} {text piece : List Char}
    (h : piece ∈ (splitWhen p text).tail) :
    ∃ a c b, p c = true ∧ text = a ++ c :: (piece ++ b) := by
  induction text with
  | nil => cases h
  | cons c r ih =>
    rw [splitWhen] at h
    split at h
    · rename_i hc
      cases hr : splitWhen p r with
      | nil =>
        rw [hr] at h
        cases h
      | cons first rest =>
        rw [hr, List.tail_cons] at h
        rcases List.mem_cons.1 h with rfl | hrest
        · obtain ⟨b, hb⟩ := head_of_splitWhen hr
          exact ⟨[], c, b, hc, congrArg (c :: ·) hb⟩
        · obtain ⟨a, d, b, hd, hb⟩ := ih (by rwa [hr])
          exact ⟨c :: a, d, b, hd, congrArg (c :: ·) hb⟩
    · cases hr : splitWhen p r with
      | nil =>
        rw [hr] at h
        cases h
      | cons first rest =>
        rw [hr, List.tail_cons] at h
        obtain ⟨a, d, b, hd, hb⟩ := ih (by rwa [hr])
        exact ⟨c :: a, d, b, hd, congrArg (c :: ·) hb⟩

theorem mentions_of_piece {w : List Char} {p : Char → Bool}
    (hp : ∀ c, p c = true → isWordChar c = false)
    {piece text : List Char} (hpiece : piece ∈ splitWhen p text) (h : Mentions w none piece) :
    Mentions w none text := by
  cases hs : splitWhen p text with
  | nil =>
    rw [hs] at hpiece
    cases hpiece
  | cons first rest =>
    rw [hs] at hpiece
    rcases List.mem_cons.1 hpiece with rfl | hrest
    · obtain ⟨b, rfl⟩ := head_of_splitWhen hs
      exact h.within [] b
    · have htail : piece ∈ (splitWhen p text).tail := by rwa [hs]
      obtain ⟨a, c, b, hc, rfl⟩ := behind_of_mem_tail htail
      have hbehind : Mentions w ((a ++ [c]).getLast?.or none) piece := by
        rw [List.getLast?_concat]
        exact mentions_congr (q := none) (hp c hc).symm h
      simpa using hbehind.within (a ++ [c]) b

theorem exists_piece_of_mentions {w : List Char} {c : Char} (hw : w ≠ []) (hc : c ∉ w)
    (hword : isWordChar c = false) {pieces : List (List Char)} {prev : Option Char}
    (hprev : inWord prev = false) (h : Mentions w prev (joinWith [c] pieces)) :
    ∃ piece ∈ pieces, Mentions w none piece := by
  induction pieces generalizing prev with
  | nil =>
    obtain ⟨a, b, htext, -⟩ := h
    exact absurd (List.append_eq_nil_iff.1 (List.append_eq_nil_iff.1 htext.symm).2).1 hw
  | cons l ls ih =>
    cases ls with
    | nil => exact ⟨l, List.mem_singleton_self l, mentions_congr hprev h⟩
    | cons m ls =>
      have h : Mentions w prev (l ++ c :: joinWith [c] (m :: ls)) := by
        rwa [List.append_cons]
      rcases mentions_append_cons hw hc h with h | h
      · exact ⟨l, List.mem_cons_self, mentions_congr hprev h⟩
      · obtain ⟨piece, hpiece, h⟩ := @ih (some c) hword h
        exact ⟨piece, List.mem_cons_of_mem l hpiece, h⟩

theorem mem_of_mem_addClasses {x : List Char} {seen new : List (List Char)}
    (h : x ∈ Style.addClasses seen new) :
    x ∈ seen ∨ x ∈ new := by
  unfold Style.addClasses at h
  induction new generalizing seen with
  | nil => exact .inl h
  | cons c new ih =>
    rw [List.foldl_cons] at h
    rcases ih h with hseen | hnew
    · split at hseen
      · exact .inl hseen
      · rcases List.mem_append.1 hseen with hseen | hc
        · exact .inl hseen
        · exact .inr (List.mem_singleton.1 hc ▸ List.mem_cons_self)
    · exact .inr (List.mem_cons_of_mem c hnew)

theorem mem_of_replaceSegment {color shade x : List Char} {segments segments' : List (List Char)}
    (h : Style.replaceSegment color shade segments = some segments') (hx : x ∈ segments') :
    x = shade ∨ x ∈ segments := by
  induction segments generalizing segments' with
  | nil => cases h
  | cons s ss ih =>
    rw [Style.replaceSegment] at h
    split at h
    · cases h
      rcases List.mem_cons.1 hx with rfl | hx
      · exact .inl rfl
      · exact .inr (List.mem_cons_of_mem s hx)
    · obtain ⟨rest, hrest, rfl⟩ := Option.map_eq_some_iff.1 h
      rcases List.mem_cons.1 hx with rfl | hx
      · exact .inr List.mem_cons_self
      · exact (ih hrest hx).imp_right (List.mem_cons_of_mem s)

theorem mentions_of_mapPalette {w token : List Char} (hw : Idiom w)
    (h : Mentions w none (Style.mapPalette token)) :
    Mentions w none token := by
  have hhyphen : '-' ∉ w := hw.not_mem (by decide) (by decide) (by decide)
  unfold Style.mapPalette at h
  split at h
  · exact h
  · rename_i first rest hsplit
    split at h
    · exact h
    split at h
    · rename_i rest' hrest'
      obtain ⟨⟨color, shade⟩, hmem, hsegment⟩ := List.exists_of_findSome?_eq_some hrest'
      obtain ⟨piece, hpiece, h⟩ := exists_piece_of_mentions hw.ne_nil hhyphen (by decide) rfl h
      have hplain : ∀ e ∈ Style.palette, '.' ∉ e.2.toList := by decide
      have hold : piece = shade.toList ∨ piece ∈ splitOn '-' token := by
        rw [hsplit]
        rcases List.mem_cons.1 hpiece with rfl | hpiece
        · exact .inr List.mem_cons_self
        · exact (mem_of_replaceSegment hsegment hpiece).imp_right (List.mem_cons_of_mem first)
      rcases hold with rfl | hold
      · exact absurd h (not_mentions_of_mem hw.dot (hplain _ hmem))
      · refine mentions_of_piece ?_ hold h
        intro c hc
        rw [beq_iff_eq] at hc
        subst hc
        decide
    · exact h

/-- A fold whose steps keep what was found, or take the element at hand, finds an element. -/
theorem mem_of_foldl_eq_some {α : Type} {step : Option α → α → Option α}
    (hstep : ∀ acc c x, step acc c = some x → acc = some x ∨ c = x) {l : List α} {acc : Option α}
    {x : α} (h : l.foldl step acc = some x) :
    acc = some x ∨ x ∈ l := by
  induction l generalizing acc with
  | nil => exact .inl h
  | cons c l ih =>
    rcases ih h with hacc | hmem
    · rcases hstep acc c x hacc with hacc | rfl
      · exact .inl hacc
      · exact .inr List.mem_cons_self
    · exact .inr (List.mem_cons_of_mem c hmem)

/-- A utility comes from an entry of the table. -/
theorem exists_utility {token new : List Char} (h : Style.longestUtility? token = some new) :
    ∃ e ∈ Style.utilities, Style.utilityFor? token e = some new := by
  unfold Style.longestUtility? at h
  obtain ⟨b, hb, rfl⟩ := Option.map_eq_some_iff.1 h
  have hfound := mem_of_foldl_eq_some (fun acc c x hacc => ?_) hb
  · rcases hfound with hnone | hmem
    · cases hnone
    · obtain ⟨e, he, hfound⟩ := List.mem_filterMap.1 hmem
      obtain ⟨new, hnew, rfl⟩ := Option.map_eq_some_iff.1 hfound
      exact ⟨e, he, hnew⟩
  · split at hacc
    · split at hacc
      · exact .inr (Option.some.inj hacc)
      · exact .inl hacc
    · exact .inr (Option.some.inj hacc)

theorem mentions_of_utility {w token new : List Char} (hw : Idiom w) {e : String × String}
    (he : e ∈ Style.utilities) (hnew : Style.utilityFor? token e = some new)
    (h : Mentions w none new) :
    Mentions w none token := by
  have hplain : ∀ e ∈ Style.utilities, '.' ∉ e.2.toList ∧
      (e.1.toList.getLast? = some '-' → e.2.toList.getLast? = some '-') := by decide
  obtain ⟨hdot, hends⟩ := hplain e he
  unfold Style.utilityFor? at hnew
  simp only at hnew
  split at hnew
  · rename_i hlast
    rw [beq_iff_eq] at hlast
    obtain ⟨rest, hrest, rfl⟩ := Option.map_eq_some_iff.1 hnew
    rw [dropPrefix?_eq_some_iff] at hrest
    subst hrest
    obtain ⟨start, hstart⟩ := List.getLast?_eq_some_iff.1 (hends hlast)
    rw [hstart, List.append_assoc] at h
    rw [hstart] at hdot
    rcases mentions_append_cons hw.ne_nil (hw.not_mem (by decide) (by decide) (by decide)) h with h | h
    · exact absurd h (not_mentions_of_mem hw.dot fun hmem => hdot (List.mem_append_left _ hmem))
    · have hbehind : Mentions w (e.1.toList.getLast?.or none) rest := by rwa [hlast]
      simpa using hbehind.within e.1.toList []
  · split at hnew
    · cases hnew
      exact absurd h (not_mentions_of_mem hw.dot hdot)
    · cases hnew

theorem dot_not_mem_spacing {token new : List Char} (h : Style.spacing? token = some new) :
    '.' ∉ new := by
  have hsize {size : Char} (hs : Style.isSpacingSize size = true) : '.' ∉ Style.spacingSize size := by
    unfold Style.spacingSize
    split
    · decide
    · decide
    · decide
    · rw [List.mem_singleton]
      rintro rfl
      cases hs
  have hkind {kind : Char} (hk : (kind == 'm' || kind == 'p') = true) : '.' ≠ kind := by
    rintro rfl
    cases hk
  unfold Style.spacing? at h
  split at h
  · split at h
    · rename_i kind size hfits
      rw [Bool.and_eq_true] at hfits
      cases h
      simp [hkind hfits.1, hsize hfits.2]
    · cases h
  · split at h
    · rename_i kind side size hfits
      rw [Bool.and_eq_true, Bool.and_eq_true] at hfits
      have hsides : ∀ side ∈ "tbsexy".toList, '.' ≠ Style.spacingSide side :=
        List.all_iff_forall_prop.1 (by decide)
      have hside := hsides side (by simpa using hfits.1.2)
      cases h
      simp [hkind hfits.1.1, hsize hfits.2, hside]
    · cases h
  · cases h

theorem mentions_of_mapUtility {w token : List Char} (hw : Idiom w)
    (h : Mentions w none (Style.mapUtility token)) :
    Mentions w none token := by
  unfold Style.mapUtility at h
  cases hl : Style.longestUtility? token with
  | some new =>
    obtain ⟨e, he, hnew⟩ := exists_utility hl
    rw [hl] at h
    exact mentions_of_utility hw he hnew h
  | none =>
    cases hs : Style.spacing? token with
    | some new =>
      rw [hl, hs] at h
      exact absurd h (not_mentions_of_mem hw.dot (dot_not_mem_spacing hs))
    | none =>
      rwa [hl, hs] at h

/-- Mapping the classes of a list brings no idiom into it. -/
theorem mentions_of_mapList {w classes : List Char} (hw : Idiom w)
    (h : Mentions w none (Style.mapList classes)) :
    Mentions w none classes := by
  have hblank {c : Char} : isBlank c = true → isWordChar c = false := not_isWordChar_of_blank
  obtain ⟨piece, hpiece, h⟩ := exists_piece_of_mentions hw.ne_nil (hw.not_mem_blank (c := ' ') (by decide))
    (by decide) rfl h
  rcases mem_of_mem_addClasses hpiece with hnil | hpiece
  · cases hnil
  obtain ⟨token, htoken, hpiece⟩ := List.mem_flatMap.1 hpiece
  have h := mentions_of_piece (fun _ => hblank) ((List.mem_filter.1 hpiece).1) h
  have h := mentions_of_mapPalette hw (mentions_of_mapUtility hw h)
  exact mentions_of_piece (fun _ => hblank) ((List.mem_filter.1 htoken).1) h

end Recast.Modernize
