import Mathlib.Data.List.Infix
import Mathlib.Data.List.TakeWhile
import Recast.Artifact.CodeBuilder
import Recast.Proofs.Artifact.Paths

/-!
# What is written stays written

A builder adds lines and takes back blank ones at most, and of those only what stands since
its level was opened. So the lines before a block remain the first lines, and a line that is
not blank remains a line of the finished text.
-/

namespace Recast

theorem Str.isBlank_append_left {s : String} (h : Str.isBlank s = false) (t : String) :
    Str.isBlank (s ++ t) = false := by
  unfold Str.isBlank Text.isBlankText at h ⊢
  rw [String.toList_append, List.all_append, h, Bool.false_and]

theorem Str.isBlank_append_right {t : String} (h : Str.isBlank t = false) (s : String) :
    Str.isBlank (s ++ t) = false := by
  unfold Str.isBlank Text.isBlankText at h ⊢
  rw [String.toList_append, List.all_append, h, Bool.and_false]

theorem Str.ne_empty_of_isBlank {s : String} (h : Str.isBlank s = false) : s ≠ "" := by
  rintro rfl
  cases h

/-- A text that fails to start with the word before its end. -/
theorem Str.startsWith_append_left {s word : String}
    (h : ∀ rest, Text.startsWith (s.toList ++ rest) word.toList = false) (t : String) :
    Str.startsWith (s ++ t) word = false := by
  unfold Str.startsWith
  rw [String.toList_append]
  exact h t.toList

namespace CodeBuilder

variable {b b' : CodeBuilder}

@[simp] theorem depth_line (b : CodeBuilder) (s : String) : (b.line s).depth = b.depth := rfl

@[simp] theorem depth_lineEach (b : CodeBuilder) (ss : List String) :
    (b.lineEach ss).depth = b.depth := by
  induction ss generalizing b with
  | nil => rfl
  | cons s ss ih => exact ih (b.line s)

@[simp] theorem depth_lines (b : CodeBuilder) (block : String) : (b.lines block).depth = b.depth :=
  depth_lineEach b (Str.lines block)

@[simp] theorem depth_blank (b : CodeBuilder) : b.blank.depth = b.depth := by
  unfold blank
  split <;> rfl

@[simp] theorem depth_opening (b : CodeBuilder) (header : String) :
    (b.opening header).depth = b.depth + 1 := rfl

@[simp] theorem depth_closing (b : CodeBuilder) (footer : String) :
    (b.closing footer).depth = b.depth - 1 := rfl

@[simp] theorem depth_branch (b : CodeBuilder) (s : String) :
    (b.branch s).depth = b.depth - 1 + 1 := rfl

@[simp] theorem depth_block (b : CodeBuilder) (header footer : String) (body : CodeBuilder → CodeBuilder) :
    (b.block header footer body).depth = (body (b.opening header)).depth - 1 := rfl

theorem depth_foldl {α : Type} {step : CodeBuilder → α → CodeBuilder}
    (h : ∀ b a, (step b a).depth = b.depth) (xs : List α) (b : CodeBuilder) :
    (xs.foldl step b).depth = b.depth := by
  induction xs generalizing b with
  | nil => rfl
  | cons x xs ih => rw [List.foldl_cons, ih, h]

theorem depth_when {f : CodeBuilder → CodeBuilder} (h : (f b).depth = b.depth) (condition : Bool) :
    (b.when condition f).depth = b.depth := by
  unfold CodeBuilder.when
  split
  · exact h
  · rfl

theorem indentation_zero : indentation 0 = "" := rfl

/-- A line at the outermost level stands there as it is. -/
theorem written_line {s : String} (hdepth : b.depth = 0) (hs : Str.isBlank s = false) :
    (b.line s).written = b.written ++ [s] := by
  have hempty : indentation 0 ++ s = s := by rw [indentation_zero, String.empty_append]
  simp [line, hs, hdepth, hempty]

theorem mem_written_line {s : String} (hdepth : b.depth = 0) (hs : Str.isBlank s = false) :
    s ∈ (b.line s).written := by
  rw [written_line hdepth hs]
  exact List.mem_append_right _ (List.mem_singleton_self s)

theorem written_lineEach {ss : List String} (hdepth : b.depth = 0)
    (hss : ∀ s ∈ ss, Str.isBlank s = false) : (b.lineEach ss).written = b.written ++ ss := by
  induction ss generalizing b with
  | nil => simp [lineEach]
  | cons s ss ih =>
    obtain ⟨hs, hss⟩ := List.forall_mem_cons.1 hss
    have hrest : ((b.line s).lineEach ss).written = (b.line s).written ++ ss := ih hdepth hss
    have hcons : b.lineEach (s :: ss) = (b.line s).lineEach ss := rfl
    rw [hcons, hrest, written_line hdepth hs, List.append_assoc, List.singleton_append]

/-- The lines of `b` are the first lines of `b'`. -/
def Extends (b b' : CodeBuilder) : Prop := b.written <+: b'.written

theorem Extends.refl (b : CodeBuilder) : Extends b b := List.prefix_refl _

theorem Extends.trans {b₁ b₂ b₃ : CodeBuilder} (h : Extends b₁ b₂) (h' : Extends b₂ b₃) :
    Extends b₁ b₃ := List.IsPrefix.trans h h'

theorem extends_line (b : CodeBuilder) (s : String) : Extends b (b.line s) := List.prefix_append _ _

theorem extends_blank (b : CodeBuilder) : Extends b b.blank := by
  unfold blank
  split
  · exact .refl b
  · exact List.prefix_append _ _

section Operations

variable (h : Extends b b')

include h

theorem Extends.mem {s : String} (hs : s ∈ b.written) : s ∈ b'.written := h.subset hs

theorem Extends.line (s : String) : Extends b (b'.line s) := h.trans (extends_line b' s)

theorem Extends.foldl {α : Type} {step : CodeBuilder → α → CodeBuilder}
    (hstep : ∀ b a, Extends b (step b a)) (xs : List α) : Extends b (xs.foldl step b') := by
  induction xs generalizing b' with
  | nil => exact h
  | cons x xs ih => exact ih (h.trans (hstep b' x))

theorem Extends.lineEach (ss : List String) : Extends b (b'.lineEach ss) := h.foldl extends_line ss

theorem Extends.lines (block : String) : Extends b (b'.lines block) := h.foldl extends_line _

theorem Extends.blank : Extends b b'.blank := h.trans (extends_blank b')

theorem Extends.opening (header : String) : Extends b (b'.opening header) := h.line header

theorem Extends.branch (s : String) : Extends b (b'.branch s) := h.trans (List.prefix_append _ _)

theorem Extends.when {f : CodeBuilder → CodeBuilder} (condition : Bool) (hf : ∀ b, Extends b (f b)) :
    Extends b (b'.when condition f) := by
  unfold CodeBuilder.when
  split
  · exact h.trans (hf b')
  · exact h

end Operations

/-- Closing takes back nothing from before the line that opened the level. -/
theorem Extends.closing {header : String} (h : Extends (b.opening header) b') (footer : String) :
    Extends b (b'.closing footer) := by
  have hopened : ∃ s, b.written ++ [s] <+: b'.written := ⟨_, h⟩
  obtain ⟨s, more, hmore⟩ := hopened
  have hdrop : b.written <+: b'.written.dropLast := by
    rw [← hmore, List.append_assoc, List.dropLast_append_of_ne_nil (by simp)]
    exact List.prefix_append _ _
  have hkept : b.written <+: (if b'.endsBlank then b'.written.dropLast else b'.written) := by
    split
    · exact hdrop
    · exact hdrop.trans (List.dropLast_prefix _)
  exact hkept.trans (List.prefix_append _ _)

theorem Extends.block (h : Extends b b') {body : CodeBuilder → CodeBuilder} (header footer : String)
    (hbody : ∀ b, Extends b (body b)) : Extends b (b'.block header footer body) :=
  h.trans ((hbody (b'.opening header)).closing footer)

/-- The last line goes if it is blank and only then. -/
theorem prefix_closing {ls : List String} {s : String} (hs : s ≠ "") (h : ls ++ [s] <+: b.written)
    (footer : String) : ls ++ [s] <+: (b.closing footer).written := by
  have hkept : ls ++ [s] <+: (if b.endsBlank then b.written.dropLast else b.written) := by
    split
    · rename_i hblank
      obtain ⟨lines, hlines⟩ : ∃ lines, b.written = lines ++ [""] :=
        List.getLast?_eq_some_iff.1 (beq_iff_eq.1 hblank)
      rw [hlines] at h ⊢
      rw [List.dropLast_concat]
      rcases List.prefix_concat_iff.1 h with heq | h
      · exact absurd (List.append_inj_right' heq rfl) (by simpa using hs)
      · exact h
    · exact h
  exact hkept.trans (List.prefix_append _ _)

/-- The header of a block at the outermost level stands after what was written before. -/
theorem prefix_block {header footer : String} {body : CodeBuilder → CodeBuilder}
    (hdepth : b.depth = 0) (hs : Str.isBlank header = false) (hbody : ∀ b, Extends b (body b)) :
    b.written ++ [header] <+: (b.block header footer body).written := by
  have hopened : (b.opening header).written = b.written ++ [header] := written_line hdepth hs
  exact prefix_closing (Str.ne_empty_of_isBlank hs) (hopened ▸ hbody (b.opening header)) footer

theorem mem_written_block {header footer : String} {body : CodeBuilder → CodeBuilder}
    (hdepth : b.depth = 0) (hs : Str.isBlank header = false) (hbody : ∀ b, Extends b (body b)) :
    header ∈ (b.block header footer body).written :=
  (prefix_block hdepth hs hbody).subset (by simp)

/-- Lines that are not blank are kept, and so is one blank line after them. -/
theorem collapse_append {ls : List String} (h : ∀ s ∈ ls, s ≠ "") (hne : ls ≠ []) (afterBlank : Bool)
    (rest : List String) : collapse afterBlank (ls ++ rest) = ls ++ collapse false rest := by
  induction ls generalizing afterBlank with
  | nil => exact absurd rfl hne
  | cons s ss ih =>
    obtain ⟨hs, hss⟩ := List.forall_mem_cons.1 h
    have hempty : s.isEmpty = false := by simpa using hs
    rw [List.cons_append, collapse, hempty]
    cases ss with
    | nil => rfl
    | cons s' ss => exact congrArg (s :: ·) (ih hss (by simp) false)

/-- The lines without the blank ones at their end. -/
def trimmed (ls : List String) : List String := (ls.reverse.dropWhile (·.isEmpty)).reverse

theorem finished_eq (b : CodeBuilder) : b.finished = trimmed (collapse true b.written) := rfl

theorem prefix_of_trim (ls : List String) : trimmed ls <+: ls := by
  unfold trimmed
  conv_rhs => rw [← ls.reverse_reverse]
  exact List.reverse_prefix.2 (List.dropWhile_suffix _)

theorem trimmed_append {ls : List String} (h : ∀ s ∈ ls, s ≠ "") (rest : List String) :
    trimmed (ls ++ rest) = ls ++ trimmed rest := by
  have hstop : ls.reverse.dropWhile (·.isEmpty) = ls.reverse := by
    cases hls : ls.reverse with
    | nil => rfl
    | cons s ss =>
      have hs : s ≠ "" := h s (List.mem_reverse.1 (hls ▸ List.mem_cons_self))
      rw [List.dropWhile_cons_of_neg (by simpa using hs)]
  unfold trimmed
  rw [List.reverse_append, List.dropWhile_append, hstop]
  split
  · rename_i hempty
    rw [List.isEmpty_iff.1 hempty]
    simp
  · simp

/-- Lines that are not blank are the first of the finished ones. What follows them is a blank
line wherever one was written. -/
theorem finished_append {ls rest : List String} (h : ∀ s ∈ ls, s ≠ "") (hne : ls ≠ [])
    (hb : b.written = ls ++ rest) : b.finished = ls ++ trimmed (collapse false rest) := by
  rw [finished_eq, hb, collapse_append h hne, trimmed_append h]

theorem mem_collapse {s : String} (hs : s ≠ "") (afterBlank : Bool) {ls : List String} (h : s ∈ ls) :
    s ∈ collapse afterBlank ls := by
  induction ls generalizing afterBlank with
  | nil => cases h
  | cons l ls ih =>
    rw [collapse]
    split
    · rename_i hl
      have hblank : l = "" := String.isEmpty_iff.1 (Bool.and_eq_true_iff.1 hl).1
      rcases List.mem_cons.1 h with rfl | h
      · exact absurd hblank hs
      · exact ih true h
    · rcases List.mem_cons.1 h with rfl | h
      · exact List.mem_cons_self
      · exact List.mem_cons_of_mem _ (ih _ h)

theorem collapse_sublist (afterBlank : Bool) (ls : List String) : (collapse afterBlank ls).Sublist ls := by
  induction ls generalizing afterBlank with
  | nil => exact .slnil
  | cons l ls ih =>
    rw [collapse]
    split
    · exact (ih true).cons l
    · exact (ih l.isEmpty).cons_cons l

theorem finished_subset (b : CodeBuilder) : b.finished ⊆ b.written :=
  fun _ h => (collapse_sublist true b.written).subset ((prefix_of_trim _).subset h)

theorem mem_trimmed {s : String} (hs : s ≠ "") {ls : List String} (h : s ∈ ls) : s ∈ trimmed ls := by
  unfold trimmed
  rw [List.mem_reverse]
  rw [← List.mem_reverse, ← List.takeWhile_append_dropWhile (p := (·.isEmpty)) (l := ls.reverse)] at h
  rcases List.mem_append.1 h with h | h
  · exact absurd (String.isEmpty_iff.1 (List.mem_takeWhile_imp h)) hs
  · exact h

theorem mem_finished {s : String} (hs : s ≠ "") (h : s ∈ b.written) : s ∈ b.finished :=
  mem_trimmed hs (mem_collapse hs true h)

end CodeBuilder

end Recast
