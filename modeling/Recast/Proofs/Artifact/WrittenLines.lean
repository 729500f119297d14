import Recast.Proofs.Artifact.Building
import Recast.Proofs.Text.InkLines

/-!
# What a builder writes

A builder moves code and sets it apart by blank lines. Read as the lines that hold ink, what it has
written is what it was given, one operation after the other, and so is the finished text
(`inkLines_build`).
-/

namespace Recast.Str

def inkLines (s : String) : List (List Char) := Text.inkLines s.toList

@[simp] theorem inkLines_empty : inkLines "" = [] := rfl

theorem inkLines_of_isBlank {s : String} (h : isBlank s = true) : inkLines s = [] :=
  Text.inkLines_of_blank h

theorem flatMap_inkLines_lines (s : String) : (lines s).flatMap inkLines = inkLines s := by
  unfold lines inkLines
  rw [List.flatMap_map]
  simp only [String.toList_ofList]
  exact Text.inkLines_lines s.toList

/-- A word on one line is in the string exactly if it is in one of its lines. -/
theorem contains_iff_inkLines {word : String} (hword : Text.IsPhrase word.toList) {s : String} :
    contains s word = true ↔ ∃ l ∈ inkLines s, Text.contains l word.toList = true :=
  Text.contains_iff_inkLines hword

/-- A search in a literal goes over its characters. -/
theorem contains_of_chars {s word : String} {cs us : List Char} (hs : s = String.ofList cs)
    (hword : word = String.ofList us) {b : Bool} (h : Text.contains cs us = b) : contains s word = b := by
  rw [contains, hs, hword, String.toList_ofList, String.toList_ofList, h]

theorem not_mem_intercalate {x : Char} {sep : String} {ss : List String} (hsep : x ∉ sep.toList)
    (h : ∀ s ∈ ss, x ∉ s.toList) : x ∉ (String.intercalate sep ss).toList := by
  rw [String.toList_intercalate]
  intro hmem
  rcases Text.mem_intercalate hmem with hmem | ⟨_, hs, hmem⟩
  · exact hsep hmem
  · obtain ⟨s, hin, rfl⟩ := List.mem_map.1 hs
    exact h s hin hmem

end Recast.Str

namespace Recast.CodeBuilder

/-- The lines written so far that hold ink. -/
def inkLines (b : CodeBuilder) : List (List Char) := b.written.flatMap Str.inkLines

@[simp] theorem inkLines_empty : inkLines {} = [] := rfl

@[simp] theorem inkLines_depth (b : CodeBuilder) (d : Nat) : inkLines { b with depth := d } = b.inkLines := rfl

@[simp] theorem inkLines_line (b : CodeBuilder) (s : String) :
    (b.line s).inkLines = b.inkLines ++ Str.inkLines s := by
  unfold line inkLines
  rw [List.flatMap_append, List.flatMap_singleton]
  split
  · rename_i hblank
    rw [Str.inkLines_of_isBlank hblank, Str.inkLines_empty]
  · have hindent : Text.isBlankText (indentation b.depth).toList = true := by
      rw [indentation, String.toList_ofList]
      exact List.all_eq_true.2 fun c hc => by rw [List.eq_of_mem_replicate hc]; rfl
    unfold Str.inkLines
    rw [String.toList_append, Text.inkLines_blank_append hindent]

theorem inkLines_foldl {α : Type} {step : CodeBuilder → α → CodeBuilder} {added : α → List (List Char)}
    (h : ∀ b a, (step b a).inkLines = b.inkLines ++ added a) (xs : List α) (b : CodeBuilder) :
    (xs.foldl step b).inkLines = b.inkLines ++ xs.flatMap added := by
  induction xs generalizing b with
  | nil => exact (List.append_nil _).symm
  | cons x xs ih => rw [List.foldl_cons, ih, h, List.flatMap_cons, List.append_assoc]

@[simp] theorem inkLines_lineEach (b : CodeBuilder) (ss : List String) :
    (b.lineEach ss).inkLines = b.inkLines ++ ss.flatMap Str.inkLines :=
  inkLines_foldl inkLines_line ss b

@[simp] theorem inkLines_lines (b : CodeBuilder) (block : String) :
    (b.lines block).inkLines = b.inkLines ++ Str.inkLines block := by
  rw [← Str.flatMap_inkLines_lines]
  exact inkLines_lineEach b (Str.lines block)

@[simp] theorem inkLines_blank (b : CodeBuilder) : b.blank.inkLines = b.inkLines := by
  unfold blank
  split
  · rfl
  · exact (List.flatMap_append ..).trans (List.append_nil _)

@[simp] theorem inkLines_opening (b : CodeBuilder) (header : String) :
    (b.opening header).inkLines = b.inkLines ++ Str.inkLines header := inkLines_line b header

@[simp] theorem inkLines_closing (b : CodeBuilder) (footer : String) :
    (b.closing footer).inkLines = b.inkLines ++ Str.inkLines footer := by
  have hkept : (if b.endsBlank then b.written.dropLast else b.written).flatMap Str.inkLines = b.inkLines := by
    split
    · rename_i hblank
      obtain ⟨lines, hlines⟩ : ∃ lines, b.written = lines ++ [""] :=
        List.getLast?_eq_some_iff.1 (beq_iff_eq.1 hblank)
      rw [inkLines, hlines, List.dropLast_concat, List.flatMap_append]
      exact (List.append_nil _).symm
    · rfl
  unfold closing
  rw [inkLines_line, ← hkept]
  rfl

@[simp] theorem inkLines_branch (b : CodeBuilder) (s : String) :
    (b.branch s).inkLines = b.inkLines ++ Str.inkLines s := inkLines_line { b with depth := b.depth - 1 } s

@[simp] theorem inkLines_block (b : CodeBuilder) (header footer : String) (body : CodeBuilder → CodeBuilder) :
    (b.block header footer body).inkLines = (body (b.opening header)).inkLines ++ Str.inkLines footer :=
  inkLines_closing _ _

@[simp] theorem inkLines_when (b : CodeBuilder) (condition : Bool) (f : CodeBuilder → CodeBuilder) :
    (b.when condition f).inkLines = if condition then (f b).inkLines else b.inkLines := by
  unfold CodeBuilder.when
  split <;> rfl

/-! ### The finished text -/

theorem flatMap_inkLines_collapse (afterBlank : Bool) (ls : List String) :
    (collapse afterBlank ls).flatMap Str.inkLines = ls.flatMap Str.inkLines := by
  induction ls generalizing afterBlank with
  | nil => rfl
  | cons s ss ih =>
    rw [collapse]
    split
    · rename_i hblank
      rw [ih, List.flatMap_cons, String.isEmpty_iff.1 (Bool.and_eq_true_iff.1 hblank).1, Str.inkLines_empty,
        List.nil_append]
    · rw [List.flatMap_cons, ih, List.flatMap_cons]

theorem flatMap_inkLines_trimmed (ls : List String) :
    (trimmed ls).flatMap Str.inkLines = ls.flatMap Str.inkLines := by
  have hparts : ls = trimmed ls ++ (ls.reverse.takeWhile (·.isEmpty)).reverse := by
    unfold trimmed
    rw [← List.reverse_append, List.takeWhile_append_dropWhile, List.reverse_reverse]
  have hblank : (ls.reverse.takeWhile (·.isEmpty)).reverse.flatMap Str.inkLines = [] := by
    refine List.flatMap_eq_nil_iff.2 fun s hs => ?_
    rw [String.isEmpty_iff.1 (List.mem_takeWhile_imp (List.mem_reverse.1 hs) : s.isEmpty = true), Str.inkLines_empty]
  conv_rhs => rw [hparts, List.flatMap_append, hblank, List.append_nil]

/-- The finished text holds the lines that were written. -/
@[simp] theorem inkLines_build (b : CodeBuilder) : Str.inkLines b.build = b.inkLines := by
  have hjoin : ∀ ls : List String, Text.inkLines (['\n'].intercalate (ls.map String.toList) ++ ['\n']) =
      ls.flatMap Str.inkLines := by
    intro ls
    induction ls with
    | nil => rfl
    | cons l ls ih =>
      cases ls with
      | nil =>
        rw [List.map_singleton, List.intercalate_singleton, Text.inkLines_append_blank _ (by rfl)]
        exact (List.flatMap_singleton ..).symm
      | cons l' ls =>
        rw [List.map_cons, List.map_cons, List.intercalate_cons_cons, ← List.map_cons, List.append_assoc,
          List.append_assoc, List.singleton_append, Text.inkLines_append_cons, ih]
        rfl
  unfold Str.inkLines build
  rw [String.toList_append, String.toList_intercalate]
  refine (hjoin b.finished).trans ?_
  rw [finished_eq, flatMap_inkLines_trimmed, flatMap_inkLines_collapse]
  rfl

end Recast.CodeBuilder
