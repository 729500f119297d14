import Mathlib.Data.List.Infix
import Recast.Text.Quoted
import Recast.Text.Search

/-!
# Where a word occurs

A word lies on one side of every character that it lacks. So it is sought line by line, and in
what is written between quotes it is found only if the text that was quoted holds it.
-/

namespace Recast.Text

variable {word : List Char}

theorem startsWith_iff {text : List Char} : startsWith text word = true ↔ word <+: text := by
  rw [startsWith, Option.isSome_iff_exists]
  constructor
  · rintro ⟨rest, h⟩
    exact ⟨rest, (dropPrefix?_eq_some_iff.1 h).symm⟩
  · rintro ⟨rest, h⟩
    exact ⟨rest, dropPrefix?_eq_some_iff.2 h.symm⟩

theorem contains_cons (c : Char) (r word : List Char) :
    contains (c :: r) word = (startsWith (c :: r) word || contains r word) := by
  unfold contains
  rw [indexOf?]
  split
  · rename_i h
    rw [h]
    rfl
  · rename_i h
    rw [Bool.eq_false_iff.2 h, Option.isSome_map, Bool.false_or]

theorem contains_iff {text : List Char} : contains text word = true ↔ word <:+: text := by
  induction text with
  | nil =>
    unfold contains
    rw [indexOf?, List.infix_nil]
    split <;> simp_all
  | cons c r ih => rw [contains_cons, Bool.or_eq_true, startsWith_iff, ih, List.infix_cons_iff]

/-- A text that lacks a character of the word. -/
theorem not_contains_of_mem {text : List Char} {c : Char} (hc : c ∈ word) (h : c ∉ text) :
    contains text word = false := by
  rw [Bool.eq_false_iff]
  exact fun hword => h ((contains_iff.1 hword).subset hc)

/-! ### On either side of a character -/

theorem prefix_append_cons_iff {sep : Char} (h : sep ∉ word) (l r : List Char) :
    word <+: l ++ sep :: r ↔ word <+: l := by
  induction word generalizing l with
  | nil => simp
  | cons w ws ih =>
    simp only [List.mem_cons, not_or] at h
    cases l with
    | nil => simp [List.cons_prefix_cons, Ne.symm h.1]
    | cons c l => rw [List.cons_append, List.cons_prefix_cons, List.cons_prefix_cons, ih h.2]

theorem infix_append_cons_iff {sep : Char} (h : sep ∉ word) (l r : List Char) :
    word <:+: l ++ sep :: r ↔ word <:+: l ∨ word <:+: r := by
  induction l with
  | nil =>
    have hstart := prefix_append_cons_iff h [] r
    rw [List.nil_append] at hstart ⊢
    rw [List.infix_cons_iff, hstart, List.prefix_nil, List.infix_nil]
  | cons c l ih =>
    have hstart := prefix_append_cons_iff h (c :: l) r
    rw [List.cons_append] at hstart ⊢
    rw [List.infix_cons_iff, hstart, ih, List.infix_cons_iff, or_assoc]

theorem contains_append_cons {sep : Char} (h : sep ∉ word) (l r : List Char) :
    contains (l ++ sep :: r) word = (contains l word || contains r word) := by
  rw [Bool.eq_iff_iff, Bool.or_eq_true, contains_iff, contains_iff, contains_iff, infix_append_cons_iff h]

/-! ### The first occurrence -/

theorem split_of_indexOf? {text : List Char} {i : Nat} (h : indexOf? text word = some i) :
    text = text.take i ++ (word ++ text.drop (i + word.length)) := by
  induction text generalizing i with
  | nil =>
    rw [indexOf?] at h
    split at h
    · rename_i hempty
      simp [List.isEmpty_iff.1 hempty]
    · cases h
  | cons c r ih =>
    rw [indexOf?] at h
    split at h
    · rename_i hword
      cases h
      obtain ⟨rest, hrest⟩ := Option.isSome_iff_exists.1 hword
      rw [dropPrefix?_eq_some_iff] at hrest
      simp [hrest]
    · obtain ⟨j, hj, rfl⟩ := Option.map_eq_some_iff.1 h
      rw [List.take_succ_cons, Nat.add_right_comm, List.drop_succ_cons, List.cons_append, ← ih hj]

/-- Behind `text` the word stands for the first time. -/
def FirstAfter (word text : List Char) : Prop :=
  ∀ rest, indexOf? (text ++ (word ++ rest)) word = some text.length

theorem firstAfter_nil (word : List Char) : FirstAfter word [] := by
  intro rest
  rw [List.nil_append]
  have hstart : startsWith (word ++ rest) word = true := startsWith_iff.2 (List.prefix_append _ _)
  cases hword : word ++ rest with
  | nil =>
    obtain ⟨rfl, -⟩ := List.append_eq_nil_iff.1 hword
    rfl
  | cons c r =>
    rw [hword] at hstart
    rw [indexOf?, if_pos hstart]
    rfl

theorem FirstAfter.cons {text : List Char} (h : FirstAfter word text) {c : Char} (hc : ∀ r, ¬ word <+: c :: r) :
    FirstAfter word (c :: text) := by
  intro rest
  rw [List.cons_append, indexOf?, if_neg (by rw [startsWith_iff]; exact hc _), h rest]
  rfl

/-- The word does not begin in a text that lacks its first character. -/
theorem firstAfter_of_head (hne : word ≠ []) {text : List Char} (h : ∀ c ∈ text, word.head? ≠ some c) :
    FirstAfter word text := by
  obtain ⟨w, ws, rfl⟩ := List.exists_cons_of_ne_nil hne
  induction text with
  | nil => exact firstAfter_nil _
  | cons c text ih =>
    obtain ⟨hc, htext⟩ := List.forall_mem_cons.1 h
    refine (ih htext).cons fun r hword => hc ?_
    exact congrArg some (List.cons_prefix_cons.1 hword).1

theorem FirstAfter.line {text : List Char} (h : FirstAfter word text) (hline : '\n' ∉ word) (hne : word ≠ [])
    {l : List Char} (hl : contains l word = false) : FirstAfter word (l ++ '\n' :: text) := by
  have hinfix : ¬ word <:+: l := fun hinfix => by rw [contains_iff.2 hinfix] at hl; cases hl
  intro rest
  rw [List.append_assoc, List.cons_append]
  induction l with
  | nil =>
    have hstart : ¬ startsWith ('\n' :: (text ++ (word ++ rest))) word = true := by
      rw [startsWith_iff, ← List.nil_append ('\n' :: _), prefix_append_cons_iff hline, List.prefix_nil]
      exact hne
    rw [List.nil_append, indexOf?, if_neg hstart, h rest]
    rfl
  | cons c l ih =>
    rw [List.infix_cons_iff, not_or] at hinfix
    have hstart : ¬ startsWith (c :: (l ++ '\n' :: (text ++ (word ++ rest)))) word = true := by
      rw [startsWith_iff, ← List.cons_append, prefix_append_cons_iff hline]
      exact hinfix.1
    have hrest := ih (Bool.eq_false_iff.2 fun hcontains => hinfix.2 (contains_iff.1 hcontains)) hinfix.2
    rw [List.cons_append, indexOf?, if_neg hstart, hrest]
    simp

/-! ### Between quotes -/

theorem escapeQuoted_eq_self {s : List Char} (h : ∀ c ∈ s, quotedChar c = [c]) : escapeQuoted s = s := by
  rw [escapeQuoted, List.flatMap_congr h, List.flatMap_singleton']

/-- A quoted text starts with a word that needs no escape only if the text does. -/
theorem prefix_of_prefix_escapeQuoted (hslash : '\\' ∉ word) {s : List Char}
    (h : word <+: escapeQuoted s) : word <+: s := by
  induction s generalizing word with
  | nil => exact h
  | cons c s ih =>
    cases word with
    | nil => exact List.nil_prefix
    | cons w ws =>
      simp only [List.mem_cons, not_or] at hslash
      have hcons : escapeQuoted (c :: s) = quotedChar c ++ escapeQuoted s := rfl
      rw [hcons] at h
      unfold quotedChar at h
      split at h
      case h_4 =>
        rw [List.singleton_append, List.cons_prefix_cons] at h
        rw [List.cons_prefix_cons]
        exact ⟨h.1, ih hslash.2 h.2⟩
      all_goals
        rw [List.cons_append, List.cons_prefix_cons] at h
        exact absurd h.1.symm hslash.1

/-- A word that no escape can bring in is in the quoted text only if it was in the text before. -/
theorem contains_of_contains_escapeQuoted (hslash : '\\' ∉ word) (hquote : word.head? ≠ some '\'')
    (hfeed : word.head? ≠ some 'n') {s : List Char} (h : contains (escapeQuoted s) word = true) :
    contains s word = true := by
  rw [contains_iff] at h ⊢
  induction s with
  | nil => exact h
  | cons c s ih =>
    rw [List.infix_cons_iff]
    have hcons : escapeQuoted (c :: s) = quotedChar c ++ escapeQuoted s := rfl
    rw [hcons] at h
    by_cases hplain : quotedChar c = [c]
    · rw [hplain, List.singleton_append, List.infix_cons_iff] at h
      rcases h with h | h
      · refine .inl (prefix_of_prefix_escapeQuoted hslash ?_)
        rwa [hcons, hplain, List.singleton_append]
      · exact .inr (ih h)
    · -- Of the word nothing begins in the escape.
      refine .inr (ih ?_)
      cases word with
      | nil => exact List.nil_infix
      | cons w ws =>
        have hw : w ≠ '\\' := fun hw => hslash (hw ▸ List.mem_cons_self)
        rw [List.head?_cons, Ne, Option.some.injEq] at hquote hfeed
        unfold quotedChar at h hplain
        split at h
        case h_4 => simp_all
        all_goals
          simp only [List.cons_append, List.nil_append, List.infix_cons_iff, List.cons_prefix_cons] at h
          simpa [hw, hquote, hfeed] using h

theorem contains_of_suffix {text rest : List Char} (h : rest <:+ text) (hword : contains rest word = true) :
    contains text word = true :=
  contains_iff.2 ((contains_iff.1 hword).trans h.isInfix)

end Recast.Text
