import Mathlib.Data.List.Basic
import Mathlib.Data.List.Induction

/-!
# Lists gathered one by one

A list to which each item is added unless it is there holds every item once, in the order in which
the items first come.
-/

namespace Recast

variable {α : Type} [BEq α] [LawfulBEq α]

theorem eraseDups_append_singleton (xs : List α) (x : α) :
    (xs ++ [x]).eraseDups = if x ∈ xs then xs.eraseDups else xs.eraseDups ++ [x] := by
  rw [List.eraseDups_append]
  split
  · rename_i h
    simp [List.removeAll, h]
  · rename_i h
    simp [List.removeAll, h, List.eraseDups_cons]

theorem nodup_eraseDups (xs : List α) : xs.eraseDups.Nodup := by
  induction xs using List.reverseRecOn with
  | nil => simp
  | append_singleton xs x ih =>
    rw [eraseDups_append_singleton]
    split
    · exact ih
    · rename_i h
      simpa [List.nodup_append, ih] using fun y hy (heq : y = x) => h (heq ▸ hy)

/-- Dropping repetitions keeps the order, so it does not matter whether items are left out before or after. -/
theorem eraseDups_filter (p : α → Bool) (xs : List α) :
    (xs.filter p).eraseDups = xs.eraseDups.filter p := by
  induction xs using List.reverseRecOn with
  | nil => rfl
  | append_singleton xs x ih =>
    have hmem (hx : p x = true) : x ∈ xs.filter p ↔ x ∈ xs := by simp [hx]
    rw [List.filter_append, eraseDups_append_singleton]
    cases hx : p x with
    | true =>
      rw [List.filter_cons_of_pos hx, List.filter_nil, eraseDups_append_singleton, ih]
      simp only [hmem hx]
      split
      · rfl
      · rw [List.filter_append, List.filter_cons_of_pos hx, List.filter_nil]
    | false =>
      have hskip : [x].filter p = [] := by simp [hx]
      rw [hskip, List.append_nil, ih]
      split
      · rfl
      · rw [List.filter_append, hskip, List.append_nil]

/-- Of the second list only what the first does not hold is added. -/
theorem eraseDups_append_eq [DecidableEq α] (xs ys : List α) :
    (xs ++ ys).eraseDups = xs.eraseDups ++ ys.eraseDups.filter (· ∉ xs.eraseDups) := by
  rw [List.eraseDups_append, List.removeAll, eraseDups_filter]
  refine congrArg (xs.eraseDups ++ ·) (List.filter_congr fun x _ => ?_)
  simp

/-- Adding the items one by one, each unless it is there. -/
theorem foldl_addOnce (xs : List α) :
    xs.foldl (fun ys x => if ys.contains x then ys else ys ++ [x]) [] = xs.eraseDups := by
  induction xs using List.reverseRecOn with
  | nil => rfl
  | append_singleton xs x ih =>
    rw [List.foldl_concat, ih, eraseDups_append_singleton]
    simp only [List.contains_iff_mem, List.mem_eraseDups]

end Recast
