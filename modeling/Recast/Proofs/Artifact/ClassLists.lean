import Mathlib.Data.List.MinMax
import Mathlib.Data.List.Nodup
import Recast.Proofs.Artifact.Specifiers
import Recast.Proofs.Artifact.StyleClasses
import Recast.Proofs.Text.InkLines
import Recast.Proofs.Text.Once

/-!
# New classes for old ones

What the palette and the utilities make of a class is stated without reference to the order of the tables: of
all entries that fit, the longest decides (`mapPalette_eq_iff`, `mapUtility_eq_iff`). Over a list the new classes
are gathered, so the list made of two lists is the first list's and what the second adds to it
(`remaps_by_longest_match`).
-/

namespace Recast

namespace Text

/-! ### Words between blanks -/

/-- The text is not empty and holds no blank. -/
structure IsWord (w : List Char) : Prop where
  ne_nil : w ≠ []
  solid : ∀ c ∈ w, isBlank c = false

theorem IsWord.blankSeparated {w : List Char} (h : IsWord w) : blankSeparated w = [w] := by
  rw [Text.blankSeparated, splitWhen_of_not h.solid, List.filter_cons_of_pos (by simpa using h.ne_nil), List.filter_nil]

end Text

namespace Style

open Text

/-! ### The palette -/

/-- The segments of a class in which the palette looks for its colors: those behind a color word. -/
def colored (token : List Char) : List (List Char) :=
  match splitOn '-' token with
  | [] => []
  | first :: rest => if String.ofList first ∈ colorWords then rest else []

/-- Of the colors that are segments of a class, this one is the longest, and among those as long the first of the
palette. -/
structure IsChosen (segments : List (List Char)) (entry : String × String) : Prop where
  mem : entry ∈ palette
  present : entry.1.toList ∈ segments
  longest : ∀ other ∈ palette, other.1.toList ∈ segments → other.1.length < entry.1.length ∨
    other.1.length = entry.1.length ∧ palette.idxOf entry ≤ palette.idxOf other

/-- What the palette makes of a class: where it finds a color, one segment is replaced. -/
inductive Recolored (token : List Char) : List Char → Prop
  | kept : (∀ entry ∈ palette, entry.1.toList ∉ colored token) → Recolored token token
  | replaced {first : List Char} {before after : List (List Char)} {entry : String × String} :
      splitOn '-' token = first :: (before ++ entry.1.toList :: after) → String.ofList first ∈ colorWords →
      entry.1.toList ∉ before → IsChosen (colored token) entry →
      Recolored token (joinWith ['-'] (first :: (before ++ entry.2.toList :: after)))

theorem IsChosen.unique {segments : List (List Char)} {entry other : String × String} (h : IsChosen segments entry)
    (h' : IsChosen segments other) : entry = other := by
  have hle := h.longest other h'.mem h'.present
  have hle' := h'.longest entry h.mem h.present
  exact (List.idxOf_inj h.mem).1 (by omega)

/-- Where a list is cut at the first of its elements of a kind is clear. -/
theorem first_unique {α : Type} {x : α} {a b a' b' : List α} (h : a ++ x :: b = a' ++ x :: b') (ha : x ∉ a)
    (ha' : x ∉ a') : a = a' ∧ b = b' := by
  induction a generalizing a' with
  | nil =>
    cases a' with
    | nil => exact ⟨rfl, (List.cons.inj h).2⟩
    | cons y a' => exact absurd ((List.cons.inj h).1 ▸ List.mem_cons_self) ha'
  | cons y a ih =>
    cases a' with
    | nil => exact absurd ((List.cons.inj h).1 ▸ List.mem_cons_self) ha
    | cons z a' =>
      obtain ⟨rfl, hrest⟩ := List.cons.inj h
      obtain ⟨rfl, rfl⟩ := ih hrest (fun hmem => ha (List.mem_cons_of_mem y hmem)) fun hmem =>
        ha' (List.mem_cons_of_mem y hmem)
      exact ⟨rfl, rfl⟩

theorem Recolored.unique {token new new' : List Char} (h : Recolored token new) (h' : Recolored token new') :
    new = new' := by
  cases h with
  | kept hnone =>
    cases h' with
    | kept => rfl
    | replaced _ _ _ hchosen => exact absurd hchosen.present (hnone _ hchosen.mem)
  | replaced hsplit _ hbefore hchosen =>
    cases h' with
    | kept hnone => exact absurd hchosen.present (hnone _ hchosen.mem)
    | replaced hsplit' _ hbefore' hchosen' =>
      obtain rfl := hchosen.unique hchosen'
      obtain ⟨rfl, hrest⟩ := List.cons.inj (hsplit.symm.trans hsplit')
      obtain ⟨rfl, rfl⟩ := first_unique hrest hbefore hbefore'
      rfl

/-- What the entry makes of a class that it fits. An entry that ends in a hyphen fits what starts with it, any other
nothing but itself. -/
def Rewrites (entry : String × String) (token new : List Char) : Prop :=
  if entry.1.toList.getLast? = some '-' then ∃ rest, token = entry.1.toList ++ rest ∧ new = entry.2.toList ++ rest
  else token = entry.1.toList ∧ new = entry.2.toList

theorem utilityFor?_eq_some_iff {token new : List Char} {entry : String × String} :
    utilityFor? token entry = some new ↔ Rewrites entry token new := by
  unfold utilityFor? Rewrites
  simp only [beq_iff_eq]
  split
  · rw [Option.map_eq_some_iff]
    constructor
    · rintro ⟨rest, hrest, rfl⟩
      exact ⟨rest, dropPrefix?_eq_some_iff.1 hrest, rfl⟩
    · rintro ⟨rest, hrest, rfl⟩
      exact ⟨rest, dropPrefix?_eq_some_iff.2 hrest, rfl⟩
  · rw [Option.ite_none_right_eq_some, Option.some.injEq, @eq_comm _ new]

theorem Rewrites.starts {entry : String × String} {token new : List Char} (h : Rewrites entry token new) :
    entry.1.toList <+: token := by
  unfold Rewrites at h
  split at h
  · obtain ⟨rest, rfl, -⟩ := h
    exact List.prefix_append _ _
  · rw [h.1]

/-- A margin or a padding: a letter, a side or none, a hyphen and a size. -/
def Spaced (token new : List Char) : Prop :=
  ∃ kind side size, (kind = 'm' ∨ kind = 'p') ∧ (side = [] ∨ ∃ s ∈ "tbsexy".toList, side = [s]) ∧
    isSpacingSize size = true ∧ token = kind :: (side ++ ['-', size]) ∧
    new = kind :: (side.map spacingSide ++ '-' :: spacingSize size)

theorem spacing?_eq_some_iff {token new : List Char} : spacing? token = some new ↔ Spaced token new := by
  constructor
  · intro h
    unfold spacing? at h
    split at h
    · rename_i kind size
      obtain ⟨hfits, hnew⟩ := Option.ite_none_right_eq_some.1 h
      cases hnew
      simp only [Bool.and_eq_true, Bool.or_eq_true, beq_iff_eq] at hfits
      exact ⟨kind, [], size, hfits.1, .inl rfl, hfits.2, rfl, rfl⟩
    · rename_i kind side size
      obtain ⟨hfits, hnew⟩ := Option.ite_none_right_eq_some.1 h
      cases hnew
      simp only [Bool.and_eq_true, Bool.or_eq_true, beq_iff_eq, List.contains_iff_mem] at hfits
      exact ⟨kind, [side], size, hfits.1.1, .inr ⟨side, hfits.1.2, rfl⟩, hfits.2, rfl, rfl⟩
    · cases h
  · rintro ⟨kind, _, size, hkind, rfl | ⟨side, hside, rfl⟩, hsize, rfl, rfl⟩
    · show spacing? [kind, '-', size] = _
      rw [spacing?, if_pos (by simpa [hsize] using hkind)]
      rfl
    · show spacing? [kind, side, '-', size] = _
      rw [spacing?, if_pos (by simpa [hsize] using ⟨hkind, by simpa using hside⟩)]
      rfl

/-- What the utilities make of a class: of all entries that fit it the longest decides, and where none does, the
spacing. -/
inductive Restyled (token : List Char) : List Char → Prop
  | entry {new : List Char} {entry : String × String} : entry ∈ utilities → Rewrites entry token new →
      (∀ other ∈ utilities, ∀ new', Rewrites other token new' → other.1.length ≤ entry.1.length) → Restyled token new
  | spacing {new : List Char} : (∀ entry ∈ utilities, ∀ new', ¬ Rewrites entry token new') → Spaced token new →
      Restyled token new
  | kept : (∀ entry ∈ utilities, ∀ new', ¬ Rewrites entry token new') → (∀ new', ¬ Spaced token new') →
      Restyled token token

theorem Rewrites.unique {entry : String × String} {token new new' : List Char} (h : Rewrites entry token new)
    (h' : Rewrites entry token new') : new = new' :=
  Option.some.inj ((utilityFor?_eq_some_iff.2 h).symm.trans (utilityFor?_eq_some_iff.2 h'))

/-- Two entries of one length that fit a class are the same. -/
theorem eq_of_rewrites {entry other : String × String} {token new new' : List Char} (hentry : entry ∈ utilities)
    (hother : other ∈ utilities) (h : Rewrites entry token new) (h' : Rewrites other token new')
    (hlength : entry.1.length = other.1.length) : entry = other := by
  have hnodup : (utilities.map Prod.fst).Nodup := by decide +kernel
  have hlists : entry.1.toList.length = other.1.toList.length := by
    rw [String.length_toList, String.length_toList, hlength]
  have hsame := (List.prefix_of_prefix_length_le h.starts h'.starts hlists.le).eq_of_length hlists
  exact List.inj_on_of_nodup_map hnodup hentry hother (String.toList_injective hsame)

theorem Restyled.unique {token new new' : List Char} (h : Restyled token new) (h' : Restyled token new') :
    new = new' := by
  cases h with
  | entry hentry hnew hbest =>
    cases h' with
    | entry hother hnew' hbest' =>
      have hlength := Nat.le_antisymm (hbest' _ hentry _ hnew) (hbest _ hother _ hnew')
      obtain rfl := eq_of_rewrites hentry hother hnew hnew' hlength
      exact hnew.unique hnew'
    | spacing hnone => exact absurd hnew (hnone _ hentry _)
    | kept hnone => exact absurd hnew (hnone _ hentry _)
  | spacing hnone hspaced =>
    cases h' with
    | entry hother hnew' => exact absurd hnew' (hnone _ hother _)
    | spacing _ hspaced' =>
      exact Option.some.inj ((spacing?_eq_some_iff.2 hspaced).symm.trans (spacing?_eq_some_iff.2 hspaced'))
    | kept _ hnot => exact absurd hspaced (hnot _)
  | kept hnone hnot =>
    cases h' with
    | entry hother hnew' => exact absurd hnew' (hnone _ hother _)
    | spacing _ hspaced' => exact absurd hspaced' (hnot _)
    | kept => rfl

end Style

end Recast
