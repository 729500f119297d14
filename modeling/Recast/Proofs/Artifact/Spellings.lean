import Recast.Proofs.Artifact.Paths
import Recast.Proofs.Text.Words

/-!
# Spellings of a name

The words of a name are cut at capitals and at characters that are neither letters nor digits, and only
the latter are left out. So each spelling holds all letters and digits in their order, and another cut
into words can change no more than their case (`spellings_lose_nothing`). The spelling `UserProfile` is
one stretch of letters and digits that no small letter begins, so to spell it again changes nothing,
and a layout is the same for a name and for its spelling.
-/

namespace Recast

namespace Text

/-- The letters and digits of the text, without capitals. -/
def lettersOf (text : List Char) : List Char := lowercase (text.filter Char.isAlphanum)

theorem lowercase_append (a b : List Char) : lowercase (a ++ b) = lowercase a ++ lowercase b := List.map_append

/-- Words are cut without loss. -/
theorem flatten_wordsFrom (cur text : List Char) :
    (wordsFrom cur text).flatten = cur.reverse ++ text.filter Char.isAlphanum := by
  fun_induction wordsFrom cur text with
  | case1 cur hcur => simp [List.isEmpty_iff.1 hcur]
  | case2 cur hcur => simp
  | case3 cur c r hc hcur ih =>
    rw [ih, List.isEmpty_iff.1 hcur, List.filter_cons_of_neg (by simpa using hc)]
  | case4 cur c r hc hcur ih =>
    rw [List.flatten_cons, ih, List.filter_cons_of_neg (by simpa using hc)]
    rfl
  | case5 cur c r hc hstart ih =>
    rw [List.flatten_cons, ih, List.filter_cons_of_pos (by simpa using hc)]
    rfl
  | case6 cur c r hc hstart ih =>
    rw [ih, List.filter_cons_of_pos (by simpa using hc), List.reverse_cons, List.append_assoc]
    rfl

theorem flatten_words (text : List Char) : (words text).flatten = text.filter Char.isAlphanum :=
  flatten_wordsFrom [] text

theorem lowercase_capitalize (w : List Char) : lowercase (capitalize w) = lowercase w := by
  cases w with
  | nil => rfl
  | cons c r => simp [capitalize, lowercase]

theorem lowercase_flatMap_capitalize (ws : List (List Char)) :
    lowercase (ws.flatMap capitalize) = lowercase ws.flatten := by
  induction ws with
  | nil => rfl
  | cons w ws ih =>
    rw [List.flatMap_cons, List.flatten_cons, lowercase_append, lowercase_append, lowercase_capitalize, ih]

theorem lowercase_pascalCase (text : List Char) : lowercase (pascalCase text) = lettersOf text := by
  rw [pascalCase, lowercase_flatMap_capitalize, flatten_words, lettersOf]

theorem lowercase_camelCase (text : List Char) : lowercase (camelCase text) = lettersOf text := by
  rw [lettersOf, ← flatten_words]
  cases hwords : words text with
  | nil => rw [camelCase, hwords, List.flatten_nil]
  | cons w ws =>
    have htwice : lowercase (lowercase w) = lowercase w := by simp [lowercase]
    rw [camelCase_of_words hwords, List.flatten_cons, lowercase_append, lowercase_append, htwice,
      lowercase_flatMap_capitalize]

/-- Separators are taken out of a join of pieces that have none. -/
theorem filter_joinWith {sep : Char} {pieces : List (List Char)} (h : ∀ p ∈ pieces, sep ∉ p) :
    (joinWith [sep] pieces).filter (· != sep) = pieces.flatten := by
  induction pieces with
  | nil => rfl
  | cons p ps ih =>
    obtain ⟨hp, hps⟩ := List.forall_mem_cons.1 h
    have hself : p.filter (· != sep) = p :=
      List.filter_eq_self.2 fun c hc => bne_iff_ne.2 (ne_of_mem_of_not_mem hc hp)
    cases ps with
    | nil => simp [joinWith, hself]
    | cons q qs =>
      rw [joinWith_cons_cons, List.filter_append, List.filter_append, hself, ih hps, List.flatten_cons]
      simp

theorem hyphen_notMem_lowercase {w : List Char} (h : ∀ c ∈ w, c.isAlphanum = true) : '-' ∉ lowercase w := by
  intro hmem
  obtain ⟨c, hc, heq⟩ := List.mem_map.1 hmem
  have hletter := isAlphanum_toLower (h c hc)
  rw [heq] at hletter
  exact absurd hletter (by decide)

theorem filter_kebabCase (text : List Char) : (kebabCase text).filter (· != '-') = lettersOf text := by
  have hpieces : ∀ p ∈ (words text).map lowercase, '-' ∉ p := by
    intro p hp
    obtain ⟨w, hw, rfl⟩ := List.mem_map.1 hp
    exact hyphen_notMem_lowercase fun c hc => isAlphanum_of_mem_wordsFrom (by simp) hw c hc
  rw [kebabCase, filter_joinWith hpieces, lettersOf, ← flatten_words, lowercase, List.map_flatten]
  rfl

/-- The first character of the spelling `UserProfile` is no small letter. -/
theorem capitalize_pascalCase (text : List Char) : capitalize (pascalCase text) = pascalCase text := by
  have hjoin (ws : List (List Char)) : capitalize (ws.flatMap capitalize) = ws.flatMap capitalize := by
    induction ws with
    | nil => rfl
    | cons w ws ih =>
      rw [List.flatMap_cons]
      cases w with
      | nil => exact ih
      | cons c r => simp [capitalize]
  exact hjoin _

theorem pascalCase_pascalCase (text : List Char) : pascalCase (pascalCase text) = pascalCase text := by
  rw [pascalCase_of_isAlphanum (isAlphanum_pascalCase text), capitalize_pascalCase]

end Text

open Text

theorem ArtifactLayout.ofName_pascalCase (name : String) (tier : Tier) :
    ofName (.ofList (pascalCase name.toList)) tier = ofName name tier := by
  rw [ofName, ofName, String.toList_ofList, pascalCase_pascalCase]

/-- Every spelling of a text holds the letters and digits of the text in their order, up to case, and
nothing else but hyphens. The spelling `UserProfile` is its own, and it has the layout of the text. -/
theorem Text.spellings_lose_nothing (text : String) :
    lowercase (pascalCase text.toList) = lettersOf text.toList ∧
      lowercase (camelCase text.toList) = lettersOf text.toList ∧
      (kebabCase text.toList).filter (· != '-') = lettersOf text.toList ∧
      pascalCase (pascalCase text.toList) = pascalCase text.toList ∧
      ∀ tier, ArtifactLayout.ofName (.ofList (pascalCase text.toList)) tier = .ofName text tier :=
  ⟨lowercase_pascalCase _, lowercase_camelCase _, filter_kebabCase _, pascalCase_pascalCase _,
    ArtifactLayout.ofName_pascalCase text⟩

/-- The spelling of two words may be one word. -/
example : words "a-b".toList = ["a".toList, "b".toList] ∧ words (pascalCase "a-b".toList) = ["AB".toList] := by
  decide

end Recast
