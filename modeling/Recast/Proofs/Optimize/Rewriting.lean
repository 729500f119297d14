import Recast.Optimize.BuiltIn
import Recast.Proofs.Pattern.Reading
import Recast.Proofs.Text.Occurrence

/-!
# Rewriting changes the text

A pass that finds something to do and is not rejected leaves another text than it found.
Hints only add characters. What is written anew may lose blanks, commas and semicolons,
so texts are compared by their other characters: an import that is completed keeps them,
and a memoized export has six more.
-/

namespace Recast

open Text Pattern Pattern.Generated

/-- The characters that may be lost where a text is written anew. -/
def isLight (c : Char) : Bool := isBlank c || c == ',' || c == ';'

/-- The number of the other characters. -/
def weight (text : List Char) : Nat := text.countP (!isLight ·)

@[simp] theorem weight_nil : weight [] = 0 := rfl

namespace ReactImport

theorem replaceMatch_append {m : Match} {a u y : List Char}
    (h : m.span = ⟨a.length, a.length + u.length⟩) (new : List Char) :
    replaceMatch m new (a ++ (u ++ y)) = a ++ (new ++ y) := by
  have hdrop : (a ++ (u ++ y)).drop (a.length + u.length) = y := by
    rw [← List.drop_drop, List.drop_left, List.drop_left]
  simp [replaceMatch, splice, h, hdrop]

/-- What the pattern of the import reads, with the default name before the braces and the names
between them. -/
theorem reads_of_reactNamedImport {text : List Char} {m : Match}
    (h : reactNamedImport.find? text = some m) :
    (m.groupText text 1 = [] ∨ m.groupText text 1 = "React, ".toList) ∧
      '\x7d' ∉ m.groupText text 2 ∧
      m.span.text text = "import ".toList ++ m.groupText text 1 ++ "\x7b ".toList ++
        m.groupText text 2 ++ " \x7d from 'react';".toList := by
  obtain ⟨c, c', hc, hr, hm⟩ := exists_reads_of_find? h
  simp only [reactNamedImport, reads_append] at hr
  obtain ⟨c₅, g₅, ⟨c₄, g₄, ⟨c₃, g₃, ⟨c₂, g₂, ⟨c₁, g₁, ⟨c₀, g₀, h₀, h₁⟩, h₂⟩, h₃⟩, h₄⟩, h₅⟩, h₆⟩ := hr
  obtain ⟨rfl, rfl⟩ := reads_anchor h₀
  obtain ⟨rfl, hg⟩ := reads_anchor h₆
  obtain ⟨g₆, h₄, hg₄⟩ := reads_group h₄
  have hc₁ := h₁.within hc
  have hc₃ := h₃.within (h₂.within hc₁)
  obtain ⟨rfl, hs₁, hn₁⟩ := reads_lit h₁
  obtain ⟨hg₃, hs₃, hn₃⟩ := reads_lit h₃
  obtain ⟨hg₆, v, hv, hs₄, hn₄⟩ := reads_star_char h₄
  obtain ⟨hg₅, hs₅, hn₅⟩ := reads_lit h₅
  have htwo : m.groupText text 2 = v :=
    Match.groupText_eq (by decide) (by rw [hg, hg₅, hg₄]; rfl) hc₃ hs₄ hn₄
  have hrest : m.groups.lookup 1 = g₂.lookup 1 := by rw [hg, hg₅, hg₄, hg₆, hg₃]; rfl
  have hone : (m.groupText text 1 = [] ∨ m.groupText text 1 = "React, ".toList) ∧
      c₁.rest = m.groupText text 1 ++ c₂.rest ∧ c₂.pos = c₁.pos + (m.groupText text 1).length := by
    rcases reads_opt h₂ with h₂ | ⟨rfl, hg₂⟩
    · obtain ⟨g₇, h₂, hg₂⟩ := reads_group h₂
      obtain ⟨-, hs₂, hn₂⟩ := reads_lit h₂
      rw [Match.groupText_eq (by decide) (by rw [hrest, hg₂]; rfl) hc₁ hs₂ hn₂]
      exact ⟨.inr rfl, hs₂, hn₂⟩
    · have hl : m.groups.lookup 1 = none := by rw [hrest, hg₂]; rfl
      simp [Match.groupText, Match.groupText?, Match.group?, hl]
  obtain ⟨hdefault, hsone, hnone⟩ := hone
  refine ⟨hdefault, ?_, ?_⟩
  · rw [htwo]
    exact fun hmem => absurd (List.all_eq_true.1 hv _ hmem) (by decide)
  · rw [hm, htwo]
    refine hc.text_span ?_ ?_
    · rw [hs₁, hsone, hs₃, hs₄, hs₅]
      simp only [List.append_assoc]
    · rw [hn₅, hn₄, hn₃, hnone, hn₁]
      simp only [List.length_append]
      omega

end ReactImport

theorem contains_append (a word b : List Char) : contains (a ++ (word ++ b)) word = true :=
  contains_iff.2 ⟨a, b, List.append_assoc a word b⟩

end Recast
