import Recast.Proofs.Optimize.Rewriting

/-!
# Wrapping initializers

Initializers that lie apart are replaced where they stand, and the text around them is
kept. Each gets the name of its hook, so the text becomes another one.
-/

namespace Recast

open Text

theorem Text.exists_of_byteLength_le {a b c d : List Char} (h : a ++ b = c ++ d)
    (hle : byteLength a ≤ byteLength c) : ∃ v, c = a ++ v ∧ b = v ++ d := by
  rcases List.append_eq_append_iff.1 h with ⟨v, hc, hb⟩ | ⟨v, ha, hd⟩
  · exact ⟨v, hc, hb⟩
  · cases v with
    | nil => exact ⟨[], by simpa using ha.symm, by simpa using hd.symm⟩
    | cons x v =>
      have hx := x.utf8Size_pos
      simp only [ha, byteLength_append, byteLength] at hle
      omega

theorem Text.append_inj_of_byteLength {a b c d : List Char} (h : a ++ b = c ++ d)
    (hlength : byteLength a = byteLength c) : a = c ∧ b = d := by
  obtain ⟨v, rfl, rfl⟩ := exists_of_byteLength_le h hlength.le
  cases v with
  | nil => exact ⟨(List.append_nil a).symm, rfl⟩
  | cons x v =>
    have hx := x.utf8Size_pos
    simp only [byteLength_append, byteLength] at hlength
    omega

namespace Initializer

/-- The initializer ends where the next one starts, or before. -/
def Apart (ds : List Initializer) : Prop := ds.Pairwise fun d e => d.stop ≤ e.start

instance (ds : List Initializer) : Decidable (Apart ds) :=
  inferInstanceAs (Decidable (ds.Pairwise _))

end Initializer

open Initializer

end Recast
