import Mathlib.Tactic.SplitIfs
import Recast.Text.Cut
import Recast.Text.Lines
import Recast.Text.Split

/-!
# Pieces and the offsets computed from them

A text is the join of its pieces. A cut at a byte offset fails past the end of the text or
inside a character. One separator past the first piece lies a boundary; one separator
past a later piece, counted from the start of the text as if the pieces before it were not
there, may lie inside a character but never past the end.
-/

namespace Recast.Text

theorem mem_intercalate {α : Type*} {c : α} {sep : List α} {ls : List (List α)}
    (h : c ∈ sep.intercalate ls) : c ∈ sep ∨ ∃ l ∈ ls, c ∈ l := by
  induction ls with
  | nil => cases h
  | cons l ls ih =>
    cases ls with
    | nil =>
      rw [List.intercalate_singleton] at h
      exact .inr ⟨l, List.mem_cons_self, h⟩
    | cons l' ls =>
      rw [List.intercalate_cons_cons, List.mem_append, List.mem_append] at h
      rcases h with (h | h) | h
      · exact .inr ⟨l, List.mem_cons_self, h⟩
      · exact .inl h
      · exact (ih h).imp_right fun ⟨l, hl, h⟩ => ⟨l, List.mem_cons_of_mem _ hl, h⟩

/-- The offset lies inside a character. -/
def CutsChar (n : Nat) (text : List Char) : Prop :=
  ∃ before c after, text = before ++ c :: after ∧ byteLength before < n ∧
    n < byteLength before + c.utf8Size

theorem exists_of_splitBytes_eq_ok {n : Nat} {text before after : List Char}
    (h : splitBytes n text = .ok (before, after)) : text = before ++ after ∧ byteLength before = n := by
  refine ⟨(append_of_splitBytes h).symm, ?_⟩
  induction text generalizing n before with
  | nil => cases n <;> simp_all [splitBytes, byteLength]
  | cons c r ih =>
    cases n with
    | zero =>
      cases h
      rfl
    | succ n =>
      simp only [splitBytes] at h
      split at h
      · split at h
        · rename_i hle _ before' after' heq
          cases h
          have hr := ih heq
          simp only [byteLength]
          omega
        · cases h
      · cases h

theorem replaceBytes_eq_ok {start stop : Nat} {new text out : List Char}
    (h : replaceBytes start stop new text = .ok out) : ∃ before old after,
      text = before ++ (old ++ after) ∧ byteLength before = start ∧ byteLength old = stop - start ∧
        out = before ++ new ++ after := by
  obtain ⟨⟨before, rest⟩, hbefore, h⟩ := bind_eq_ok.1 h
  obtain ⟨⟨old, after⟩, hold, h⟩ := bind_eq_ok.1 h
  cases h
  obtain ⟨rfl, hstart⟩ := exists_of_splitBytes_eq_ok hbefore
  obtain ⟨rfl, hstop⟩ := exists_of_splitBytes_eq_ok hold
  exact ⟨before, old, after, rfl, hstart, hstop, rfl⟩

theorem exists_prefix_or_cutsChar {n : Nat} {text : List Char} (h : n ≤ byteLength text) :
    (∃ before after, text = before ++ after ∧ byteLength before = n) ∨ CutsChar n text := by
  induction text generalizing n with
  | nil =>
    obtain rfl : n = 0 := Nat.le_zero.1 h
    exact .inl ⟨[], [], rfl, rfl⟩
  | cons c r ih =>
    rcases Nat.eq_zero_or_pos n with rfl | hn
    · exact .inl ⟨[], c :: r, rfl, rfl⟩
    · by_cases hc : n < c.utf8Size
      · exact .inr ⟨[], c, r, rfl, hn, by simpa [byteLength] using hc⟩
      · have hr : n - c.utf8Size ≤ byteLength r := by
          simp only [byteLength] at h
          omega
        rcases ih hr with ⟨before, after, rfl, hb⟩ | ⟨before, d, after, rfl, hlow, hhigh⟩
        · refine .inl ⟨c :: before, after, rfl, ?_⟩
          simp only [byteLength]
          omega
        · refine .inr ⟨c :: before, d, after, rfl, ?_, ?_⟩ <;> simp only [byteLength] <;> omega

theorem CutsChar.byteLength_ne {n : Nat} {text before after : List Char} (h : CutsChar n text)
    (ht : text = before ++ after) : byteLength before ≠ n := by
  obtain ⟨low, c, high, hc, hlow, hhigh⟩ := h
  rw [hc, List.append_eq_append_iff] at ht
  rcases ht with ⟨u, rfl, hu⟩ | ⟨u, rfl, -⟩
  · cases u with
    | nil => simp only [List.append_nil]; omega
    | cons d u =>
      obtain ⟨rfl, -⟩ := List.cons.inj hu
      simp only [byteLength_append, byteLength]
      omega
  · simp only [byteLength_append] at hlow
    omega

theorem CutsChar.lt_byteLength {n : Nat} {text : List Char} (h : CutsChar n text) :
    n < byteLength text := by
  obtain ⟨before, c, after, rfl, -, hhigh⟩ := h
  simp only [byteLength_append, byteLength]
  omega

theorem CutsChar.exists_mem {n : Nat} {text : List Char} (h : CutsChar n text) :
    ∃ c ∈ text, 1 < c.utf8Size := by
  obtain ⟨before, c, after, rfl, hlow, hhigh⟩ := h
  exact ⟨c, List.mem_append_right _ List.mem_cons_self, by omega⟩

/-- A cut fails past the end and inside a character, and nowhere else. -/
theorem splitBytes_eq_error_iff {n : Nat} {text : List Char} :
    splitBytes n text = .error .noBoundary ↔ byteLength text < n ∨ CutsChar n text := by
  constructor
  · intro h
    by_cases hn : n ≤ byteLength text
    · rcases exists_prefix_or_cutsChar hn with ⟨before, after, rfl, rfl⟩ | hc
      · simp [splitBytes_append] at h
      · exact .inr hc
    · exact .inl (by omega)
  · intro h
    cases hs : splitBytes n text with
    | error e => rfl
    | ok pieces =>
      obtain ⟨ht, hb⟩ := exists_of_splitBytes_eq_ok hs
      rcases h with h | h
      · rw [ht, byteLength_append] at h
        omega
      · exact absurd hb (h.byteLength_ne ht)

theorem exists_rawPieces_eq_cons (sep : Char) (depth : Int) (m : Marked) :
    ∃ p ps, rawPieces sep depth m = p :: ps := by
  refine List.exists_cons_of_ne_nil ?_
  cases m with
  | nil => simp [rawPieces]
  | cons x r =>
    simp only [rawPieces]
    split_ifs <;> first | exact List.cons_ne_nil _ _ | (split <;> exact List.cons_ne_nil _ _)

/-- A character goes to the first piece of the rest, or is a separator that starts a piece. -/
theorem rawPieces_cons (sep : Char) (depth : Int) (c : Char) (l : Label) (r : Marked) :
    (∃ d p ps, rawPieces sep d r = p :: ps ∧ rawPieces sep depth ((c, l) :: r) = (c :: p) :: ps) ∨
      (c = sep ∧ rawPieces sep depth ((c, l) :: r) = [] :: rawPieces sep depth r) := by
  by_cases hl : l = .code
  · subst hl
    by_cases ho : isOpener c = true
    · obtain ⟨p, ps, hp⟩ := exists_rawPieces_eq_cons sep (depth + 1) r
      exact .inl ⟨_, p, ps, hp, by simp [rawPieces, ho, hp]⟩
    · by_cases hc : isCloser c = true
      · obtain ⟨p, ps, hp⟩ := exists_rawPieces_eq_cons sep (depth - 1) r
        exact .inl ⟨_, p, ps, hp, by simp [rawPieces, ho, hc, hp]⟩
      · by_cases hs : c = sep ∧ depth = 0
        · obtain ⟨rfl, rfl⟩ := hs
          exact .inr ⟨rfl, by simp [rawPieces, ho, hc]⟩
        · obtain ⟨p, ps, hp⟩ := exists_rawPieces_eq_cons sep depth r
          exact .inl ⟨_, p, ps, hp, by simp [rawPieces, ho, hc, hs, hp]⟩
  · obtain ⟨p, ps, hp⟩ := exists_rawPieces_eq_cons sep depth r
    exact .inl ⟨_, p, ps, hp, by simp [rawPieces, hl, hp]⟩

/-- Between its pieces a text has the separator. -/
theorem joinWith_rawPieces (sep : Char) (depth : Int) (m : Marked) :
    joinWith [sep] (rawPieces sep depth m) = m.map Prod.fst := by
  induction m generalizing depth with
  | nil => rfl
  | cons x r ih =>
    obtain ⟨c, l⟩ := x
    rcases rawPieces_cons sep depth c l r with ⟨d, p, ps, hp, h⟩ | ⟨rfl, h⟩
    · have hr := ih d
      rw [h]
      rw [hp] at hr
      cases ps <;> simp_all [joinWith]
    · have hr := ih depth
      obtain ⟨p, ps, hp⟩ := exists_rawPieces_eq_cons c depth r
      rw [h, hp]
      rw [hp] at hr
      simp [joinWith, hr]

theorem joinWith_cons_cons (sep l m : List Char) (ls : List (List Char)) :
    joinWith sep (l :: m :: ls) = l ++ sep ++ joinWith sep (m :: ls) := rfl

theorem joinWith_eq_intercalate (sep : List Char) (ls : List (List Char)) :
    joinWith sep ls = sep.intercalate ls := by
  induction ls with
  | nil => rfl
  | cons l ls ih =>
    cases ls with
    | nil => exact (List.intercalate_singleton ..).symm
    | cons m ms => rw [joinWith_cons_cons, ih, List.intercalate_cons_cons]

theorem byteLength_le_joinWith {sep piece : List Char} {pieces : List (List Char)} (h : piece ∈ pieces) :
    byteLength piece ≤ byteLength (joinWith sep pieces) := by
  induction pieces with
  | nil => cases h
  | cons l ls ih =>
    cases ls with
    | nil => exact List.mem_singleton.1 h ▸ Nat.le_refl _
    | cons m ms =>
      rw [joinWith_cons_cons, byteLength_append, byteLength_append]
      rcases List.mem_cons.1 h with rfl | h
      · omega
      · have hle := ih h
        omega

theorem byteLength_lt_joinWith {sep : Char} {piece p q : List Char} {pieces : List (List Char)}
    (h : piece ∈ p :: q :: pieces) :
    byteLength piece < byteLength (joinWith [sep] (p :: q :: pieces)) := by
  have hpos := sep.utf8Size_pos
  have htail {l : List Char} (hl : l ∈ q :: pieces) :
      byteLength l ≤ byteLength (joinWith [sep] (q :: pieces)) := byteLength_le_joinWith hl
  simp only [joinWith, byteLength_append, byteLength]
  rcases List.mem_cons.1 h with rfl | h
  · omega
  · have hle := htail h
    omega

/-- One separator past a piece that another follows lies within the text, wherever the
pieces stand. -/
theorem byteLength_succ_le_of_splitTopLevel {sep : Char} {text piece next : List Char}
    {rest : List (List Char)} (h : splitTopLevel sep text = piece :: next :: rest) :
    byteLength piece + 1 ≤ byteLength text := by
  obtain ⟨p, ps, hp⟩ := exists_rawPieces_eq_cons sep 0 (mark text)
  have htext : joinWith [sep] (p :: ps) = text := by
    rw [← hp, joinWith_rawPieces, map_fst_mark]
  have hsub : List.Sublist (piece :: next :: rest) (p :: ps) := by
    rw [← h, ← hp]
    exact List.filter_sublist
  have hmem : piece ∈ p :: ps := hsub.subset List.mem_cons_self
  cases ps with
  | nil =>
    have hlen := hsub.length_le
    simp at hlen
  | cons q qs => exact htext ▸ byteLength_lt_joinWith hmem

/-- One separator past the first piece, a character starts or the text is at its end. -/
theorem not_cutsChar_of_rawPieces {sep : Char} (hsep : sep.utf8Size = 1) {text piece : List Char}
    {rest : List (List Char)} (h : rawPieces sep 0 (mark text) = piece :: rest) :
    ¬ CutsChar (byteLength piece + 1) text := by
  have htext : text = joinWith [sep] (piece :: rest) := by
    rw [← h, joinWith_rawPieces, map_fst_mark]
  intro hcut
  cases rest with
  | nil =>
    have hlt := hcut.lt_byteLength
    rw [htext] at hlt
    simp only [joinWith] at hlt
    omega
  | cons q qs =>
    have hbefore : text = (piece ++ [sep]) ++ joinWith [sep] (q :: qs) := htext.trans rfl
    refine hcut.byteLength_ne hbefore ?_
    simp [byteLength, hsep]

theorem mem_joinWith {sep : List Char} {c : Char} {pieces : List (List Char)}
    (h : c ∈ joinWith sep pieces) : c ∈ sep ∨ ∃ p ∈ pieces, c ∈ p := by
  induction pieces with
  | nil => cases h
  | cons l ls ih =>
    cases ls with
    | nil => exact .inr ⟨l, List.mem_singleton_self l, h⟩
    | cons m ms =>
      simp only [joinWith_cons_cons, List.mem_append] at h
      rcases h with (h | h) | h
      · exact .inr ⟨l, List.mem_cons_self, h⟩
      · exact .inl h
      · rcases ih h with h | ⟨p, hp, hc⟩
        · exact .inl h
        · exact .inr ⟨p, List.mem_cons_of_mem _ hp, hc⟩

theorem length_rawPieces_of_not_mem {sep : Char} {m : Marked} (h : ∀ x ∈ m, x.1 ≠ sep) (depth : Int) :
    (rawPieces sep depth m).length = 1 := by
  induction m generalizing depth with
  | nil => rfl
  | cons x r ih =>
    obtain ⟨c, l⟩ := x
    obtain ⟨hc, hr⟩ := List.forall_mem_cons.1 h
    rcases rawPieces_cons sep depth c l r with ⟨d, p, ps, hp, he⟩ | ⟨rfl, -⟩
    · have hd := ih hr d
      rw [hp] at hd
      rw [he]
      exact hd
    · exact absurd rfl hc

/-- A text with two pieces between separators of one kind has a piece between those of
another, for the first separator itself is not blank. -/
theorem splitTopLevel_ne_nil {sep other : Char} (hne : sep ≠ other) (hb : isBlank sep = false)
    {text : List Char} (h : 1 < (splitTopLevel sep text).length) : splitTopLevel other text ≠ [] := by
  intro hnone
  have hblank : ∀ x ∈ mark text, x.1 ≠ sep := by
    intro x hx hsep
    have hmem : x.1 ∈ joinWith [other] (rawPieces other 0 (mark text)) := by
      rw [joinWith_rawPieces]
      exact List.mem_map_of_mem hx
    rcases mem_joinWith hmem with ho | ⟨piece, hp, hc⟩
    · exact hne (hsep ▸ List.mem_singleton.1 ho)
    · have hpiece : isBlankText piece = true := by
        simpa using List.filter_eq_nil_iff.1 hnone piece hp
      have hx := List.all_eq_true.1 hpiece x.1 hc
      rw [hsep, hb] at hx
      cases hx
  have hlen : (splitTopLevel sep text).length ≤ 1 := by
    rw [← length_rawPieces_of_not_mem hblank 0]
    exact List.length_filter_le _ _
  exact absurd h (Nat.not_lt.2 hlen)

theorem mem_of_mem_trim {c : Char} {text : List Char} (h : c ∈ trim text) : c ∈ text := by
  have hstart : c ∈ trimStart text :=
    List.mem_reverse.1 ((List.dropWhile_sublist isBlank).subset (List.mem_reverse.1 h))
  exact (List.dropWhile_sublist isBlank).subset hstart

end Recast.Text
