import Mathlib
import Recast.Optimize.Initializer
import Recast.Proofs.Names.Reading

/-!
# Listed names

Which names the dependency list of a hook holds. A name is listed if it is used in
the code of the expression, not as a member and not as a key, and the scan sees no
binder of it anywhere in the expression (`mem_ofExpr_iff`).

The scan sees the first name after a declaring word, a name before an arrow, and the
names between the brackets before an arrow. It does not look at scopes.
-/

namespace Recast.FreeNames

open Text

/-- A binder of the name that the scan sees. -/
inductive Seen (expr w : List Char) : Prop
  | declared {l₁ l₂ k t} (hs : tokens expr = l₁ ++ k :: t :: l₂) (hk : k.word ∈ declaringWords)
      (ht : t.word = w)
  | arrow {p} (ho : Occurs expr w p) (ha : arrowAt expr (p + w.length) = true)
  | parameter {p i n} (ho : Occurs expr w p) (hi : expr[i]? = some '(')
      (hn : partner? (expr.drop i) = some n) (ha : arrowAt expr (i + n + 1) = true)
      (hl : i < p) (hr : p + w.length ≤ i + n)
      (hd : significantBefore? expr p ≠ some '=')

/-- The name is used at position `p`, not as a member and not as a key. -/
structure UsedAt (expr w : List Char) (p : Nat) : Prop where
  occurs : Occurs expr w p
  notMember : isMember expr ⟨w, p, p + w.length⟩ = false
  notKey : isKey expr ⟨w, p, p + w.length⟩ = false

theorem mem_boundByWord_iff {expr w : List Char} {ts : List Token} :
    w ∈ boundByWord expr ts ↔
      (∃ l₁ l₂ k t, ts = l₁ ++ k :: t :: l₂ ∧ k.word ∈ declaringWords ∧ t.word = w) ∨
        ∃ t ∈ ts, t.word = w ∧ arrowAt expr t.stop = true := by
  induction ts with
  | nil => simp [boundByWord]
  | cons t ts ih =>
    simp only [boundByWord, List.mem_append, ih]
    constructor
    · rintro ((h | h) | h | h)
      · split at h
        · rename_i hk
          cases ts with
          | nil => simp at h
          | cons u us =>
            obtain rfl : w = u.word := by simpa using h
            exact .inl ⟨[], us, t, u, rfl, by simpa using hk, rfl⟩
        · simp at h
      · split at h
        · rename_i ha
          obtain rfl : w = t.word := by simpa using h
          exact .inr ⟨t, List.mem_cons_self .., rfl, ha⟩
        · simp at h
      · obtain ⟨l₁, l₂, k, u, rfl, hk, hu⟩ := h
        exact .inl ⟨t :: l₁, l₂, k, u, rfl, hk, hu⟩
      · obtain ⟨u, hu, hw, ha⟩ := h
        exact .inr ⟨u, List.mem_cons_of_mem _ hu, hw, ha⟩
    · rintro (⟨l₁, l₂, k, u, hs, hk, hu⟩ | ⟨u, hu, hw, ha⟩)
      · cases l₁ with
        | nil =>
          simp only [List.nil_append, List.cons.injEq] at hs
          obtain ⟨rfl, rfl⟩ := hs
          simp [hk, hu]
        | cons v l₁ =>
          simp only [List.cons_append, List.cons.injEq] at hs
          exact .inr (.inl ⟨l₁, l₂, k, u, hs.2, hk, hu⟩)
      · rcases List.mem_cons.1 hu with rfl | hu
        · simp [ha, hw]
        · exact .inr (.inr ⟨u, hu, hw, ha⟩)

theorem mem_parameterSpans_iff {expr : List Char} {i j : Nat} :
    (i, j) ∈ parameterSpans expr ↔ ∃ n, expr[i]? = some '(' ∧ partner? (expr.drop i) = some n ∧
      arrowAt expr (i + n + 1) = true ∧ j = i + n := by
  simp only [parameterSpans, List.mem_filterMap, List.mem_range]
  constructor
  · rintro ⟨k, -, hk⟩
    split at hk
    · rename_i hi
      split at hk
      · rename_i n hn
        split at hk
        · rename_i ha
          cases hk
          exact ⟨n, by simpa using hi, hn, ha, rfl⟩
        · cases hk
      · cases hk
    · cases hk
  · rintro ⟨n, hi, hn, ha, rfl⟩
    refine ⟨i, ?_, by simp [hi, hn, ha]⟩
    exact (List.getElem?_eq_some_iff.1 hi).1

theorem mem_foldl_addOnce {w : List Char} (ws names : List (List Char)) :
    w ∈ ws.foldl addOnce names ↔ w ∈ names ∨ w ∈ ws := by
  induction ws generalizing names with
  | nil => simp
  | cons v ws ih =>
    simp only [List.foldl_cons, ih, addOnce, List.mem_cons]
    by_cases hv : v ∈ names
    · simp only [List.contains_iff_mem.2 hv, if_true]
      grind
    · simp [hv, or_assoc]

theorem mem_bound_iff {expr w : List Char} (hw : isRun w = true) :
    w ∈ bound expr (tokens expr) ↔ Seen expr w := by
  simp only [bound, List.mem_append, mem_boundByWord_iff, List.mem_flatMap]
  constructor
  · rintro ((⟨l₁, l₂, k, t, hs, hk, ht⟩ | ⟨t, ht, rfl, ha⟩) | ⟨⟨i, j⟩, hs, hb⟩)
    · exact .declared hs hk ht
    · obtain ⟨-, hs, ho⟩ := mem_tokens_iff.1 ht
      exact .arrow ho (hs ▸ ha)
    · obtain ⟨n, hi, hn, ha, rfl⟩ := mem_parameterSpans_iff.1 hs
      obtain ⟨t, ht, rfl⟩ := List.mem_map.1 hb
      simp only [List.mem_filter, Bool.and_eq_true, decide_eq_true_eq, bne_iff_ne] at ht
      obtain ⟨-, hs, ho⟩ := mem_tokens_iff.1 ht.1
      exact .parameter ho hi hn ha ht.2.1.1 (hs ▸ ht.2.1.2) ht.2.2
  · rintro (⟨hs, hk, ht⟩ | ⟨ho, ha⟩ | ⟨ho, hi, hn, ha, hl, hr, hd⟩)
    · exact .inl (.inl ⟨_, _, _, _, hs, hk, ht⟩)
    · exact .inl (.inr ⟨_, ho.mem_tokens hw, rfl, ha⟩)
    · refine .inr ⟨_, mem_parameterSpans_iff.2 ⟨_, hi, hn, ha, rfl⟩, ?_⟩
      exact List.mem_map_of_mem (f := Token.word) (List.mem_filter.2
        ⟨ho.mem_tokens hw, by simp [hl, hr, hd]⟩)

/-- A name is listed if it is used and the scan sees no binder of it, unless it is
always there or begins with a capital. -/
theorem mem_ofExpr_iff {expr w : List Char} :
    w ∈ ofExpr expr ↔ isRun w = true ∧ w ∉ ambient ∧ ¬ w.head?.any Char.isUpper ∧ ¬ Seen expr w ∧
      ∃ p, UsedAt expr w p := by
  simp only [ofExpr, mem_foldl_addOnce, List.not_mem_nil, false_or, List.mem_map, List.mem_filter]
  constructor
  · rintro ⟨t, ⟨ht, hf⟩, rfl⟩
    obtain ⟨hw, hs, ho⟩ := mem_tokens_iff.1 ht
    obtain ⟨w, p, e⟩ := t
    obtain rfl : e = p + w.length := hs
    simp only [isFree, Bool.and_eq_true, Bool.not_eq_true', List.contains_eq_mem,
      decide_eq_false_iff_not, mem_bound_iff hw] at hf
    exact ⟨hw, hf.1.1.1.1, by simp [hf.1.1.2], hf.1.1.1.2, p, ho, hf.1.2, hf.2⟩
  · rintro ⟨hw, ha, hc, hs, p, ho, hm, hk⟩
    refine ⟨⟨w, p, p + w.length⟩, ⟨ho.mem_tokens hw, ?_⟩, rfl⟩
    simp only [isFree, Bool.and_eq_true, Bool.not_eq_true', List.contains_eq_mem,
      decide_eq_false_iff_not, mem_bound_iff hw]
    exact ⟨⟨⟨⟨ha, hs⟩, by simpa using hc⟩, hm⟩, hk⟩

theorem isDigit_of_isAlpha {c : Char} (h : c.isAlpha = true) : c.isDigit = false := by
  have hc : (decide (c.val ≥ 'A'.val ∧ c.val ≤ 'Z'.val) ||
      decide (c.val ≥ 'a'.val) && decide (c.val ≤ 'z'.val)) = true := h
  simp only [Bool.or_eq_true, Bool.and_eq_true, decide_eq_true_eq] at hc
  refine Bool.eq_false_iff.2 fun hd => ?_
  have hn := (Char.isDigit_iff_toNat.1 hd).2
  rcases hc with ⟨hc, -⟩ | ⟨hc, -⟩
  · exact absurd (Nat.le_trans hc hn) (by decide)
  · exact absurd (Nat.le_trans hc hn) (by decide)

theorem isRun_of_isIdentifier {w : List Char} (hw : isIdentifier w = true) : isRun w = true := by
  cases w with
  | nil => cases hw
  | cons c r =>
    simp only [isIdentifier, Bool.and_eq_true] at hw
    have hi := isIdentChar_of_start hw.1
    have hd : c.isDigit = false := by
      have hs := hw.1
      simp only [isIdentStart, Bool.or_eq_true, beq_iff_eq] at hs
      rcases hs with (hs | rfl) | rfl
      · exact isDigit_of_isAlpha hs
      · rfl
      · rfl
    simp [isRun, hd, hi, hw.2]

end Recast.FreeNames
