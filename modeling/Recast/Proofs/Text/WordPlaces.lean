import Mathlib.Data.Nat.Count
import Recast.Proofs.Text.Occurrence
import Recast.Text.Word

/-!
# Counting places

A scan that goes on behind each occurrence counts all of them where no two overlap. So the whole words
that are counted are the places where the word stands alone (`countWord_eq`), and a word of which no end
is a beginning is counted wherever it stands (`occurrences_eq`).
-/

namespace Recast.Text

/-- Number of places at which `p` holds of what stands before and of what follows. -/
def countPlaces (p : List Char → List Char → Bool) (text : List Char) : ℕ :=
  Nat.count (fun i => p (text.take i) (text.drop i)) text.length

/-- The places of `rest` behind `before`. -/
def countPlacesFrom (p : List Char → List Char → Bool) (before rest : List Char) : ℕ :=
  countPlaces (fun l r => p (before ++ l) r) rest

variable {p q : List Char → List Char → Bool}

theorem countPlacesFrom_cons (before : List Char) (c : Char) (r : List Char) :
    countPlacesFrom p before (c :: r) =
      countPlacesFrom p (before ++ [c]) r + if p before (c :: r) then 1 else 0 := by
  rw [countPlacesFrom, countPlaces, List.length_cons, Nat.count_succ']
  simp [countPlacesFrom, countPlaces]

/-- The places where the word stands alone. -/
def standsAlone (word before rest : List Char) : Bool := startsWithWord before.getLast? rest word

theorem standsAlone_iff {word before rest : List Char} : standsAlone word before rest = true ↔
    ∃ after, rest = word ++ after ∧ before.getLast?.any isIdentChar = false ∧
      after.head?.any isIdentChar = false := by
  rw [standsAlone, startsWithWord, Bool.and_eq_true, Bool.not_eq_true', Option.any_eq_true]
  simp only [dropPrefix?_eq_some_iff, Bool.not_eq_true']
  constructor
  · rintro ⟨hbefore, after, hrest, hafter⟩
    exact ⟨after, hrest, hbefore, hafter⟩
  · rintro ⟨after, hrest, hbefore, hafter⟩
    exact ⟨hbefore, after, hrest, hafter⟩

/-- A word does not stand alone inside an occurrence of it. -/
theorem not_standsAlone_inside {word before r : List Char} {c : Char} (hword : word.all isIdentChar = true)
    (hstart : word <+: c :: r) {i : ℕ} (hi : i < word.length - 1) :
    standsAlone word (before ++ [c] ++ r.take i) (r.drop i) = false := by
  rw [Bool.eq_false_iff, Ne, standsAlone_iff]
  rintro ⟨-, -, hbefore, -⟩
  -- The character before is one of the word.
  have hmem : (c :: r).take (i + 1) <+: word :=
    List.prefix_of_prefix_length_le (List.take_prefix _ _) hstart (by rw [List.length_take]; omega)
  have hlast : (before ++ [c] ++ r.take i).getLast? = ((c :: r).take (i + 1)).getLast? := by
    rw [List.append_assoc, List.singleton_append, List.take_succ_cons, List.getLast?_append_cons]
  have hne : (c :: r).take (i + 1) ≠ [] := by simp
  rw [hlast, List.getLast?_eq_some_getLast hne, Option.any_some] at hbefore
  rw [List.all_eq_true.1 hword _ (hmem.subset (List.getLast_mem hne))] at hbefore
  cases hbefore

theorem countWordFrom_eq {word : List Char} (hword : word.all isIdentChar = true) (n : ℕ)
    (before rest : List Char)
    (hskip : ∀ i < n, standsAlone word (before ++ rest.take i) (rest.drop i) = false) :
    countWordFrom word before.getLast? n rest = countPlacesFrom (standsAlone word) before rest := by
  induction rest generalizing before n with
  | nil => cases n <;> rfl
  | cons c r ih =>
    have hlast : (before ++ [c]).getLast? = some c := List.getLast?_concat
    rw [countPlacesFrom_cons]
    cases n with
    | succ n =>
      have hhere : standsAlone word before (c :: r) = false := by simpa using hskip 0 (Nat.succ_pos n)
      rw [countWordFrom, hhere, ← hlast, ih n (before ++ [c])]
      · rfl
      · intro i hi
        simpa using hskip (i + 1) (Nat.succ_lt_succ hi)
    | zero =>
      rw [countWordFrom, ← hlast, ih _ (before ++ [c])]
      · rfl
      · intro i hi
        split at hi
        · rename_i hstart
          exact not_standsAlone_inside hword (startsWith_iff.1 hstart) hi
        · exact absurd hi (Nat.not_lt_zero i)

/-- Whole words are counted where they stand alone. -/
theorem countWord_eq {word : List Char} (hne : word ≠ []) (hword : word.all isIdentChar = true)
    (text : List Char) : countWord text word = countPlaces (standsAlone word) text := by
  rw [countWord, if_neg (by simpa using hne)]
  exact countWordFrom_eq hword 0 [] text (by simp)

/-- No end of the word is a beginning of it. -/
def Unbordered (word : List Char) : Prop := ∀ i < word.length, 0 < i → ¬ word.drop i <+: word

instance (word : List Char) : Decidable (Unbordered word) := by
  unfold Unbordered
  infer_instance

/-- A word without borders does not begin inside an occurrence of it. -/
theorem Unbordered.not_startsWith {word r : List Char} {c : Char} (h : Unbordered word)
    (hstart : word <+: c :: r) {i : ℕ} (hi : i < word.length - 1) : startsWith (r.drop i) word = false := by
  rw [Bool.eq_false_iff, Ne, startsWith_iff]
  intro hinside
  refine h (i + 1) (by omega) (Nat.succ_pos i) ?_
  have hdrop : word.drop (i + 1) <+: r.drop i := by simpa using hstart.drop (i + 1)
  exact List.prefix_of_prefix_length_le hdrop hinside (by rw [List.length_drop]; omega)

theorem occurrencesFrom_eq {word : List Char} (h : Unbordered word) (n : ℕ) (before rest : List Char)
    (hskip : ∀ i < n, startsWith (rest.drop i) word = false) :
    occurrencesFrom word n rest = countPlacesFrom (fun _ r => startsWith r word) before rest := by
  induction rest generalizing before n with
  | nil => cases n <;> rfl
  | cons c r ih =>
    rw [countPlacesFrom_cons]
    cases n with
    | succ n =>
      have hhere : startsWith (c :: r) word = false := hskip 0 (Nat.succ_pos n)
      rw [occurrencesFrom, hhere, ih n (before ++ [c]) fun i hi => hskip (i + 1) (Nat.succ_lt_succ hi)]
      rfl
    | zero =>
      rw [occurrencesFrom]
      split
      · rename_i hstart
        rw [ih _ (before ++ [c]) fun i => h.not_startsWith (startsWith_iff.1 hstart)]
      · rw [ih 0 (before ++ [c]) (by simp)]
        rfl

/-- A word without borders is counted wherever it stands. -/
theorem occurrences_eq {word : List Char} (h : Unbordered word) (text : List Char) :
    occurrences text word = countPlaces (fun _ r => startsWith r word) text :=
  occurrencesFrom_eq h 0 [] text (by simp)

/-! ### Comparing counts -/

/-- The places at which `p` holds are those at which `q` holds too and the others. -/
theorem countPlaces_split (p q : List Char → List Char → Bool) (text : List Char) : countPlaces p text =
    countPlaces (fun l r => p l r && q l r) text + countPlaces (fun l r => p l r && !q l r) text := by
  have hcount (f g : ℕ → Bool) (n : ℕ) : Nat.count (fun i => f i) n =
      Nat.count (fun i => f i && g i) n + Nat.count (fun i => f i && !g i) n := by
    induction n with
    | zero => rfl
    | succ n ih =>
      simp only [Nat.count_succ, ih]
      cases f n <;> cases g n <;> simp <;> omega
  exact hcount _ _ _

theorem countPlaces_pos {text l r : List Char} (htext : text = l ++ r) (hr : r ≠ []) (h : p l r = true) :
    0 < countPlaces p text := by
  have hlength : l.length < text.length := by
    rw [htext, List.length_append]
    exact Nat.lt_add_of_pos_right (List.length_pos_iff.2 hr)
  refine lt_of_le_of_lt (Nat.zero_le _) (Nat.count_strict_mono (p := fun i => p (text.take i) (text.drop i)) ?_ hlength)
  simpa [htext] using h

/-- Among the places of a text there is one at which `p` holds, if any are counted. -/
theorem exists_of_countPlaces_ne_zero {text : List Char} (h : countPlaces p text ≠ 0) :
    ∃ l r, text = l ++ r ∧ p l r = true := by
  rw [countPlaces, Ne, Nat.count_iff_forall_not] at h
  push Not at h
  obtain ⟨i, -, hi⟩ := h
  exact ⟨text.take i, text.drop i, (List.take_append_drop i text).symm, hi⟩

/-- A word is in a text as a whole word if it stands there and no name character touches it. -/
theorem hasWord_iff {word : List Char} (hne : word ≠ []) (hword : word.all isIdentChar = true)
    {text : List Char} : hasWord text word = true ↔ ∃ before after, text = before ++ (word ++ after) ∧
      before.getLast?.any isIdentChar = false ∧ after.head?.any isIdentChar = false := by
  rw [hasWord, countWord_eq hne hword, bne_iff_ne]
  constructor
  · intro h
    obtain ⟨before, rest, rfl, hplace⟩ := exists_of_countPlaces_ne_zero h
    obtain ⟨after, rfl, hbefore, hafter⟩ := standsAlone_iff.1 hplace
    exact ⟨before, after, rfl, hbefore, hafter⟩
  · rintro ⟨before, after, htext, hbefore, hafter⟩
    refine (countPlaces_pos htext (by simp [hne]) ?_).ne'
    exact standsAlone_iff.2 ⟨after, rfl, hbefore, hafter⟩

theorem endsWith_iff {text word : List Char} : endsWith text word = true ↔ word <:+ text := by
  rw [endsWith, startsWith_iff, List.reverse_prefix]

/-- A count moves with what it counts. -/
theorem count_eq_of_shift {f g : ℕ → Bool} {n k : ℕ} (hshort : ∀ i < k, f i = false)
    (hlong : ∀ j, n ≤ j + k → g j = false) (h : ∀ j, j + k < n → f (j + k) = g j) :
    Nat.count (fun i => f i) n = Nat.count (fun j => g j) n := by
  have hzero : Nat.count (fun i => f i) k = 0 := Nat.count_iff_forall_not.2 fun i hi => by simp [hshort i hi]
  rcases Nat.le_total n k with hle | hge
  · have hf : Nat.count (fun i => f i) n = 0 := Nat.le_zero.1 (hzero ▸ Nat.count_monotone _ hle)
    rw [hf, Nat.count_iff_forall_not.2]
    intro j hj
    simp [hlong j (hle.trans (Nat.le_add_left k j))]
  · obtain ⟨m, rfl⟩ := Nat.exists_eq_add_of_le' hge
    have hrest : Nat.count (fun j => g (m + j)) k = 0 :=
      Nat.count_iff_forall_not.2 fun j hj => by simp [hlong (m + j) (by omega)]
    rw [Nat.count_add', hzero, Nat.count_add, hrest]
    refine List.countP_congr fun j hj => ?_
    simp only [decide_eq_true_iff, h j (Nat.add_lt_add_right (List.mem_range.1 hj) k)]

/-- Places behind the word at which `p` holds, counted where the word begins. -/
theorem countPlaces_behind (word : List Char) (p : List Char → List Char → Bool) (text : List Char) :
    countPlaces (fun l r => endsWith l word && p l r) text = countPlaces (fun l r =>
      (dropPrefix? word r).any fun rest => !rest.isEmpty && p (l ++ word) rest) text := by
  refine count_eq_of_shift (k := word.length) (fun i hi => ?_) (fun j hj => ?_) fun j hj => ?_
  · rw [Bool.and_eq_false_iff, Bool.eq_false_iff, Ne, endsWith_iff]
    refine .inl fun hword => hi.not_ge (hword.length_le.trans ?_)
    exact List.length_take_le _ _
  · rw [Bool.eq_false_iff, Ne, Option.any_eq_true]
    rintro ⟨rest, hrest, hplace⟩
    rw [dropPrefix?_eq_some_iff] at hrest
    have hempty : rest = [] := by
      have hlength := congrArg List.length hrest
      rw [List.length_drop, List.length_append] at hlength
      exact List.length_eq_zero_iff.1 (by omega)
    simp [hempty] at hplace
  · have htake : text.take (j + word.length) = text.take j ++ (text.drop j).take word.length := List.take_add
    have hlength : ((text.drop j).take word.length).length = word.length := by
      rw [List.length_take, List.length_drop]
      omega
    have hrest : (!(text.drop (j + word.length)).isEmpty) = true := by
      rw [Bool.not_eq_true', List.isEmpty_eq_false_iff, Ne, List.drop_eq_nil_iff]
      exact hj.not_ge
    rw [htake, Bool.eq_iff_iff, Bool.and_eq_true, endsWith_iff, Option.any_eq_true]
    constructor
    · rintro ⟨hword, hp⟩
      have heq : word = (text.drop j).take word.length :=
        (List.suffix_of_suffix_length_le hword (List.suffix_append _ _) hlength.ge).eq_of_length hlength.symm
      refine ⟨text.drop (j + word.length), dropPrefix?_eq_some_iff.2 ?_, Bool.and_eq_true_iff.2 ⟨hrest, ?_⟩⟩
      · conv_lhs => rw [← List.take_append_drop word.length (text.drop j), ← heq, List.drop_drop]
      · rwa [← heq] at hp
    · rintro ⟨rest, hdrop, hp⟩
      rw [dropPrefix?_eq_some_iff] at hdrop
      have hbehind : text.drop (j + word.length) = rest := by rw [← List.drop_drop, hdrop, List.drop_left]
      rw [hdrop, List.take_left, hbehind]
      exact ⟨List.suffix_append _ _, (Bool.and_eq_true_iff.1 hp).2⟩

end Recast.Text
