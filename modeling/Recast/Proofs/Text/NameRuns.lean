import Mathlib
import Recast.Proofs.Text.Encoding
import Recast.Proofs.Text.WordPlaces

/-!
# Runs of name bytes

A whole word is a run of name bytes that is as long as can be. So the whole words that are counted are
the runs of the text that equal the word, although the scan goes on behind each occurrence and may have
taken one that is no whole word (`countWord_eq_count_runs`). Every byte of a name is a character, and
the bytes of characters beyond ASCII are no bytes of a name, so bytes and characters have the same runs.
-/

namespace Recast.Text

section

variable {α : Type} [DecidableEq α] {p : α → Bool} {word before rest : List α}

/-- The stretches between the elements that are not of the class, less the empty ones. -/
def runs (p : α → Bool) (xs : List α) : List (List α) := (xs.splitOnP (!p ·)).filter (!·.isEmpty)

/-- The word stands at place `i`, and no element of the class touches it. -/
def IsWholeAt (p : α → Bool) (word xs : List α) (i : ℕ) : Prop :=
  ∃ before after, xs = before ++ (word ++ after) ∧ before.length = i ∧
    before.getLast?.any p = false ∧ after.head?.any p = false

/-- The rest begins with the word, and no element of the class touches it. -/
def isWhole (p : α → Bool) (word before rest : List α) : Bool :=
  word.isPrefixOf rest && !before.getLast?.any p && !(rest.drop word.length).head?.any p

theorem isWhole_iff : isWhole p word before rest = true ↔
    ∃ after, rest = word ++ after ∧ before.getLast?.any p = false ∧ after.head?.any p = false := by
  rw [isWhole, Bool.and_eq_true, Bool.and_eq_true, List.isPrefixOf_iff_prefix, Bool.not_eq_true', Bool.not_eq_true']
  constructor
  · rintro ⟨⟨⟨after, rfl⟩, hbefore⟩, hafter⟩
    exact ⟨after, rfl, hbefore, by rwa [List.drop_left] at hafter⟩
  · rintro ⟨after, rfl, hbefore, hafter⟩
    exact ⟨⟨List.prefix_append _ _, hbefore⟩, by rwa [List.drop_left]⟩

/-- Number of places of the rest at which the word is whole. -/
def wholeCount (p : α → Bool) (word before rest : List α) : ℕ :=
  Nat.count (fun i => isWhole p word (before ++ rest.take i) (rest.drop i) = true) rest.length

theorem wholeCount_cons (before : List α) (x : α) (r : List α) : wholeCount p word before (x :: r) =
    wholeCount p word (before ++ [x]) r + if isWhole p word before (x :: r) then 1 else 0 := by
  rw [wholeCount, List.length_cons, Nat.count_succ']
  simp [wholeCount]

theorem ncard_isWholeAt (hne : word ≠ []) (xs : List α) :
    {i | IsWholeAt p word xs i}.ncard = wholeCount p word [] xs := by
  have hset : {i | IsWholeAt p word xs i} =
      ((Finset.range xs.length).filter fun i => isWhole p word ([] ++ xs.take i) (xs.drop i) = true : Finset ℕ) := by
    ext i
    simp only [Set.mem_ofPred_eq, Finset.coe_filter, Finset.mem_range, List.nil_append, isWhole_iff]
    constructor
    · rintro ⟨before, after, rfl, rfl, hbefore, hafter⟩
      have hpos := List.length_pos_iff.2 hne
      simp only [List.length_append, List.take_left, List.drop_left]
      exact ⟨by omega, after, rfl, hbefore, hafter⟩
    · rintro ⟨hi, after, hrest, hbefore, hafter⟩
      exact ⟨xs.take i, after, by rw [← hrest, List.take_append_drop], List.length_take_of_le hi.le, hbefore, hafter⟩
  rw [hset, Set.ncard_coe_finset, wholeCount, Nat.count_eq_card_filter_range]

omit [DecidableEq α] in
/-- The first stretch is what stands before the first element that is not of the class. -/
theorem splitOnP_eq_takeWhile_cons (p : α → Bool) (xs : List α) :
    ∃ ss, xs.splitOnP (!p ·) = xs.takeWhile p :: ss := by
  induction xs with
  | nil => exact ⟨[], List.splitOnP_nil⟩
  | cons x r ih =>
    obtain ⟨ss, hss⟩ := ih
    rw [List.splitOnP_cons_eq_if_modifyHead, hss]
    cases hx : p x with
    | false => exact ⟨_, by rw [List.takeWhile_cons_of_neg (by simp [hx])]; rfl⟩
    | true => exact ⟨ss, by rw [List.takeWhile_cons_of_pos hx]; rfl⟩

/-- A word of the class is whole where it is the stretch that begins there. -/
theorem isWhole_iff_takeWhile (hword : ∀ x ∈ word, p x = true) :
    isWhole p word before rest = true ↔ before.getLast?.any p = false ∧ rest.takeWhile p = word := by
  rw [isWhole_iff]
  constructor
  · rintro ⟨after, rfl, hbefore, hafter⟩
    have hstop : after.takeWhile p = [] := by
      cases after with
      | nil => rfl
      | cons x r => exact List.takeWhile_cons_of_neg (by simpa using hafter)
    exact ⟨hbefore, by rw [List.takeWhile_append_of_pos hword, hstop, List.append_nil]⟩
  · rintro ⟨hbefore, rfl⟩
    refine ⟨rest.dropWhile p, List.takeWhile_append_dropWhile.symm, hbefore, ?_⟩
    have hhead := List.head?_dropWhile_not p rest
    cases hx : (rest.dropWhile p).head? with
    | none => rfl
    | some x => simpa [hx] using hhead

/-- The places of a word are counted stretch by stretch; the first stretch goes on with an open run, if
there is one, and is no word then. -/
theorem wholeCount_eq_count (hne : word ≠ []) (hword : ∀ x ∈ word, p x = true) (before rest : List α) :
    wholeCount p word before rest =
      if before.getLast?.any p then (rest.splitOnP (!p ·)).tail.count word
      else (rest.splitOnP (!p ·)).count word := by
  induction rest generalizing before with
  | nil =>
    have hnil : ([[]] : List (List α)).count word = 0 := by simpa [List.count_eq_zero] using hne
    rw [List.splitOnP_nil, hnil]
    cases before.getLast?.any p <;> rfl
  | cons x r ih =>
    have hlast : (before ++ [x]).getLast?.any p = p x := by rw [List.getLast?_concat, Option.any_some]
    obtain ⟨ss, hss⟩ := splitOnP_eq_takeWhile_cons p r
    rw [wholeCount_cons, ih, hlast, List.splitOnP_cons_eq_if_modifyHead]
    cases hx : p x with
    | false =>
      -- No word begins here, and every run that is open ends.
      have hhere : isWhole p word before (x :: r) = false := by
        rw [Bool.eq_false_iff, Ne, isWhole_iff_takeWhile hword, List.takeWhile_cons_of_neg (by simp [hx])]
        exact fun h => hne h.2.symm
      simp [hhere, hne.symm]
    | true =>
      have hhere : isWhole p word before (x :: r) = (!before.getLast?.any p && x :: r.takeWhile p == word) := by
        rw [Bool.eq_iff_iff, isWhole_iff_takeWhile hword, List.takeWhile_cons_of_pos hx]
        simp
      cases hbefore : before.getLast?.any p <;> simp [hhere, hss, hbefore, List.count_cons]

theorem count_runs (hne : word ≠ []) (hword : ∀ x ∈ word, p x = true) (xs : List α) :
    (runs p xs).count word = wholeCount p word [] xs := by
  rw [wholeCount_eq_count hne hword, runs, List.count_filter (by simpa using hne)]
  rfl

end

/-! ### Bytes and characters -/

section

variable {α : Type} {p : α → Bool}

/-- Elements that are not of the class belong to no run. -/
theorem runs_append_of_not {xs : List α} (h : ∀ x ∈ xs, p x = false) (ys : List α) :
    runs p (xs ++ ys) = runs p ys := by
  induction xs with
  | nil => rfl
  | cons x xs ih =>
    obtain ⟨hx, hxs⟩ := List.forall_mem_cons.1 h
    rw [List.cons_append, runs, List.splitOnP_cons_eq_if_modifyHead, if_pos (by simp [hx])]
    exact ih hxs

/-- A run that is as long as can be is the first one. -/
theorem runs_append_of_forall {w xs : List α} (hne : w ≠ []) (hw : ∀ x ∈ w, p x = true)
    (hxs : ∀ x ∈ xs.head?, p x = false) : runs p (w ++ xs) = w :: runs p xs := by
  have hself : w.splitOnP (!p ·) = [w] := List.splitOnP_eq_singleton fun x hx => by simp [hw x hx]
  cases xs with
  | nil => simp [runs, hself, hne, List.splitOnP_nil]
  | cons x xs =>
    have hx : p x = false := hxs x rfl
    have hrest : runs p (x :: xs) = runs p xs := runs_append_of_not (List.forall_mem_singleton.2 hx) xs
    rw [hrest, runs, List.splitOnP_append_cons w xs (by simp [hx]), hself, List.singleton_append,
      List.filter_cons_of_pos (by simpa using hne)]
    rfl

end

/-- An ASCII letter or digit, an underscore or a dollar sign. -/
def isNameByte (b : UInt8) : Bool := isIdentChar (Char.ofNat b.toNat)

/-- An ASCII character is its byte, and all bytes of other characters lie above ASCII. -/
theorem utf8EncodeChar_cases (c : Char) : String.utf8EncodeChar c = [UInt8.ofNat c.toNat] ∧ c.toNat < 128 ∨
    128 ≤ c.toNat ∧ ∀ b ∈ String.utf8EncodeChar c, 128 ≤ b.toNat := by
  have hbyte {n : ℕ} (hn : n < 256) (hlow : 128 ≤ n) : 128 ≤ (UInt8.ofNat n).toNat := by
    rwa [UInt8.toNat_ofNat_of_lt' hn]
  unfold String.utf8EncodeChar
  simp only [← Char.toNat_val]
  split
  · exact .inl ⟨rfl, by omega⟩
  right
  refine ⟨by omega, ?_⟩
  split
  · simp only [List.forall_mem_cons]
    exact ⟨hbyte (by omega) (by omega), hbyte (by omega) (by omega), by simp⟩
  split
  · simp only [List.forall_mem_cons]
    exact ⟨hbyte (by omega) (by omega), hbyte (by omega) (by omega), hbyte (by omega) (by omega), by simp⟩
  · simp only [List.forall_mem_cons]
    exact ⟨hbyte (by omega) (by omega), hbyte (by omega) (by omega), hbyte (by omega) (by omega),
      hbyte (by omega) (by omega), by simp⟩

theorem toNat_lt_of_isIdentChar {c : Char} (h : isIdentChar c = true) : c.toNat < 128 := by
  simp only [isIdentChar, Char.isAlphanum, Char.isAlpha, Char.isUpper, Char.isLower, Char.isDigit,
    Bool.or_eq_true, Bool.and_eq_true, decide_eq_true_iff, beq_iff_eq, UInt32.le_iff_toNat_le, ge_iff_le] at h
  rcases h with (h | rfl) | rfl
  · have hupper : 'Z'.val.toNat = 90 := rfl
    have hlower : 'z'.val.toNat = 122 := rfl
    have hdigit : '9'.val.toNat = 57 := rfl
    rw [← Char.toNat_val]
    omega
  · decide
  · decide

theorem isNameByte_of_mem {c : Char} {b : UInt8} (hb : b ∈ String.utf8EncodeChar c) :
    isNameByte b = isIdentChar c := by
  rcases utf8EncodeChar_cases c with ⟨hbytes, hc⟩ | ⟨hc, hbytes⟩
  · rw [hbytes, List.mem_singleton] at hb
    rw [hb, isNameByte, UInt8.toNat_ofNat_of_lt' (by omega : c.toNat < 256), Char.ofNat_toNat]
  · have hbig {d : Char} (hd : 128 ≤ d.toNat) : isIdentChar d = false :=
      Bool.eq_false_iff.2 fun h => hd.not_gt (toNat_lt_of_isIdentChar h)
    have hvalid : b.toNat.isValidChar := .inl (b.toNat_lt.trans (by decide))
    have hchar : (Char.ofNat b.toNat).toNat = b.toNat := by
      rw [Char.ofNat, dif_pos hvalid]
      rfl
    rw [hbig hc, isNameByte, hbig]
    rw [hchar]
    exact hbytes b hb

theorem utf8_append (a b : List Char) : utf8 (a ++ b) = utf8 a ++ utf8 b := List.flatMap_append

theorem utf8_injective : Function.Injective utf8 := Function.LeftInverse.injective decode_utf8

theorem utf8_eq_nil {text : List Char} : utf8 text = [] ↔ text = [] := utf8_injective.eq_iff' utf8_nil

theorem forall_isNameByte_iff {text : List Char} :
    (∀ b ∈ utf8 text, isNameByte b = true) ↔ ∀ c ∈ text, isIdentChar c = true := by
  simp only [utf8, List.mem_flatMap]
  constructor
  · intro h c hc
    obtain ⟨b, hb⟩ := List.exists_mem_of_ne_nil _ (String.utf8EncodeChar_ne_nil (c := c))
    rw [← isNameByte_of_mem hb]
    exact h b ⟨c, hc, hb⟩
  · rintro h b ⟨c, hc, hb⟩
    rw [isNameByte_of_mem hb]
    exact h c hc

theorem isNameByte_of_mem_head? {text : List Char} (h : ∀ c ∈ text.head?, isIdentChar c = false) :
    ∀ b ∈ (utf8 text).head?, isNameByte b = false := by
  cases text with
  | nil => simp
  | cons c r =>
    intro b hb
    rw [utf8_cons, List.head?_append_of_ne_nil _ String.utf8EncodeChar_ne_nil] at hb
    rw [isNameByte_of_mem (List.mem_of_mem_head? hb), h c rfl]

/-- The runs of the bytes are the bytes of the runs. -/
theorem runs_utf8 (text : List Char) : runs isNameByte (utf8 text) = (runs isIdentChar text).map utf8 := by
  induction hn : text.length using Nat.strong_induction_on generalizing text with
  | _ n ih =>
    -- Either no run begins here, or one is taken as a whole.
    obtain ⟨w, rest, rfl, hw, hrest⟩ : ∃ w rest, text = w ++ rest ∧ (∀ c ∈ w, isIdentChar c = true) ∧
        ∀ c ∈ rest.head?, isIdentChar c = false := by
      refine ⟨text.takeWhile isIdentChar, text.dropWhile isIdentChar, List.takeWhile_append_dropWhile.symm,
        List.all_eq_true.1 List.all_takeWhile, fun c hc => ?_⟩
      have hhead := List.head?_dropWhile_not isIdentChar text
      rwa [Option.mem_def.1 hc] at hhead
    by_cases hne : w = []
    · subst hne
      cases rest with
      | nil => rfl
      | cons c r =>
        have hc : isIdentChar c = false := hrest c rfl
        have hbytes : ∀ b ∈ String.utf8EncodeChar c, isNameByte b = false := fun b hb => by
          rw [isNameByte_of_mem hb, hc]
        have hskip : runs isIdentChar (c :: r) = runs isIdentChar r :=
          runs_append_of_not (List.forall_mem_singleton.2 hc) r
        rw [List.nil_append, utf8_cons, runs_append_of_not hbytes, hskip, ih r.length (by simp [← hn]) r rfl]
    · have hlt : rest.length < n := by
        rw [← hn, List.length_append]
        exact Nat.lt_add_of_pos_left (List.length_pos_iff.2 hne)
      rw [utf8_append, runs_append_of_forall (utf8_eq_nil.not.2 hne) (forall_isNameByte_iff.2 hw)
        (isNameByte_of_mem_head? hrest), runs_append_of_forall hne hw hrest, List.map_cons, ih rest.length hlt rest rfl]

/-- Whole words are counted as the runs of name bytes that equal the word, and at every place where the
word stands and no name byte touches it. -/
theorem countWord_eq_count_runs {text word : List Char} (hne : word ≠ [])
    (hword : ∀ b ∈ utf8 word, isNameByte b = true) :
    countWord text word = (runs isNameByte (utf8 text)).count (utf8 word) ∧
      countWord text word = {i | IsWholeAt isNameByte (utf8 word) (utf8 text) i}.ncard := by
  have hchars := forall_isNameByte_iff.1 hword
  have hbytes : utf8 word ≠ [] := utf8_eq_nil.not.2 hne
  have halone : standsAlone word = isWhole isIdentChar word := by
    funext before rest
    rw [Bool.eq_iff_iff, standsAlone_iff, isWhole_iff]
  have hcount : countWord text word = (runs isNameByte (utf8 text)).count (utf8 word) := by
    rw [countWord_eq hne (List.all_eq_true.2 hchars), halone, runs_utf8,
      List.count_map_of_injective _ _ utf8_injective, count_runs hne hchars]
    rfl
  exact ⟨hcount, by rw [hcount, count_runs hbytes hword, ncard_isWholeAt hbytes]⟩

/-- The occurrence at the start takes two of three letters, and the word behind it is still counted. -/
theorem countWord_behind_longer_run : countWord "aaa aa".toList "aa".toList = 1 ∧
    countWord "aaa aa".toList "aa".toList =
      (runs isNameByte (utf8 "aaa aa".toList)).count (utf8 "aa".toList) :=
  ⟨by decide, (countWord_eq_count_runs (by decide) (List.all_eq_true.1 (by decide))).1⟩

end Recast.Text
