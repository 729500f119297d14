import Mathlib
import Recast.Text.Case

/-!
# Words of compound names

A text of letters and digits is cut into words, and the second word and all later ones
begin with a capital. So the spelling `userProfile` changes nothing but the case of the
first word: two names have it in common exactly if they agree after their first words, and
in these up to case (`camelCase_eq_iff`).
-/

namespace Recast.Text

/-- The text is empty or begins with a capital. -/
def Capitalized (text : List Char) : Prop := ∀ c ∈ text.head?, c.isUpper = true

/-- The texts have the same words but for the case of the letters in the first. -/
def AgreeAfterFirst (a b : List Char) : Prop :=
  ∃ w w' ws, words a = w :: ws ∧ words b = w' :: ws ∧ lowercase w = lowercase w'

theorem isUpper_of_startsWord {cur : List Char} {c : Char} {next : Option Char}
    (h : startsWord cur c next = true) : c.isUpper = true := by
  simp only [startsWord, Bool.and_eq_true] at h
  exact h.1.1

theorem wordsFrom_nil_cons {c : Char} (hc : c.isAlphanum = true) (r : List Char) :
    wordsFrom [] (c :: r) = wordsFrom [c] r := by
  simp [wordsFrom, hc, startsWord]

/-- The word that is open ends where a capital begins the next one. -/
theorem wordsFrom_eq_cons {cur text : List Char} (hcur : cur ≠ [])
    (htext : ∀ c ∈ text, c.isAlphanum = true) :
    ∃ p q, text = p ++ q ∧ wordsFrom cur text = (cur.reverse ++ p) :: words q ∧ Capitalized q := by
  induction text generalizing cur with
  | nil => exact ⟨[], [], rfl, by simp [wordsFrom, words, hcur], by simp [Capitalized]⟩
  | cons c r ih =>
    obtain ⟨hc, hr⟩ := List.forall_mem_cons.1 htext
    by_cases hstart : startsWord cur c r.head? = true
    · refine ⟨[], c :: r, rfl, ?_, by simpa [Capitalized] using isUpper_of_startsWord hstart⟩
      rw [words, wordsFrom_nil_cons hc, wordsFrom, if_neg (by simp [hc]), if_pos hstart, List.append_nil]
    · obtain ⟨p, q, rfl, hwords, hq⟩ := ih (List.cons_ne_nil c cur) hr
      refine ⟨c :: p, q, rfl, ?_, hq⟩
      rw [wordsFrom, if_neg (by simp [hc]), if_neg hstart, hwords]
      simp

theorem words_eq_cons {text : List Char} (hne : text ≠ []) (htext : ∀ c ∈ text, c.isAlphanum = true) :
    ∃ w q, text = w ++ q ∧ words text = w :: words q ∧ w ≠ [] ∧ Capitalized q := by
  obtain ⟨c, r, rfl⟩ := List.exists_cons_of_ne_nil hne
  obtain ⟨hc, hr⟩ := List.forall_mem_cons.1 htext
  obtain ⟨p, q, rfl, hwords, hq⟩ := wordsFrom_eq_cons (List.cons_ne_nil c []) hr
  exact ⟨c :: p, q, rfl, by rw [words, wordsFrom_nil_cons hc, hwords]; rfl, List.cons_ne_nil c p, hq⟩

theorem capitalize_of_capitalized {text : List Char} (h : Capitalized text) : capitalize text = text := by
  cases text with
  | nil => rfl
  | cons c r =>
    have hc : c.isUpper = true := h c rfl
    rw [capitalize, Char.toUpper_eq_of_not_isLower (Char.not_isLower_of_isUpper hc)]

/-- A text that begins with a capital is its own spelling `UserProfile`. -/
theorem pascalCase_of_capitalized {text : List Char} (hcap : Capitalized text)
    (htext : ∀ c ∈ text, c.isAlphanum = true) : pascalCase text = text := by
  induction hn : text.length using Nat.strong_induction_on generalizing text with
  | _ n ih =>
    by_cases hne : text = []
    · subst hne
      rfl
    · obtain ⟨w, q, rfl, hwords, hw, hq⟩ := words_eq_cons hne htext
      obtain ⟨c, p, rfl⟩ := List.exists_cons_of_ne_nil hw
      have hrest : pascalCase q = q :=
        ih q.length (by simp [← hn]) hq (fun d hd => htext d (List.mem_append_right _ hd)) rfl
      have hfirst : capitalize (c :: p) = c :: p := capitalize_of_capitalized hcap
      rw [pascalCase, hwords, List.flatMap_cons, hfirst]
      exact congrArg ((c :: p) ++ ·) hrest

/-- Of a text of letters and digits only the first character is changed. -/
theorem pascalCase_of_isAlphanum {text : List Char} (htext : ∀ c ∈ text, c.isAlphanum = true) :
    pascalCase text = capitalize text := by
  by_cases hne : text = []
  · subst hne
    rfl
  · obtain ⟨w, q, rfl, hwords, hw, hq⟩ := words_eq_cons hne htext
    obtain ⟨c, p, rfl⟩ := List.exists_cons_of_ne_nil hw
    have hrest : (words q).flatMap capitalize = q :=
      pascalCase_of_capitalized hq fun d hd => htext d (List.mem_append_right _ hd)
    rw [pascalCase, hwords, List.flatMap_cons, hrest]
    rfl

/-- A character that is neither letter nor digit ends the word that is open. -/
theorem wordsFrom_append_cons {sep : Char} (hsep : sep.isAlphanum = false) (cur text rest : List Char)
    (htext : ∀ c ∈ text, c.isAlphanum = true) :
    wordsFrom cur (text ++ sep :: rest) = wordsFrom cur text ++ words rest := by
  have hlower : sep.isLower = false := by
    cases hl : sep.isLower with
    | false => rfl
    | true => simp [Char.isAlphanum, Char.isAlpha, hl] at hsep
  induction text generalizing cur with
  | nil =>
    cases cur <;> simp [wordsFrom, words, hsep]
  | cons c r ih =>
    obtain ⟨hc, hr⟩ := List.forall_mem_cons.1 htext
    -- Before its end a text has the same next character, and behind its end no small letter.
    have hnext : startsWord cur c (r ++ sep :: rest).head? = startsWord cur c r.head? := by
      cases r with
      | nil => simp [startsWord, hlower]
      | cons d r => rfl
    have hstep (rest : List Char) : wordsFrom cur (c :: rest) =
        if startsWord cur c rest.head? then cur.reverse :: wordsFrom [c] rest else wordsFrom (c :: cur) rest := by
      rw [wordsFrom, hc]
      rfl
    rw [List.cons_append, hstep, hstep, hnext, ih _ hr, ih _ hr]
    split <;> rfl

theorem pascalCase_append_cons {sep : Char} (hsep : sep.isAlphanum = false) {text : List Char} (rest : List Char)
    (htext : ∀ c ∈ text, c.isAlphanum = true) :
    pascalCase (text ++ sep :: rest) = pascalCase text ++ pascalCase rest := by
  rw [pascalCase, words, wordsFrom_append_cons hsep [] text rest htext, List.flatMap_append]
  rfl

/-- The stretches of letters and digits, with empty ones where other characters meet. -/
def alphanumRuns (text : List Char) : List (List Char) := text.splitOnP (!·.isAlphanum)

/-- The spelling `UserProfile` puts the stretches together, each with a capital at its start. -/
theorem pascalCase_eq_flatMap (text : List Char) : pascalCase text = (alphanumRuns text).flatMap capitalize := by
  induction hn : text.length using Nat.strong_induction_on generalizing text with
  | _ n ih =>
    obtain ⟨run, tail, rfl, hrun, htail⟩ : ∃ run tail, text = run ++ tail ∧ (∀ c ∈ run, c.isAlphanum = true) ∧
        ∀ c ∈ tail.head?, c.isAlphanum = false := by
      refine ⟨text.takeWhile (·.isAlphanum), text.dropWhile (·.isAlphanum), List.takeWhile_append_dropWhile.symm,
        fun c hc => List.mem_takeWhile_imp hc, fun c hc => ?_⟩
      have hhead := List.head?_dropWhile_not (·.isAlphanum) text
      rwa [Option.mem_def.1 hc] at hhead
    have hfirst : (alphanumRuns run).flatMap capitalize = pascalCase run := by
      rw [alphanumRuns, List.splitOnP_eq_singleton (by simpa using hrun), List.flatMap_singleton,
        pascalCase_of_isAlphanum hrun]
    cases tail with
    | nil => rw [List.append_nil, hfirst]
    | cons sep rest =>
      have hsep : sep.isAlphanum = false := htail sep rfl
      have hrest : (alphanumRuns rest).flatMap capitalize = pascalCase rest :=
        (ih rest.length (by simp only [List.length_append, List.length_cons] at hn; omega) rest rfl).symm
      have hruns : alphanumRuns (run ++ sep :: rest) = alphanumRuns run ++ alphanumRuns rest :=
        List.splitOnP_append_cons _ _ (by simpa using hsep)
      rw [pascalCase_append_cons hsep rest hrun, hruns, List.flatMap_append, hfirst, hrest]

theorem camelCase_of_words {text w : List Char} {ws : List (List Char)} (h : words text = w :: ws) :
    camelCase text = lowercase w ++ ws.flatMap capitalize := by
  simp [camelCase, h]

/-- The spelling `userProfile` changes the case of the first word only. -/
theorem camelCase_eq_append {text : List Char} (hne : text ≠ []) (htext : ∀ c ∈ text, c.isAlphanum = true) :
    ∃ w q, words text = w :: words q ∧ camelCase text = lowercase w ++ q ∧ Capitalized q := by
  obtain ⟨w, q, rfl, hwords, -, hq⟩ := words_eq_cons hne htext
  have hrest : (words q).flatMap capitalize = q :=
    pascalCase_of_capitalized hq fun c hc => htext c (List.mem_append_right _ hc)
  exact ⟨w, q, hwords, by rw [camelCase_of_words hwords, hrest], hq⟩

/-- A text without capitals and what begins with one are read back from their append. -/
theorem takeWhile_lowercase_append {w q : List Char} (hq : Capitalized q) :
    (lowercase w ++ q).takeWhile (!·.isUpper) = lowercase w ∧
      (lowercase w ++ q).dropWhile (!·.isUpper) = q := by
  have hlow : ∀ c ∈ lowercase w, (!c.isUpper) = true := by
    intro c hc
    obtain ⟨d, -, rfl⟩ := List.mem_map.1 hc
    simp
  rw [List.takeWhile_append_of_pos hlow, List.dropWhile_append_of_pos hlow]
  cases q with
  | nil => simp
  | cons c r =>
    have hc : c.isUpper = true := hq c rfl
    simp [hc]

theorem camelCase_eq_iff {a b : List Char} (hane : a ≠ []) (ha : ∀ c ∈ a, c.isAlphanum = true)
    (hbne : b ≠ []) (hb : ∀ c ∈ b, c.isAlphanum = true) :
    camelCase a = camelCase b ↔ AgreeAfterFirst a b := by
  constructor
  · intro h
    obtain ⟨w, q, hwords, hcamel, hq⟩ := camelCase_eq_append hane ha
    obtain ⟨w', q', hwords', hcamel', hq'⟩ := camelCase_eq_append hbne hb
    rw [hcamel, hcamel'] at h
    obtain ⟨hfirst, hrest⟩ := takeWhile_lowercase_append (w := w) hq
    obtain ⟨hfirst', hrest'⟩ := takeWhile_lowercase_append (w := w') hq'
    rw [h, hfirst'] at hfirst
    rw [h, hrest'] at hrest
    exact ⟨w, w', words q, hwords, hrest ▸ hwords', hfirst.symm⟩
  · rintro ⟨w, w', ws, hwords, hwords', hw⟩
    rw [camelCase_of_words hwords, camelCase_of_words hwords', hw]

end Recast.Text
