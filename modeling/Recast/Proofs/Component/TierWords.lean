import Mathlib.Data.List.MinMax
import Mathlib.Data.List.Nodup
import Mathlib.Data.Prod.Lex
import Recast.Component.Tier
import Recast.Proofs.Text.Occurrence
import Recast.Text.Cut

/-!
# The word that decides on a tier

The search keeps the best of the last occurrences of each word. That is the best of all occurrences of all words,
in whatever order the words are tried: the one that ends last, and of two that end together the longer
(`resolveBy_eq_iff`). Places are compared by the ASCII characters up to them, so it does not matter what the small
form of a name makes of its other characters.
-/

namespace Recast.Tier

open Text

/-! ### The small form of a name -/

def isAscii (c : Char) : Bool := c.toNat < 128

/-- What becomes of a character in small letters. Two characters beyond ASCII become a text with an ASCII letter. Of
the others no more is said than that they become something beyond ASCII. -/
inductive IsSmall : Char → List Char → Prop
  | ascii {c : Char} : isAscii c = true → IsSmall c [c.toLower]
  | kelvin : IsSmall '\u212A' ['k']
  | dotted : IsSmall '\u0130' ['i', '\u0307']
  | other {c : Char} {u : List Char} : isAscii c = false → c ≠ '\u212A' → c ≠ '\u0130' → u ≠ [] →
      (∀ d ∈ u, isAscii d = false) → IsSmall c u

/-- The second text is the first in small letters. -/
inductive SmallForm : List Char → List Char → Prop
  | nil : SmallForm [] []
  | cons {c : Char} {u r s : List Char} : IsSmall c u → SmallForm r s → SmallForm (c :: r) (u ++ s)

theorem isSmall_lowerChar (c : Char) : IsSmall c (lowerChar c) := by
  unfold lowerChar
  split
  · rename_i h
    rw [beq_iff_eq] at h
    exact h ▸ .kelvin
  split
  · rename_i h
    rw [beq_iff_eq] at h
    exact h ▸ .dotted
  rename_i hkelvin hdotted
  rw [beq_iff_eq] at hkelvin hdotted
  cases hascii : isAscii c with
  | true => exact .ascii hascii
  | false =>
    -- Beyond ASCII there are no capitals for it to change.
    have hlower : c.toLower = c := by
      unfold Char.toLower
      rw [dif_neg]
      rintro ⟨-, hle⟩
      have hle : c.toNat ≤ 90 := hle
      simp [isAscii] at hascii
      omega
    refine .other hascii hkelvin hdotted (List.cons_ne_nil _ _) ?_
    rw [hlower]
    simpa using hascii

theorem smallForm_flatMap (name : List Char) : SmallForm name (name.flatMap lowerChar) := by
  induction name with
  | nil => exact .nil
  | cons c r ih => exact .cons (isSmall_lowerChar c) ih

/-! ### Texts with the same ASCII characters -/

/-- The texts are the same but for stretches beyond ASCII, which stand at the same places. -/
inductive Alike : List Char → List Char → Prop
  | nil : Alike [] []
  | same (c : Char) {s t : List Char} : Alike s t → Alike (c :: s) (c :: t)
  | beyond {u v s t : List Char} : (∀ d ∈ u, isAscii d = false) → (∀ d ∈ v, isAscii d = false) → u ≠ [] → v ≠ [] →
      Alike s t → Alike (u ++ s) (v ++ t)

theorem Alike.append_left (u : List Char) {s t : List Char} (h : Alike s t) : Alike (u ++ s) (u ++ t) := by
  induction u with
  | nil => exact h
  | cons c u ih => exact .same c ih

theorem IsSmall.alike {c : Char} {u v s t : List Char} (hu : IsSmall c u) (hv : IsSmall c v) (h : Alike s t) :
    Alike (u ++ s) (v ++ t) := by
  have hkelvin : isAscii '\u212A' = false := by decide
  have hdotted : isAscii '\u0130' = false := by decide
  cases hu with
  | ascii hc =>
    cases hv with
    | ascii => exact h.append_left _
    | kelvin => simp [hkelvin] at hc
    | dotted => simp [hdotted] at hc
    | other hc' => simp [hc'] at hc
  | kelvin =>
    cases hv with
    | ascii hc => simp [hkelvin] at hc
    | kelvin => exact h.append_left _
    | other _ hne => exact absurd rfl hne
  | dotted =>
    cases hv with
    | ascii hc => simp [hdotted] at hc
    | dotted => exact h.append_left _
    | other _ _ hne => exact absurd rfl hne
  | other hc hk hd hne hall =>
    cases hv with
    | ascii hc' => simp [hc] at hc'
    | kelvin => exact absurd rfl hk
    | dotted => exact absurd rfl hd
    | other _ _ _ hne' hall' => exact .beyond hall hall' hne hne' h

theorem SmallForm.alike {name s t : List Char} (hs : SmallForm name s) (ht : SmallForm name t) : Alike s t := by
  induction hs generalizing t with
  | nil =>
    cases ht
    exact .nil
  | cons hu _ ih =>
    cases ht with
    | cons hv ht => exact hu.alike hv (ih ht)

/-! ### Places of words -/

/-- Up to the place the text ends in the word. -/
structure EndsIn (word place text : List Char) : Prop where
  ends : word <:+ place
  starts : place <+: text

/-- A word of the vocabulary. -/
structure IsPlain (word : List Char) : Prop where
  ne_nil : word ≠ []
  ascii : ∀ c ∈ word, isAscii c = true

def asciiCount (text : List Char) : Nat := text.countP isAscii

theorem asciiCount_append (u v : List Char) : asciiCount (u ++ v) = asciiCount u + asciiCount v := List.countP_append

theorem asciiCount_of_beyond {u : List Char} (h : ∀ d ∈ u, isAscii d = false) : asciiCount u = 0 :=
  List.countP_eq_zero.2 fun d hd => by simp [h d hd]

theorem Alike.starts {word s t : List Char} (h : Alike s t) (hascii : ∀ c ∈ word, isAscii c = true)
    (hs : word <+: s) : word <+: t := by
  induction h generalizing word with
  | nil => exact hs
  | same c _ ih =>
    cases word with
    | nil => exact List.nil_prefix
    | cons d word =>
      obtain ⟨rfl, htail⟩ := List.cons_prefix_cons.1 hs
      exact List.cons_prefix_cons.2 ⟨rfl, ih (List.forall_mem_cons.1 hascii).2 htail⟩
  | @beyond u v s t hu hv hne hne' h ih =>
    cases word with
    | nil => exact List.nil_prefix
    | cons d word =>
      obtain ⟨e, u, rfl⟩ := List.exists_cons_of_ne_nil hne
      obtain ⟨rfl, -⟩ := List.cons_prefix_cons.1 hs
      simp [hascii d List.mem_cons_self] at hu

/-- A word has no part in what stands beyond ASCII before it. -/
theorem IsPlain.suffix_of_beyond {word u p : List Char} (hword : IsPlain word) (hu : ∀ d ∈ u, isAscii d = false)
    (h : word <:+ u ++ p) : word <:+ p := by
  rcases List.suffix_or_suffix_of_suffix h (List.suffix_append u p) with h' | ⟨z, rfl⟩
  · exact h'
  · obtain ⟨y, hy⟩ := h
    rw [← List.append_assoc] at hy
    have hz : ∀ d ∈ z, d ∉ z := by
      intro d hd
      have hmem : d ∈ u := by
        rw [← List.append_cancel_right hy]
        exact List.mem_append_right y hd
      simpa [hword.ascii d (List.mem_append_left p hd)] using hu d hmem
    have hnil : z = [] := List.eq_nil_iff_forall_not_mem.2 fun d hd => hz d hd hd
    rw [hnil]
    exact List.suffix_refl p

/-- A word that stands in a text stands in every text like it, with as many ASCII characters up to its end. -/
theorem EndsIn.of_alike {word place s t : List Char} (hword : IsPlain word) (h : Alike s t) (hs : EndsIn word place s) :
    ∃ place', EndsIn word place' t ∧ asciiCount place' = asciiCount place := by
  induction h generalizing place with
  | nil =>
    exact ⟨place, hs, rfl⟩
  | same c h ih =>
    obtain ⟨hends, hstarts⟩ := hs
    cases place with
    | nil => exact absurd (List.suffix_nil.1 hends) hword.ne_nil
    | cons d place =>
      obtain ⟨rfl, htail⟩ := List.cons_prefix_cons.1 hstarts
      rcases List.suffix_cons_iff.1 hends with rfl | hends
      · have hall := (List.forall_mem_cons.1 hword.ascii).2
        exact ⟨d :: place, ⟨List.suffix_refl _, List.cons_prefix_cons.2 ⟨rfl, h.starts hall htail⟩⟩, rfl⟩
      · obtain ⟨place', ⟨hends', hstarts'⟩, hcount⟩ := ih ⟨hends, htail⟩
        refine ⟨d :: place', ⟨List.suffix_cons_iff.2 (.inr hends'), List.cons_prefix_cons.2 ⟨rfl, hstarts'⟩⟩, ?_⟩
        have hcons (p : List Char) : asciiCount (d :: p) = asciiCount [d] + asciiCount p := asciiCount_append [d] p
        rw [hcons, hcons place, hcount]
  | @beyond u v s t hu hv hne hne' h ih =>
    obtain ⟨hends, hstarts⟩ := hs
    rcases List.prefix_or_prefix_of_prefix hstarts (List.prefix_append u s) with hinside | ⟨p, rfl⟩
    · obtain ⟨c, hc⟩ := List.exists_mem_of_ne_nil word hword.ne_nil
      have hcontra := hu c (hinside.subset (hends.subset hc))
      rw [hword.ascii c hc] at hcontra
      cases hcontra
    · obtain ⟨place', ⟨hends', hstarts'⟩, hcount⟩ :=
        ih ⟨hword.suffix_of_beyond hu hends, (List.prefix_append_right_inj u).1 hstarts⟩
      refine ⟨v ++ place', ⟨hends'.trans (List.suffix_append v place'), (List.prefix_append_right_inj v).2 hstarts'⟩, ?_⟩
      rw [asciiCount_append, asciiCount_append, asciiCount_of_beyond hu, asciiCount_of_beyond hv, hcount]

/-- Of two places at which words end the one further on is further on in characters, in ASCII characters and in
bytes. -/
theorem EndsIn.lt_of_length_lt {word word' p q text : List Char} (hword' : IsPlain word') (hp : EndsIn word p text)
    (hq : EndsIn word' q text) (hlt : p.length < q.length) : asciiCount p < asciiCount q ∧ byteLength p < byteLength q := by
  obtain ⟨x, rfl⟩ := List.prefix_of_prefix_length_le hp.starts hq.starts hlt.le
  have hne : x ≠ [] := by
    rintro rfl
    simp at hlt
  have hlast : x.getLast hne ∈ word' := by
    obtain ⟨y, hy⟩ := hq.ends
    have heq : (y ++ word').getLast? = (p ++ x).getLast? := by rw [hy]
    rw [List.getLast?_append_of_ne_nil y hword'.ne_nil, List.getLast?_append_of_ne_nil p hne,
      List.getLast?_eq_some_getLast hne] at heq
    exact List.mem_of_getLast? heq
  constructor
  · have hpos : 0 < asciiCount x := List.countP_pos_iff.2 ⟨_, List.getLast_mem hne, hword'.ascii _ hlast⟩
    rw [asciiCount_append]
    omega
  · obtain ⟨c, r, rfl⟩ := List.exists_cons_of_ne_nil hne
    have hpos := c.utf8Size_pos
    rw [byteLength_append, byteLength]
    omega

theorem EndsIn.count_le {word word' p q text : List Char} (hp : EndsIn word p text) (hq : EndsIn word' q text)
    (h : p.length ≤ q.length) : asciiCount p ≤ asciiCount q :=
  (List.prefix_of_prefix_length_le hp.starts hq.starts h).sublist.countP_le

theorem EndsIn.length_le {word word' p q text : List Char} (hword : IsPlain word) (hp : EndsIn word p text)
    (hq : EndsIn word' q text) (h : asciiCount p ≤ asciiCount q) : p.length ≤ q.length :=
  Nat.le_of_not_lt fun hlt => absurd (hq.lt_of_length_lt hword hp hlt).1 (Nat.not_lt.2 h)

theorem EndsIn.eq_of_length_eq {word word' p q text : List Char} (hp : EndsIn word p text) (hq : EndsIn word' q text)
    (h : p.length = q.length) : p = q :=
  (List.prefix_of_prefix_length_le hp.starts hq.starts h.le).eq_of_length h

/-! ### The last occurrence -/

theorem endsIn_of_lastEnd? {word text : List Char} {n : Nat} (h : lastEnd? word text = some n) :
    ∃ place, EndsIn word place text ∧ place.length = n := by
  induction text generalizing n with
  | nil => cases h
  | cons c r ih =>
    rw [lastEnd?] at h
    split at h
    · rename_i m hm
      cases h
      obtain ⟨place, ⟨hends, hstarts⟩, rfl⟩ := ih hm
      exact ⟨c :: place, ⟨List.suffix_cons_iff.2 (.inr hends), List.cons_prefix_cons.2 ⟨rfl, hstarts⟩⟩, rfl⟩
    · split at h
      · rename_i hstarts
        cases h
        exact ⟨word, ⟨List.suffix_refl word, startsWith_iff.1 hstarts⟩, rfl⟩
      · cases h

theorem exists_lastEnd? {word place text : List Char} (hne : word ≠ []) (h : EndsIn word place text) :
    ∃ n, lastEnd? word text = some n ∧ place.length ≤ n := by
  induction text generalizing place with
  | nil =>
    obtain ⟨hends, hstarts⟩ := h
    rw [List.prefix_nil.1 hstarts] at hends
    exact absurd (List.suffix_nil.1 hends) hne
  | cons c r ih =>
    obtain ⟨hends, hstarts⟩ := h
    rw [lastEnd?]
    cases place with
    | nil => exact absurd (List.suffix_nil.1 hends) hne
    | cons d place =>
      obtain ⟨rfl, htail⟩ := List.cons_prefix_cons.1 hstarts
      rcases List.suffix_cons_iff.1 hends with rfl | hends
      · cases hlast : lastEnd? (d :: place) r with
        | some m =>
          -- The word also ends further on, and its own length is reached there.
          obtain ⟨place', ⟨hends', -⟩, rfl⟩ := endsIn_of_lastEnd? hlast
          exact ⟨_, rfl, hends'.length_le.trans (Nat.le_succ _)⟩
        | none =>
          dsimp only
          rw [if_pos (startsWith_iff.2 hstarts)]
          exact ⟨_, rfl, le_rfl⟩
      · obtain ⟨m, hm, hle⟩ := ih ⟨hends, htail⟩
        rw [hm]
        exact ⟨m + 1, rfl, Nat.succ_le_succ hle⟩

/-! ### The best candidate -/

/-- What candidates are compared by: the end, and then the length. -/
def Candidate.key (c : Candidate) : ℕ ×ₗ ℕ := toLex (c.stop, c.length)

theorem Candidate.beats_iff (a b : Candidate) : a.beats b = true ↔ b.key < a.key := by
  unfold Candidate.beats Candidate.key
  rw [Prod.Lex.toLex_lt_toLex, @eq_comm _ b.stop]
  simp only [Bool.or_eq_true, Bool.and_eq_true, decide_eq_true_eq, beq_iff_eq]

theorem foldl_best_eq (cs : List Candidate) : cs.foldl best none = cs.argmax Candidate.key := by
  have hstep : best = List.argAux fun b c : Candidate => c.key < b.key := by
    funext acc c
    cases acc with
    | none => rfl
    | some b =>
      show (if c.beats b = true then some c else some b) = if b.key < c.key then some c else some b
      simp only [Candidate.beats_iff]
  rw [hstep]
  rfl

theorem mem_candidates {words : List (List Char × Tier)} {text : List Char} {c : Candidate} :
    c ∈ candidates words text ↔ ∃ entry ∈ words, ∃ n, lastEnd? entry.1 text = some n ∧ c = ⟨n, entry.1.length, entry.2⟩ := by
  unfold candidates
  simp only [List.mem_filterMap, Option.map_eq_some_iff]
  constructor
  · rintro ⟨entry, hentry, n, hn, rfl⟩
    exact ⟨entry, hentry, n, hn, rfl⟩
  · rintro ⟨entry, hentry, n, hn, rfl⟩
    exact ⟨entry, hentry, n, hn, rfl⟩

/-! ### The deciding word -/

/-- An occurrence of the word in the text ends at the byte offset `stop`. -/
def EndsAt (word text : List Char) (stop : Nat) : Prop := ∃ place, EndsIn word place text ∧ byteLength place = stop

/-- Of all occurrences of words of the vocabulary in the text, one of this entry ends last, and those of other
entries that end with it are shorter. -/
structure Decides (text : List Char) (entry : List Char × Tier) : Prop where
  mem : entry ∈ vocabulary
  last : ∃ stop, EndsAt entry.1 text stop ∧ ∀ other ∈ vocabulary, ∀ stop', EndsAt other.1 text stop' →
    stop' < stop ∨ stop' = stop ∧ (other = entry ∨ other.1.length < entry.1.length)

theorem isPlain_of_mem {entry : List Char × Tier} (h : entry ∈ vocabulary) : IsPlain entry.1 := by
  have hall : vocabulary.all (fun entry => !entry.1.isEmpty && entry.1.all isAscii) = true := by decide +kernel
  have hentry := List.all_eq_true.1 hall entry h
  rw [Bool.and_eq_true, List.all_eq_true] at hentry
  exact ⟨by simpa using hentry.1, hentry.2⟩

/-- Each word stands for one tier. -/
theorem eq_of_word_eq {entry other : List Char × Tier} (h : entry ∈ vocabulary) (h' : other ∈ vocabulary)
    (hword : entry.1 = other.1) : entry = other := by
  have hnodup : (vocabulary.map Prod.fst).Nodup := by decide +kernel
  exact List.inj_on_of_nodup_map hnodup h h' hword

theorem Decides.unique {text : List Char} {entry other : List Char × Tier} (h : Decides text entry)
    (h' : Decides text other) : entry = other := by
  obtain ⟨stop, hstop, hlast⟩ := h.last
  obtain ⟨stop', hstop', hlast'⟩ := h'.last
  rcases hlast other h'.mem stop' hstop' with hlt | ⟨-, rfl | hlt⟩
  · rcases hlast' entry h.mem stop hstop with hlt' | ⟨heq, -⟩ <;> omega
  · rfl
  · rcases hlast' entry h.mem stop hstop with hlt' | ⟨-, rfl | hlt'⟩
    · rcases hlast other h'.mem stop' hstop' with hlt'' | ⟨heq, -⟩ <;> omega
    · rfl
    · omega

theorem infix_iff_endsIn {word text : List Char} : word <:+: text ↔ ∃ place, EndsIn word place text := by
  constructor
  · rintro ⟨u, v, h⟩
    exact ⟨u ++ word, ⟨⟨u, rfl⟩, ⟨v, h⟩⟩⟩
  · rintro ⟨place, ⟨⟨u, rfl⟩, ⟨v, h⟩⟩⟩
    exact ⟨u, v, h⟩

section

variable {words : List (List Char × Tier)} (hwords : words.Perm vocabulary) {name : String} {lowered : List Char}
  (h : SmallForm name.toList lowered)

include hwords h

/-- An occurrence in the small form of a name stands behind a candidate that ends no sooner. -/
theorem exists_candidate {entry : List Char × Tier} (hentry : entry ∈ vocabulary) {place : List Char}
    (hplace : EndsIn entry.1 place lowered) : ∃ place₀ n, EndsIn entry.1 place₀ (name.toList.flatMap lowerChar) ∧
      asciiCount place₀ = asciiCount place ∧ place₀.length ≤ n ∧
      ⟨n, entry.1.length, entry.2⟩ ∈ candidates words (name.toList.flatMap lowerChar) := by
  have hword := isPlain_of_mem hentry
  obtain ⟨place₀, hplace₀, hcount⟩ := hplace.of_alike hword (h.alike (smallForm_flatMap name.toList))
  obtain ⟨n, hn, hle⟩ := exists_lastEnd? hword.ne_nil hplace₀
  exact ⟨place₀, n, hplace₀, hcount, hle, mem_candidates.2 ⟨entry, hwords.mem_iff.2 hentry, n, hn, rfl⟩⟩

/-- The best candidate comes from the entry that decides. -/
theorem decides_of_argmax {c : Candidate}
    (hc : (candidates words (name.toList.flatMap lowerChar)).argmax Candidate.key = some c) :
    ∃ entry, Decides lowered entry ∧ c.tier = entry.2 := by
  obtain ⟨entry, hentry, n, hn, rfl⟩ := mem_candidates.1 (List.argmax_mem hc)
  rw [hwords.mem_iff] at hentry
  have hword := isPlain_of_mem hentry
  obtain ⟨place₀, hplace₀, rfl⟩ := endsIn_of_lastEnd? hn
  obtain ⟨place, hplace, hcount⟩ := hplace₀.of_alike hword ((smallForm_flatMap name.toList).alike h)
  refine ⟨entry, ⟨hentry, byteLength place, ⟨place, hplace, rfl⟩, ?_⟩, rfl⟩
  rintro other hother _ ⟨place', hplace', rfl⟩
  have hword' := isPlain_of_mem hother
  obtain ⟨place₀', n', hplace₀', hcount', hle, hmem⟩ := exists_candidate hwords h hother hplace'
  have hkey := List.le_of_mem_argmax hmem hc
  rw [Candidate.key, Candidate.key, Prod.Lex.toLex_le_toLex] at hkey
  dsimp only at hkey
  have hle₀ : place₀'.length ≤ place₀.length := by omega
  have hcounts := hplace₀'.count_le hplace₀ hle₀
  rcases (hplace'.length_le hword' hplace (by omega)).lt_or_eq with hlt | heq
  · exact .inl (hplace'.lt_of_length_lt hword hplace hlt).2
  · -- They end together, so the candidate of the other word ends with the best one and is no longer.
    obtain rfl := hplace'.eq_of_length_eq hplace heq
    have hge := hplace₀.length_le hword hplace₀' (by omega)
    refine .inr ⟨rfl, ?_⟩
    rcases (show other.1.length ≤ entry.1.length by omega).lt_or_eq with hlt | hlength
    · exact .inr hlt
    · have hsame := (List.suffix_of_suffix_length_le hplace'.ends hplace.ends hlength.le).eq_of_length hlength
      exact .inl (eq_of_word_eq hother hentry hsame)

theorem decides_or_none :
    (∃ entry, Decides lowered entry ∧ resolveBy words name = entry.2) ∨
      (∀ entry ∈ vocabulary, ¬ entry.1 <:+: lowered) ∧ resolveBy words name = assembly := by
  have hresolve : resolveBy words name =
      (((candidates words (name.toList.flatMap lowerChar)).argmax Candidate.key).map Candidate.tier).getD assembly := by
    rw [← foldl_best_eq]
    rfl
  rw [hresolve]
  cases hc : (candidates words (name.toList.flatMap lowerChar)).argmax Candidate.key with
  | some c =>
    obtain ⟨entry, hentry, htier⟩ := decides_of_argmax hwords h hc
    exact .inl ⟨entry, hentry, htier⟩
  | none =>
    refine .inr ⟨fun entry hentry hoccurs => ?_, rfl⟩
    obtain ⟨place, hplace⟩ := infix_iff_endsIn.1 hoccurs
    obtain ⟨-, n, -, -, -, hmem⟩ := exists_candidate hwords h hentry hplace
    rw [List.argmax_eq_none.1 hc] at hmem
    cases hmem

end

theorem resolveBy_eq_iff {words : List (List Char × Tier)} (hwords : words.Perm vocabulary) {name : String}
    {lowered : List Char} (h : SmallForm name.toList lowered) (tier : Tier) :
    resolveBy words name = tier ↔ (∃ entry, Decides lowered entry ∧ entry.2 = tier) ∨
      (∀ entry ∈ vocabulary, ¬ entry.1 <:+: lowered) ∧ tier = assembly := by
  have hsome {entry : List Char × Tier} (hentry : Decides lowered entry) : entry.1 <:+: lowered := by
    obtain ⟨_, ⟨place, hplace, -⟩, -⟩ := hentry.last
    exact infix_iff_endsIn.2 ⟨place, hplace⟩
  constructor
  · rintro rfl
    rcases decides_or_none hwords h with ⟨entry, hentry, hresolve⟩ | hnone
    · exact .inl ⟨entry, hentry, hresolve.symm⟩
    · exact .inr hnone
  · rcases decides_or_none hwords h with ⟨entry, hentry, hresolve⟩ | ⟨hnone, hresolve⟩
    · rintro (⟨entry', hentry', rfl⟩ | ⟨hnone, -⟩)
      · rw [hresolve, hentry.unique hentry']
      · exact absurd (hsome hentry) (hnone entry hentry.mem)
    · rintro (⟨entry', hentry', -⟩ | ⟨-, rfl⟩)
      · exact absurd (hsome hentry') (hnone entry' hentry'.mem)
      · exact hresolve

/-- A name stands for the tier of the word that decides in its small form, and for an assembly where there is no
word. It does so in whatever order the words are tried, and whatever becomes of its characters beyond ASCII. -/
theorem resolve_eq_iff {words : List (List Char × Tier)} (hwords : words.Perm vocabulary) {name : String}
    {lowered : List Char} (h : SmallForm name.toList lowered) :
    resolveBy words name = resolve name ∧ ∀ tier, resolve name = tier ↔
      (∃ entry, Decides lowered entry ∧ entry.2 = tier) ∨
        (∀ entry ∈ vocabulary, ¬ entry.1 <:+: lowered) ∧ tier = assembly := by
  have hown (tier : Tier) := resolveBy_eq_iff (List.Perm.refl vocabulary) h tier
  exact ⟨(resolveBy_eq_iff hwords h _).2 ((hown _).1 rfl), hown⟩

theorem navLink_is_leaf : vocabulary.reverse.Perm vocabulary ∧
    SmallForm "NavÉLin\u212A".toList "navélink".toList ∧
    resolveBy vocabulary.reverse "NavÉLin\u212A" = leaf ∧
    ∃ entry, Decides "navélink".toList entry ∧ entry.2 = leaf := by
  have hwords : vocabulary.reverse.Perm vocabulary := List.reverse_perm vocabulary
  have hother : IsSmall 'É' ['é'] :=
    .other (by decide) (by decide) (by decide) (by decide) (List.forall_mem_singleton.2 (by decide))
  have h : SmallForm "NavÉLin\u212A".toList "navélink".toList :=
    .cons (.ascii (by decide)) <| .cons (.ascii (by decide)) <| .cons (.ascii (by decide)) <| .cons hother <|
      .cons (.ascii (by decide)) <| .cons (.ascii (by decide)) <| .cons (.ascii (by decide)) <| .cons .kelvin .nil
  have hleaf : resolve "NavÉLin\u212A" = leaf := by decide +kernel
  obtain ⟨horder, hdecides⟩ := resolve_eq_iff hwords h
  refine ⟨hwords, h, horder.trans hleaf, ?_⟩
  rcases (hdecides leaf).1 hleaf with hentry | ⟨-, hassembly⟩
  · exact hentry
  · cases hassembly

end Recast.Tier
