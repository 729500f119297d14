import Recast.Proofs.Pattern.Edits

/-!
# Words in edited text

A word that stands in an edited text was kept, stands in one of the new texts, or was joined
where a hit begins inside it (`Edited.of_mention`). A word of the text that no hit reaches
into stands in the edited text as well (`Edited.survives`). Both walk along the edits; what is
before and after the word is edited on its own.
-/

namespace Recast.Pattern

open Text Unicode

/-- The code points of the blank characters. -/
def blankPoints : List Nat :=
  [0x9, 0xA, 0xB, 0xC, 0xD, 0x20, 0x85, 0xA0, 0x1680, 0x2000, 0x2001, 0x2002, 0x2003, 0x2004, 0x2005,
    0x2006, 0x2007, 0x2008, 0x2009, 0x200A, 0x2028, 0x2029, 0x202F, 0x205F, 0x3000]

theorem not_isWordChar_of_blank {c : Char} (h : isBlank c = true) : isWordChar c = false := by
  have hpoint : c.toNat ∈ blankPoints := by
    simp only [isBlank, Bool.or_eq_true, Bool.and_eq_true, decide_eq_true_eq, beq_iff_eq] at h
    simp only [blankPoints, List.mem_cons, List.not_mem_nil, or_false]
    omega
  have hword : ∀ n ∈ blankPoints, isWordChar (Char.ofNat n) = false := by decide +kernel
  rw [← Char.ofNat_toNat c]
  exact hword _ hpoint

/-- A word goes on behind the character. -/
def inWord (prev : Option Char) : Bool := prev.any isWordChar

theorem inWord_after {q prev : Option Char} (h : inWord q = inWord prev) (a : List Char) :
    inWord (a.getLast?.or q) = inWord (a.getLast?.or prev) := by
  cases a.getLast? with
  | none => exact h
  | some c => rfl

theorem inWord_concat (u : List Char) (d : Char) (prev : Option Char) :
    inWord ((u ++ [d]).getLast?.or prev) = isWordChar d := by
  rw [List.getLast?_concat]
  rfl

/-- The word stands in the text behind `prev`, and no word goes on in it. -/
def Mentions (w : List Char) (prev : Option Char) (text : List Char) : Prop :=
  ∃ a b, text = a ++ (w ++ b) ∧ inWord (a.getLast?.or prev) = false

theorem Mentions.within {w u : List Char} {prev : Option Char} (a rest : List Char)
    (h : Mentions w (a.getLast?.or prev) u) : Mentions w prev (a ++ (u ++ rest)) := by
  obtain ⟨x, y, rfl, hx⟩ := h
  refine ⟨a ++ x, y ++ rest, by simp only [List.append_assoc], ?_⟩
  rwa [getLast?_append_or]

theorem leads_or_leads {a b c d : List Char} (h : a ++ b = c ++ d) : a <+: c ∨ c <+: a :=
  List.prefix_or_prefix_of_prefix (List.prefix_append a b) (h ▸ List.prefix_append c d)

theorem append_cons_inj {c : Char} {a b a' b' : List Char} (h : a ++ c :: b = a' ++ c :: b')
    (ha : c ∉ a) (ha' : c ∉ a') : a = a' ∧ b = b' := by
  rcases List.append_eq_append_iff.1 h with ⟨v, rfl, hv⟩ | ⟨v, rfl, hv⟩
  · cases v with
    | nil => exact ⟨by simp, (List.cons.inj hv).2⟩
    | cons d v =>
      obtain ⟨rfl, -⟩ := List.cons.inj hv
      simp at ha'
  · cases v with
    | nil => exact ⟨by simp, (List.cons.inj hv).2.symm⟩
    | cons d v =>
      obtain ⟨rfl, -⟩ := List.cons.inj hv
      simp at ha

theorem append_cons_unique {c : Char} {a b a' b' : List Char} (h : a ++ c :: b = a' ++ c :: b')
    (ha : c ∉ a') (hb : c ∉ b') : a = a' := by
  rcases List.append_eq_append_iff.1 h with ⟨v, rfl, hv⟩ | ⟨v, rfl, hv⟩
  · cases v with
    | nil => simp
    | cons d v =>
      obtain ⟨rfl, -⟩ := List.cons.inj hv
      simp at ha
  · cases v with
    | nil => simp
    | cons d v =>
      obtain ⟨rfl, rfl⟩ := List.cons.inj hv
      simp at hb

theorem mem_of_concat_eq {v x y : List Char} {d : Char} (h : v ++ [d] = x ++ y) (hy : y ≠ []) :
    d ∈ y := by
  have hlast := congrArg List.getLast? h
  rw [List.getLast?_concat, List.getLast?_append, List.getLast?_eq_some_getLast hy, Option.some_or] at hlast
  rw [Option.some.inj hlast]
  exact List.getLast_mem hy

/-- A word behind `a` stands behind the piece `u`, inside it, or across its end. -/
theorem behind_or_inside_or_across {a u r after : List Char} (h : u ++ r = a ++ (w ++ after)) :
    (∃ v, a = u ++ v ∧ r = v ++ (w ++ after)) ∨ (∃ v, u = a ++ (w ++ v)) ∨
      ∃ x y, u = a ++ x ∧ w = x ++ y ∧ x ≠ [] ∧ y ≠ [] ∧ r = y ++ after := by
  rcases List.append_eq_append_iff.1 h with ⟨v, hv, hr⟩ | ⟨x, rfl, hx⟩
  · exact .inl ⟨v, hv, hr⟩
  · rcases List.append_eq_append_iff.1 hx with ⟨v, rfl, -⟩ | ⟨y, hw, hr⟩
    · exact .inr (.inl ⟨v, rfl⟩)
    by_cases hxe : x = []
    · subst hxe
      exact .inl ⟨[], by simp, by simpa [hw] using hr⟩
    by_cases hye : y = []
    · subst hye
      exact .inr (.inl ⟨[], by simp [hw]⟩)
    · exact .inr (.inr ⟨x, y, rfl, hw, hxe, hye, hr⟩)

/-- A character that the word does not hold parts the text into two where the word is sought. -/
theorem mentions_append_cons {w a b : List Char} {prev : Option Char} {c : Char} (hw : w ≠ [])
    (hc : c ∉ w)
    (h : Mentions w prev (a ++ c :: b)) : Mentions w prev a ∨ Mentions w (some c) b := by
  obtain ⟨x, after, htext, hx⟩ := h
  rcases behind_or_inside_or_across htext with ⟨v, rfl, hrest⟩ | ⟨v, rfl⟩ | ⟨x', y, rfl, rfl, -, hy, hr⟩
  · cases v with
    | nil =>
      obtain ⟨d, w, rfl⟩ := List.exists_cons_of_ne_nil hw
      obtain ⟨rfl, -⟩ := List.cons.inj hrest
      exact absurd List.mem_cons_self hc
    | cons d v =>
      rw [List.cons_append] at hrest
      obtain ⟨rfl, rfl⟩ := List.cons.inj hrest
      refine .inr ⟨v, after, rfl, ?_⟩
      rwa [getLast?_append_or, getLast?_cons_or] at hx
  · exact .inl ⟨x, v, rfl, hx⟩
  · obtain ⟨d, y, rfl⟩ := List.exists_cons_of_ne_nil hy
    obtain ⟨rfl, -⟩ := List.cons.inj hr
    exact absurd (List.mem_append_right _ List.mem_cons_self) hc

theorem mentions_congr {w text : List Char} {q prev : Option Char} (hq : inWord q = inWord prev)
    (h : Mentions w q text) : Mentions w prev text := by
  obtain ⟨a, b, htext, ha⟩ := h
  exact ⟨a, b, htext, (inWord_after hq a).symm.trans ha⟩

/-- The text agrees with a proper ending of the word as far as both go. -/
def meets (s w : List Char) : Bool :=
  (List.range w.length).any fun i => 0 < i && (s.isPrefixOf (w.drop i) || (w.drop i).isPrefixOf s)

/-- The text ends in a proper beginning of the word. -/
def trails (s w : List Char) : Bool :=
  (List.range w.length).any fun i => 0 < i && (w.take i).isSuffixOf s

theorem not_meet {s w x y new : List Char} (h : meets s w = false) (hw : w = x ++ y) (hx : x ≠ [])
    (hy : y ≠ []) (hs : s <+: new) : ¬ (new <+: y ∨ y <+: new) := by
  subst hw
  have hat := List.any_eq_false.1 h x.length (by simpa using List.length_pos_iff.2 hy)
  simp only [List.length_pos_iff.2 hx, decide_true, Bool.true_and, List.drop_left, Bool.not_eq_true,
    Bool.or_eq_false_iff] at hat
  have hsy : ¬ s <+: y := by simpa [← List.isPrefixOf_iff_prefix] using hat.1
  have hys : ¬ y <+: s := by simpa [← List.isPrefixOf_iff_prefix] using hat.2
  rintro (hnew | hnew)
  · exact hsy (hs.trans hnew)
  · exact (List.prefix_or_prefix_of_prefix hs hnew).elim hsy hys

theorem not_trail {s w x y : List Char} (h : trails s w = false) (hw : w = x ++ y) (hx : x ≠ [])
    (hy : y ≠ []) : ¬ x <:+ s := by
  subst hw
  have hat := List.any_eq_false.1 h x.length (by simpa using List.length_pos_iff.2 hy)
  simpa [List.length_pos_iff.2 hx, List.isSuffixOf_iff_suffix] using hat

theorem not_meet_of_not_mem {c : Char} {w x y new : List Char} (hc : c ∉ w) (hw : w = x ++ y)
    (hy : y ≠ []) : ¬ (c :: new <+: y ∨ y <+: c :: new) := by
  subst hw
  obtain ⟨d, y, rfl⟩ := List.exists_cons_of_ne_nil hy
  rw [List.cons_prefix_cons, List.cons_prefix_cons]
  rintro (⟨rfl, -⟩ | ⟨rfl, -⟩) <;> simp at hc

theorem not_trail_of_not_mem {d : Char} {w x y v : List Char} (hd : d ∉ w) (hw : w = x ++ y)
    (hx : x ≠ []) : ¬ x <:+ v ++ [d] := by
  rintro ⟨u, hu⟩
  have hlast := congrArg List.getLast? hu
  rw [List.getLast?_append, List.getLast?_concat, List.getLast?_eq_some_getLast hx, Option.some_or] at hlast
  refine hd (hw ▸ List.mem_append_left y ?_)
  rw [← Option.some.inj hlast]
  exact List.getLast_mem hx

theorem not_mentions_of_mem {c : Char} {w text : List Char} {prev : Option Char} (hc : c ∈ w)
    (ht : c ∉ text) :
    ¬ Mentions w prev text := by
  rintro ⟨a, b, rfl, -⟩
  simp [hc] at ht

variable {Kept : Option Char → List Char → Prop}
  {Hit : Option Char → List Char → List Char → List Char → Prop}
  {w : List Char} {prev : Option Char} {text out : List Char}

/-- Where a word of the edited text comes from, `after` being what follows it there. -/
inductive Origin (Kept : Option Char → List Char → Prop)
    (Hit : Option Char → List Char → List Char → List Char → Prop)
    (w : List Char) (prev : Option Char) (text after : List Char) : Prop
  | kept (a b : List Char) (htext : text = a ++ (w ++ b)) (ha : inWord (a.getLast?.or prev) = false)
      (hkept : Kept (a.getLast?.or prev) (w ++ b)) (hb : Edited Kept Hit w.getLast? b after)
  | made (a u rest new : List Char) (htext : text = a ++ (u ++ rest))
      (hhit : Hit (a.getLast?.or prev) u rest new) (hnew : Mentions w (a.getLast?.or prev) new)
  | joined (a x y u rest new : List Char) (htext : text = a ++ (x ++ (u ++ rest)))
      (ha : inWord (a.getLast?.or prev) = false) (hw : w = x ++ y) (hx : x ≠ []) (hy : y ≠ [])
      (hhit : Hit x.getLast? u rest new) (hmeet : new <+: y ∨ y <+: new)

/-- No new text ends inside the word, and a word goes on behind a new text if one goes on
behind what it replaces. -/
structure Seals (Hit : Option Char → List Char → List Char → List Char → Prop) (w : List Char) : Prop where
  edge : ∀ prev u rest new, Hit prev u rest new →
    inWord (new.getLast?.or prev) = inWord (u.getLast?.or prev)
  leave : ∀ prev u rest new, Hit prev u rest new → ∀ x y, w = x ++ y → x ≠ [] → y ≠ [] → ¬ x <:+ new

/-- A prefix of the edited text was kept as far as no hit begins in it. -/
theorem Edited.of_lead {y after : List Char} (h : Edited Kept Hit prev text (y ++ after)) :
    (∃ b, text = y ++ b ∧ Edited Kept Hit (y.getLast?.or prev) b after) ∨
      ∃ y₁ y₂ u rest new, y = y₁ ++ y₂ ∧ y₂ ≠ [] ∧ text = y₁ ++ (u ++ rest) ∧
        Hit (y₁.getLast?.or prev) u rest new ∧ (new <+: y₂ ∨ y₂ <+: new) := by
  induction y generalizing prev text with
  | nil => exact .inl ⟨text, rfl, h⟩
  | cons c y ih =>
    generalize hout : c :: y ++ after = out at h
    cases h with
    | nil => cases hout
    | @keep _ d r out hd h =>
      rw [List.cons_append] at hout
      obtain ⟨rfl, rfl⟩ := List.cons.inj hout
      rw [getLast?_cons_or]
      rcases ih h with ⟨b, rfl, hb⟩ | ⟨y₁, y₂, u, rest, new, rfl, hy₂, rfl, hhit, hmeet⟩
      · exact .inl ⟨b, rfl, hb⟩
      · exact .inr ⟨c :: y₁, y₂, u, rest, new, rfl, hy₂, rfl, by rwa [getLast?_cons_or], hmeet⟩
    | hit hu hnew h =>
      exact .inr ⟨[], c :: y, _, _, _, rfl, List.cons_ne_nil c y, rfl, hnew, leads_or_leads hout.symm⟩

theorem Edited.of_mention (hHit : Seals Hit w) (hw : w ≠ []) (h : Edited Kept Hit prev text out)
    {q : Option Char} (hq : inWord q = inWord prev) {a after : List Char}
    (hout : out = a ++ (w ++ after))
    (ha : inWord (a.getLast?.or q) = false) : Origin Kept Hit w prev text after := by
  induction h generalizing a q with
  | nil prev =>
    have hnil := (List.append_eq_nil_iff.1 (List.append_eq_nil_iff.1 hout.symm).2).1
    exact absurd hnil hw
  | @keep prev c r out hc h ih =>
    cases a with
    | nil =>
      -- the word begins with the character, and what follows it was kept or is entered by a hit
      obtain ⟨d, y, rfl⟩ := List.exists_cons_of_ne_nil hw
      rw [List.nil_append, List.cons_append] at hout
      obtain ⟨rfl, rfl⟩ := List.cons.inj hout
      have hprev : inWord prev = false := hq.symm.trans ha
      rcases h.of_lead with ⟨b, rfl, hb⟩ | ⟨y₁, y₂, u, rest, new, rfl, hy₂, rfl, hhit, hmeet⟩
      · refine .kept [] b rfl hprev hc ?_
        rwa [← getLast?_cons_or c y none, Option.or_none] at hb
      · refine .joined [] (c :: y₁) y₂ u rest new rfl hprev rfl (List.cons_ne_nil c y₁) hy₂ ?_ hmeet
        rwa [← getLast?_cons_or c y₁ none, Option.or_none] at hhit
    | cons d a =>
      rw [List.cons_append] at hout
      obtain ⟨rfl, rfl⟩ := List.cons.inj hout
      rw [getLast?_cons_or] at ha
      cases ih rfl rfl ha with
      | kept a b htext ha hkept hb =>
        subst htext
        exact .kept (c :: a) b rfl (by rwa [getLast?_cons_or]) (by rwa [getLast?_cons_or]) hb
      | made a u rest new htext hhit hnew =>
        subst htext
        exact .made (c :: a) u rest new rfl (by rwa [getLast?_cons_or]) (by rwa [getLast?_cons_or])
      | joined a x y u rest new htext ha hw hx hy hhit hmeet =>
        subst htext
        exact .joined (c :: a) x y u rest new rfl (by rwa [getLast?_cons_or]) hw hx hy hhit hmeet
  | @hit prev u rest new out hu hnew h ih =>
    rcases behind_or_inside_or_across hout with ⟨v, rfl, hrest⟩ | ⟨v, rfl⟩ | ⟨x, y, rfl, hw, hx, hy, -⟩
    · have hedge : inWord (new.getLast?.or q) = inWord (u.getLast?.or prev) :=
        (inWord_after hq new).trans (hHit.edge _ _ _ _ hnew)
      rw [getLast?_append_or] at ha
      cases ih hedge hrest ha with
      | kept a b htext ha hkept hb =>
        subst htext
        exact .kept (u ++ a) b (by simp) (by rwa [getLast?_append_or]) (by rwa [getLast?_append_or]) hb
      | made a u' rest new htext hhit hnew =>
        subst htext
        exact .made (u ++ a) u' rest new (by simp) (by rwa [getLast?_append_or])
          (by rwa [getLast?_append_or])
      | joined a x y u' rest new htext ha hw hx hy hhit hmeet =>
        subst htext
        exact .joined (u ++ a) x y u' rest new (by simp) (by rwa [getLast?_append_or]) hw hx hy hhit hmeet
    · exact .made [] u _ _ rfl hnew ⟨a, v, rfl, (inWord_after hq a).symm.trans ha⟩
    · exact absurd (List.suffix_append a x) (hHit.leave _ _ _ _ hnew x y hw hx hy)

/-- No new text begins inside the word where it stands behind what was kept of it. -/
structure Leaves (Hit : Option Char → List Char → List Char → List Char → Prop) (w : List Char) : Prop
    extends Seals Hit w where
  enter : ∀ x y, w = x ++ y → x ≠ [] → y ≠ [] → ∀ u rest new, Hit x.getLast? u rest new →
    ¬ (new <+: y ∨ y <+: new)

/-- If the new texts do not hold the word, it was kept. -/
theorem Edited.kept_of_mention (hHit : Leaves Hit w) (hw : w ≠ [])
    (hnew : ∀ prev u rest new, Hit prev u rest new → ¬ Mentions w prev new)
    (h : Edited Kept Hit prev text out) {a after : List Char} (hout : out = a ++ (w ++ after))
    (ha : inWord (a.getLast?.or prev) = false) :
    ∃ a b, text = a ++ (w ++ b) ∧ inWord (a.getLast?.or prev) = false ∧
      Kept (a.getLast?.or prev) (w ++ b) ∧ Edited Kept Hit w.getLast? b after := by
  cases h.of_mention hHit.toSeals hw rfl hout ha with
  | kept a b htext ha hkept hb => exact ⟨a, b, htext, ha, hkept, hb⟩
  | made a u rest new htext hhit hmade => exact absurd hmade (hnew _ _ _ _ hhit)
  | joined a x y u rest new htext ha hw hx hy hhit hmeet =>
    exact absurd hmeet (hHit.enter x y hw hx hy _ _ _ hhit)

theorem Edited.not_mentions (hHit : Leaves Hit w) (hw : w ≠ [])
    (hnew : ∀ prev u rest new, Hit prev u rest new → ¬ Mentions w prev new)
    (hkept : ∀ prev r, inWord prev = false → ¬ Kept prev (w ++ r))
    (h : Edited Kept Hit prev text out) : ¬ Mentions w prev out := by
  rintro ⟨a, after, hout, ha⟩
  obtain ⟨a, b, -, ha, hb, -⟩ := h.kept_of_mention hHit hw hnew hout ha
  exact hkept _ _ ha hb

theorem Edited.mentions (hHit : Leaves Hit w) (hw : w ≠ [])
    (hnew : ∀ prev u rest new, Hit prev u rest new → Mentions w prev new → Mentions w prev u)
    (h : Edited Kept Hit prev text out) (hm : Mentions w prev out) : Mentions w prev text := by
  obtain ⟨a, after, hout, ha⟩ := hm
  cases h.of_mention hHit.toSeals hw rfl hout ha with
  | kept a b htext ha hkept hb => exact ⟨a, b, htext, ha⟩
  | made a u rest new htext hhit hmade => exact htext ▸ (hnew _ _ _ _ hhit hmade).within a rest
  | joined a x y u rest new htext ha hw hx hy hhit hmeet =>
    exact absurd hmeet (hHit.enter x y hw hx hy _ _ _ hhit)

/-- A prefix of the text is kept as far as no hit begins in it. -/
theorem Edited.keep_lead {y b : List Char} (h : Edited Kept Hit prev (y ++ b) out) :
    (∃ after, out = y ++ after ∧ Edited Kept Hit (y.getLast?.or prev) b after) ∨
      ∃ y₁ y₂ u rest new, y = y₁ ++ y₂ ∧ y₂ ≠ [] ∧ y₂ ++ b = u ++ rest ∧
        Hit (y₁.getLast?.or prev) u rest new := by
  induction y generalizing prev out with
  | nil => exact .inl ⟨out, rfl, h⟩
  | cons c y ih =>
    generalize htext : c :: y ++ b = text at h
    cases h with
    | nil => cases htext
    | @keep _ d r out hd h =>
      rw [List.cons_append] at htext
      obtain ⟨rfl, rfl⟩ := List.cons.inj htext
      rw [getLast?_cons_or]
      rcases ih h with ⟨after, rfl, hafter⟩ | ⟨y₁, y₂, u, rest, new, rfl, hy₂, hu, hhit⟩
      · exact .inl ⟨after, rfl, hafter⟩
      · exact .inr ⟨c :: y₁, y₂, u, rest, new, rfl, hy₂, hu, by rwa [getLast?_cons_or]⟩
    | hit hu hnew h => exact .inr ⟨[], c :: y, _, _, _, rfl, List.cons_ne_nil c y, htext, hnew⟩

/-- No hit begins inside the word or reaches into it. -/
structure Spares (Hit : Option Char → List Char → List Char → List Char → Prop) (w : List Char) : Prop where
  edge : ∀ prev u rest new, Hit prev u rest new →
    inWord (new.getLast?.or prev) = inWord (u.getLast?.or prev)
  enter : ∀ x y, w = x ++ y → x ≠ [] → y ≠ [] → ∀ u rest new, Hit x.getLast? u rest new →
    ¬ (y <+: u ∨ u <+: y)
  reach : ∀ prev u rest new, Hit prev u rest new → ∀ x y, u = x ++ y → x ≠ [] → y ≠ [] →
    ¬ (y <+: w ∨ w <+: y)

theorem Edited.survives (hHit : Spares Hit w) (hw : w ≠ []) (h : Edited Kept Hit prev text out)
    {q : Option Char} (hq : inWord q = inWord prev) {a b : List Char} (htext : text = a ++ (w ++ b))
    (ha : inWord (a.getLast?.or prev) = false)
    (hunfit : ∀ u rest new, w ++ b = u ++ rest → ¬ Hit (a.getLast?.or prev) u rest new) :
    ∃ a' after, out = a' ++ (w ++ after) ∧ inWord (a'.getLast?.or q) = false ∧
      Edited Kept Hit w.getLast? b after := by
  induction h generalizing a q with
  | nil prev =>
    have hnil := (List.append_eq_nil_iff.1 (List.append_eq_nil_iff.1 htext.symm).2).1
    exact absurd hnil hw
  | @keep prev c r out hc h ih =>
    cases a with
    | nil =>
      -- The word begins here; a hit inside it would have entered it.
      obtain ⟨d, y, rfl⟩ := List.exists_cons_of_ne_nil hw
      rw [List.nil_append, List.cons_append] at htext
      obtain ⟨rfl, rfl⟩ := List.cons.inj htext
      rcases h.keep_lead with ⟨after, rfl, hafter⟩ | ⟨y₁, y₂, u, rest, new, rfl, hy₂, hu, hhit⟩
      · refine ⟨[], after, rfl, hq.trans ha, ?_⟩
        rwa [← getLast?_cons_or c y none, Option.or_none] at hafter
      · rw [← getLast?_cons_or c y₁ none, Option.or_none] at hhit
        exact absurd (leads_or_leads hu)
          (hHit.enter (c :: y₁) y₂ rfl (List.cons_ne_nil c y₁) hy₂ u rest new hhit)
    | cons d a =>
      rw [List.cons_append] at htext
      obtain ⟨rfl, rfl⟩ := List.cons.inj htext
      rw [getLast?_cons_or] at ha
      obtain ⟨a', after, rfl, ha', hafter⟩ := ih rfl rfl ha (by rwa [getLast?_cons_or] at hunfit)
      exact ⟨c :: a', after, rfl, by rwa [getLast?_cons_or], hafter⟩
  | @hit prev u rest new out hu hnew h ih =>
    -- The hit ends before the word: it does not begin with it, and it does not reach into it.
    have hbehind : ∃ v, a = u ++ v ∧ rest = v ++ (w ++ b) := by
      rcases List.append_eq_append_iff.1 htext with hv | ⟨y, rfl, hy⟩
      · exact hv
      by_cases hae : a = []
      · subst hae
        exact absurd hnew (hunfit _ rest new (by simpa using htext.symm))
      by_cases hye : y = []
      · subst hye
        exact ⟨[], by simp, by simpa using hy.symm⟩
      · exact absurd (leads_or_leads hy.symm) (hHit.reach _ _ _ _ hnew a y rfl hae hye)
    obtain ⟨v, rfl, rfl⟩ := hbehind
    have hedge : inWord (new.getLast?.or q) = inWord (u.getLast?.or prev) :=
      (inWord_after hq new).trans (hHit.edge _ _ _ _ hnew)
    rw [getLast?_append_or] at ha hunfit
    obtain ⟨a', after, rfl, ha', hafter⟩ := ih hedge rfl ha hunfit
    exact ⟨new ++ a', after, by simp, by rwa [getLast?_append_or], hafter⟩

/-- The word stands in the text before a text that does not fit. -/
def Unfit (w : List Char) (Fits : List Char → Prop) (text : List Char) : Prop :=
  ∃ a b, text = a ++ (w ++ b) ∧ inWord a.getLast? = false ∧ ¬ Fits b

theorem unfit_false_iff : Unfit w (fun _ => False) text ↔ Mentions w none text := by
  simp [Unfit, Mentions]

/-- If no hit is concerned with the word, it stands before as many unfit texts as before. -/
theorem Edited.unfit_iff (hleaves : Leaves Hit w) (hspares : Spares Hit w) (hw : w ≠ [])
    (hnew : ∀ prev u rest new, Hit prev u rest new → ¬ Mentions w prev new)
    (hstart : ∀ prev u rest new, Hit prev u rest new → ¬ (w <+: u ∨ u <+: w))
    {Fits : List Char → Prop}
    (hfits : ∀ b after, Edited Kept Hit w.getLast? b after → (Fits b ↔ Fits after))
    (h : Edited Kept Hit none text out) : Unfit w Fits out ↔ Unfit w Fits text := by
  constructor
  · rintro ⟨a, after, hout, ha, hunfit⟩
    obtain ⟨a, b, htext, ha, -, hb⟩ := h.kept_of_mention hleaves hw hnew hout (by rwa [Option.or_none])
    rw [Option.or_none] at ha
    exact ⟨a, b, htext, ha, fun hfit => hunfit ((hfits b after hb).1 hfit)⟩
  · rintro ⟨a, b, htext, ha, hunfit⟩
    have hno : ∀ u rest new, w ++ b = u ++ rest → ¬ Hit (a.getLast?.or none) u rest new :=
      fun u rest new hu hhit => hstart _ u rest new hhit (leads_or_leads hu)
    obtain ⟨a', after, hout, ha', hb⟩ := h.survives hspares hw rfl htext (by rwa [Option.or_none]) hno
    rw [Option.or_none] at ha'
    exact ⟨a', after, hout, ha', fun hfit => hunfit ((hfits b after hb).2 hfit)⟩

/-- If the hits are the words before the texts that fit, those before unfit texts are left. -/
theorem Edited.mentions_iff_unfit (hleaves : Leaves Hit w) (hspares : Spares Hit w) (hw : w ≠ [])
    (hnew : ∀ prev u rest new, Hit prev u rest new → ¬ Mentions w prev new)
    {Fits : List Char → Prop}
    (hkept : ∀ prev b, inWord prev = false → Kept prev (w ++ b) → ¬ Fits b)
    (hhit : ∀ prev u rest new b, Hit prev u rest new → w ++ b = u ++ rest → Fits b)
    (h : Edited Kept Hit none text out) : Mentions w none out ↔ Unfit w Fits text := by
  constructor
  · rintro ⟨a, after, hout, ha⟩
    obtain ⟨a, b, htext, ha, hb, -⟩ := h.kept_of_mention hleaves hw hnew hout ha
    refine ⟨a, b, htext, ?_, hkept _ b ha hb⟩
    rwa [Option.or_none] at ha
  · rintro ⟨a, b, htext, ha, hunfit⟩
    have hno : ∀ u rest new, w ++ b = u ++ rest → ¬ Hit (a.getLast?.or none) u rest new :=
      fun u rest new hu hit => hunfit (hhit _ u rest new b hit hu)
    obtain ⟨a', after, hout, ha', -⟩ := h.survives hspares hw rfl htext (by rwa [Option.or_none]) hno
    exact ⟨a', after, hout, ha'⟩

/-- Edits that keep whether `d` is the first character of a kind keep it for the whole text. -/
theorem find?_of_edited {Kept : Option Char → List Char → Prop}
    {Hit : Option Char → List Char → List Char → List Char → Prop} {p : Char → Bool} {d : Char}
    (hHit : ∀ prev u rest new, Hit prev u rest new →
      ∃ x y, u.find? p = some x ∧ new.find? p = some y ∧ (x = d ↔ y = d))
    {prev : Option Char} {text out : List Char} (h : Edited Kept Hit prev text out) :
    text.find? p = some d ↔ out.find? p = some d := by
  induction h with
  | nil => rfl
  | @keep prev c r out _ _ ih =>
    rw [List.find?_cons, List.find?_cons]
    split
    · rfl
    · exact ih
  | hit _ hnew _ ih =>
    obtain ⟨x, y, hx, hy, hxy⟩ := hHit _ _ _ _ hnew
    rw [List.find?_append, List.find?_append, hx, hy]
    simpa using hxy

theorem Edited.mono {Kept' : Option Char → List Char → Prop}
    {Hit' : Option Char → List Char → List Char → List Char → Prop}
    (hkept : ∀ prev r, Kept prev r → Kept' prev r)
    (hhit : ∀ prev u rest new, Hit prev u rest new → Hit' prev u rest new)
    (h : Edited Kept Hit prev text out) : Edited Kept' Hit' prev text out := by
  induction h with
  | nil prev => exact .nil prev
  | keep hc _ ih => exact .keep (hkept _ _ hc) ih
  | hit hu hnew _ ih => exact .hit hu (hhit _ _ _ _ hnew) ih

end Recast.Pattern
