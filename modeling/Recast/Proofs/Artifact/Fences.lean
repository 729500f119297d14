import Mathlib.Data.Bool.AllAny
import Recast.Proofs.Artifact.IdiomPatterns
import Recast.Proofs.Pattern.Parting

/-!
# Text between fences

Strings, template text and the text of markup stand between quotes, backticks or angle
brackets. An edit takes the text between two such characters by itself if no match crosses the
first of them and none of the text between them is read together with the second. Both hold of
a pattern that accepts no such character; for others the text must lack a character that every
match comes to.
-/

namespace Recast.Modernize

open Text Pattern Unicode

/-- The characters between which a text is quoted or shown. -/
def fences : List Char := "\"'`<>".toList

theorem not_isWordChar_fence {q : Char} (hq : q ∈ fences) : isWordChar q = false := by
  have hall : ∀ q ∈ fences, isWordChar q = false := List.all_iff_forall_prop.1 (by decide +kernel)
  exact hall q hq

/-- No fence stands in the text. -/
def unfenced (s : List Char) : Bool := s.all (· ∉ fences)

theorem fence_not_mem_unfenced {q : Char} (hq : q ∈ fences) {s : List Char} (hs : unfenced s = true) :
    q ∉ s :=
  fun hmem => List.all_iff_forall_prop.1 hs q hmem hq

/-- The edit takes the text between the fences `q` and `q'` behind `a` by itself. -/
def Fenced (edit : List Char → List Char) (a s : List Char) (q q' : Char) : Prop :=
  ∀ b, ∃ b', edit (a ++ q :: (s ++ q' :: b)) = edit a ++ q :: (edit s ++ q' :: b')

theorem Fenced.comp {edit edit' : List Char → List Char} {a s : List Char} {q q' : Char}
    (h' : Fenced edit' (edit a) (edit s) q q') (h : Fenced edit a s q q') :
    Fenced (fun code => edit' (edit code)) a s q q' := by
  intro b
  obtain ⟨b₁, hb₁⟩ := h b
  obtain ⟨b₂, hb₂⟩ := h' b₁
  exact ⟨b₂, (congrArg edit' hb₁).trans hb₂⟩

/-! ### Characters that a pattern reads -/

/-- The pattern reads no fence. -/
def fenceless (p : Pattern) : Bool := fences.all fun q => !accepts q p

theorem fence_not_mem {p : Pattern} (hp : fenceless p = true) {c c' : Cursor} {g g' : Groups}
    (h : Reads p c g c' g') {u : List Char} (hu : c.rest = u ++ c'.rest) {q : Char} (hq : q ∈ fences) :
    q ∉ u := by
  intro hmem
  have hno := List.all_eq_true.1 hp q hq
  simp [accepts_of_reads h hu hmem] at hno

theorem not_mem_of_replaced {p : Pattern} (hp : fenceless p = true) {f : Match → List Char}
    {text : List Char} {prev : Option Char} {u rest new : List Char} (h : Replaced p f text prev u rest new)
    {q : Char} (hq : q ∈ fences) : q ∉ u := by
  obtain ⟨pos, g, -, hreads, -⟩ := h
  exact fence_not_mem hp hreads rfl hq

theorem Crosses.split {p : Pattern} {a t : List Char} {q : Char} (h : Crosses p a (q :: t)) :
    ∃ x y z rest, a = x ++ y ∧ y ≠ [] ∧ t = z ++ rest ∧
      Replaced p (fun _ => []) (a ++ q :: t) x.getLast? (y ++ q :: z) rest [] := by
  obtain ⟨x, y, z, rest, ha, hy, hz, hne, hit⟩ := h
  obtain ⟨d, z, rfl⟩ := List.exists_cons_of_ne_nil hne
  obtain ⟨rfl, rfl⟩ := List.cons.inj hz
  exact ⟨x, y, z, rest, ha, hy, rfl, hit⟩

theorem not_crosses {p : Pattern} (hp : fenceless p = true) {a t : List Char} {q : Char} (hq : q ∈ fences) :
    ¬ Crosses p a (q :: t) := by
  intro h
  obtain ⟨x, y, z, rest, -, -, -, hit⟩ := Crosses.split h
  exact not_mem_of_replaced hp hit hq (by simp)

/-- What the pattern reads comes to `c` before any fence. -/
def Reaches (c : Char) (p : Pattern) : Prop :=
  ∀ ⦃c₁ c₂ : Cursor⦄ ⦃g g' : Groups⦄, Reads p c₁ g c₂ g' →
    ∃ x y, c₁.rest = x ++ c :: (y ++ c₂.rest) ∧ ∀ q ∈ fences, q ∉ x

theorem Reaches.append {c : Char} {p : Pattern} (hp : Reaches c p) (q : Pattern) : Reaches c (p ++ q) := by
  intro c₁ c₂ g g' h
  obtain ⟨c₃, g₃, hfirst, hsecond⟩ := reads_append.1 h
  obtain ⟨x, y, hx, hfree⟩ := hp hfirst
  obtain ⟨v, hv, -⟩ := hsecond.split
  exact ⟨x, y ++ v, by rw [hx, hv, List.append_assoc], hfree⟩

theorem Reaches.after {c : Char} {p q : Pattern} (hq : Reaches c q) (hp : fenceless p = true) :
    Reaches c (p ++ q) := by
  intro c₁ c₂ g g' h
  obtain ⟨c₃, g₃, hfirst, hsecond⟩ := reads_append.1 h
  obtain ⟨u, hu, -⟩ := hfirst.split
  obtain ⟨x, y, hx, hfree⟩ := hq hsecond
  refine ⟨u ++ x, y, by rw [hu, hx, List.append_assoc], fun d hd => ?_⟩
  rw [List.mem_append, not_or]
  exact ⟨fence_not_mem hp hfirst hu hd, hfree d hd⟩

theorem reaches_lit {c : Char} {s : String} (hc : c ∈ s.toList) (hs : fenceless (lit s) = true) :
    Reaches c (lit s) := by
  intro c₁ c₂ g g' h
  obtain ⟨x, y, hxy⟩ := List.append_of_mem hc
  obtain ⟨-, hrest, -⟩ := reads_lit h
  refine ⟨x, y, by rw [hrest, hxy, List.append_assoc, List.cons_append], fun q hq hx => ?_⟩
  exact fence_not_mem hs h hrest hq (hxy ▸ List.mem_append_left _ hx)

/-- A reading by `q` begins with one by `p`, and no fence is read behind that. -/
def Leads (p q : Pattern) : Prop :=
  ∀ ⦃c c' : Cursor⦄ ⦃g g' : Groups⦄, Reads q c g c' g' →
    ∃ c₁ g₁ w, Reads p c g c₁ g₁ ∧ c₁.rest = w ++ c'.rest ∧ ∀ d ∈ fences, d ∉ w

theorem Leads.refl (p : Pattern) : Leads p p :=
  fun _ c' _ g' h => ⟨c', g', [], h, rfl, fun _ _ => List.not_mem_nil⟩

theorem Leads.append {p q r : Pattern} (h : Leads p q) (hr : fenceless r = true) : Leads p (q ++ r) := by
  intro c c' g g' hreads
  obtain ⟨c₁, g₁, hq, hrest⟩ := reads_append.1 hreads
  obtain ⟨c₂, g₂, w, hp, hw, hfree⟩ := h hq
  obtain ⟨v, hv, -⟩ := hrest.split
  refine ⟨c₂, g₂, w ++ v, hp, by rw [hw, hv, List.append_assoc], fun d hd => ?_⟩
  rw [List.mem_append, not_or]
  exact ⟨hfree d hd, fence_not_mem hr hrest hv hd⟩

/-! ### Edits that read no text between fences -/

theorem mem_of_append_eq {y b x t : List Char} {c q : Char} (h : y ++ q :: b = x ++ c :: t) (hx : q ∉ x)
    (hc : c ≠ q) : c ∈ y := by
  rcases List.append_eq_append_iff.1 h with ⟨v, rfl, hv⟩ | ⟨v, rfl, hv⟩
  · cases v with
    | nil => exact absurd (List.cons.inj hv).1.symm hc
    | cons d v =>
      obtain ⟨rfl, -⟩ := List.cons.inj hv
      simp at hx
  · cases v with
    | nil => exact absurd (List.cons.inj hv).1 hc
    | cons d v =>
      obtain ⟨rfl, -⟩ := List.cons.inj hv
      simp

variable {p : Pattern} {F : List Char → Match → List Char}

theorem unchanged_of_hits (hp : p.productive = true) (hn : p.nullable = false) {f : Match → List Char}
    {s : List Char}
    (hno : ∀ {prev u rest new}, Replaced p f s prev u rest new → ∃ c ∈ u, c ∉ s) : p.replaceAll f s = s := by
  refine (edited_replaceAll hp hn f s).eq_of_no_hit fun x u rest new hs _ hit => ?_
  obtain ⟨c, hu, hc⟩ := hno hit
  rw [hs] at hc
  simp [hu] at hc

/-- No match begins with `q` or in the text behind it. -/
theorem fenced_of_hits (hp : p.productive = true) (hn : p.nullable = false) (he : p.endless = true)
    (hF : ∀ u v m, Ends m u.length → F (u ++ v) m = F u m) {P : List Char → List Char → Prop}
    (hP : ∀ {text prev u rest new}, Replaced p (F text) text prev u rest new → P u new)
    {a s : List Char} {q q' : Char} (hq : q ∈ fences)
    (hbegin : ∀ y₁ y₂ b u rest new, q :: s = y₁ ++ y₂ → y₂ ≠ [] → y₂ ++ q' :: b = u ++ rest →
      ¬ P u new)
    (hclose : ∀ {b u rest new}, q' :: b = u ++ rest → u ≠ [] → P u new → ∃ r, new = q' :: r)
    (hcross : ∀ b, ¬ Crosses p a (q :: (s ++ q' :: b))) (hself : p.replaceAll (F s) s = s) :
    Fenced (fun code => p.replaceAll (F code) code) a s q q' := by
  intro b
  obtain ⟨out, hout, hedited⟩ := replaceAll_append hp hn he
    (show inWord (q :: (s ++ q' :: b)).head? = false from not_isWordChar_fence hq) (hcross b)
    (fun m hm => hF a (q :: (s ++ q' :: b)) m hm)
  show ∃ b', p.replaceAll _ _ = p.replaceAll _ _ ++ q :: (p.replaceAll _ _ ++ q' :: b')
  rw [hout, hself]
  rw [← List.cons_append] at hedited
  rcases hedited.keep_lead with ⟨after, rfl, hafter⟩ | ⟨y₁, y₂, u, rest, new, hy, hne, hu, hit⟩
  · generalize htext : q' :: b = text at hafter
    cases hafter with
    | nil => cases htext
    | @keep _ _ _ after _ _ =>
      obtain ⟨rfl, -⟩ := List.cons.inj htext
      exact ⟨after, rfl⟩
    | @hit _ u _ new after hu hit _ =>
      obtain ⟨r, rfl⟩ := hclose htext hu (hP hit)
      exact ⟨r ++ after, rfl⟩
  · exact absurd (hP hit) (hbegin y₁ y₂ b u rest new hy hne hu)

section

variable {c : Char}

theorem reached_of_replaced (hreach : Reaches c p) {f : Match → List Char} {text : List Char}
    {prev : Option Char} {u rest new : List Char} (h : Replaced p f text prev u rest new) :
    ∃ x y, u = x ++ c :: y ∧ ∀ q ∈ fences, q ∉ x := by
  obtain ⟨pos, g, -, hreads, -⟩ := h
  obtain ⟨x, y, hu, hfree⟩ := hreach hreads
  refine ⟨x, y, List.append_cancel_right (hu.trans ?_), hfree⟩
  simp

theorem unchanged_of_reaches (hp : p.productive = true) (hn : p.nullable = false) (hreach : Reaches c p)
    (f : Match → List Char) {s : List Char} (hs : c ∉ s) : p.replaceAll f s = s := by
  refine unchanged_of_hits hp hn fun hit => ?_
  obtain ⟨x, y, rfl, -⟩ := reached_of_replaced hreach hit
  exact ⟨c, by simp, hs⟩

theorem fenced_of_reaches (hp : p.productive = true) (hn : p.nullable = false) (he : p.endless = true)
    (hF : ∀ u v m, Ends m u.length → F (u ++ v) m = F u m) (hreach : Reaches c p) (hc : c ∉ fences)
    {a s : List Char} {q q' : Char} (hq : q ∈ fences) (hq' : q' ∈ fences) (hs : c ∉ s)
    (hcross : ∀ b, ¬ Crosses p a (q :: (s ++ q' :: b))) :
    Fenced (fun code => p.replaceAll (F code) code) a s q q' := by
  have hne {d : Char} (hd : d ∈ fences) : c ≠ d := fun h => hc (h ▸ hd)
  refine fenced_of_hits hp hn he hF (P := fun u _ => ∃ x y, u = x ++ c :: y ∧ ∀ q ∈ fences, q ∉ x)
    (reached_of_replaced hreach) hq ?_ ?_ hcross (unchanged_of_reaches hp hn hreach _ hs)
  · rintro y₁ y₂ b u rest new hy hne₂ hu ⟨x, y, rfl, hfree⟩
    have hmem : c ∈ y₂ := mem_of_append_eq (by simpa using hu) (hfree q' hq') (hne hq')
    have hmem : c ∈ q :: s := hy ▸ List.mem_append_right y₁ hmem
    rcases List.mem_cons.1 hmem with rfl | hmem
    · exact hc hq
    · exact hs hmem
  · rintro b u rest new hu hne₁ ⟨x, y, rfl, hfree⟩
    cases x with
    | nil => exact absurd (List.cons.inj hu).1.symm (hne hq')
    | cons d x =>
      obtain ⟨rfl, -⟩ := List.cons.inj hu
      exact absurd List.mem_cons_self (hfree _ hq')

end

/-! ### Edits that replace words -/

/-- One of the words `ws` becomes `new` in front of a text that may follow it. -/
def WordsHit (ws : List (List Char)) (Follows : List Char → Prop) (new : List Char) (prev : Option Char)
    (u rest new' : List Char) : Prop :=
  inWord prev = false ∧ u ∈ ws ∧ Follows rest ∧ new' = new

def WordsKept (ws : List (List Char)) (Follows : List Char → Prop) (prev : Option Char) (r : List Char) : Prop :=
  inWord prev = false → ∀ w ∈ ws, ∀ rest, r = w ++ rest → ¬ Follows rest

/-- What replacing words makes of a text depends on the words, on what may follow them, and on the
edge before the text. -/
theorem words_unique {ws : List (List Char)} {Follows : List Char → Prop} {new : List Char}
    {prev : Option Char} {text out : List Char} (hws : ∀ w ∈ ws, ∀ w' ∈ ws, w <+: w' → w = w')
    (h : Edited (WordsKept ws Follows) (WordsHit ws Follows new) prev text out) {prev' : Option Char}
    {out' : List Char} (hprev : inWord prev = inWord prev')
    (h' : Edited (WordsKept ws Follows) (WordsHit ws Follows new) prev' text out') : out = out' := by
  induction h generalizing prev' out' with
  | nil prev =>
    generalize htext : [] = text at h'
    cases h' with
    | nil => rfl
    | keep => cases htext
    | hit hu => exact absurd (List.append_eq_nil_iff.1 htext.symm).1 hu
  | @keep prev c r out hc h ih =>
    generalize htext : c :: r = text at h'
    cases h' with
    | nil => cases htext
    | keep _ h' =>
      obtain ⟨rfl, rfl⟩ := List.cons.inj htext
      exact congrArg (c :: ·) (ih rfl h')
    | hit hu hnew =>
      obtain ⟨hedge, hmem, hfollows, -⟩ := hnew
      exact absurd hfollows (hc (hprev.trans hedge) _ hmem _ htext)
  | @hit prev u rest new' out hu hnew h ih =>
    obtain ⟨hedge, hmem, hfollows, rfl⟩ := hnew
    generalize htext : u ++ rest = text at h'
    cases h' with
    | nil => exact absurd (List.append_eq_nil_iff.1 htext).1 hu
    | keep hc => exact absurd hfollows (hc (hprev.symm.trans hedge) _ hmem _ htext.symm)
    | @hit _ u' rest' _ out' hu' hnew' h' =>
      obtain ⟨-, hmem', -, rfl⟩ := hnew'
      obtain rfl : u = u' := by
        rcases leads_or_leads htext with hlead | hlead
        · exact hws u hmem u' hmem' hlead
        · exact (hws u' hmem' u hmem hlead).symm
      obtain rfl := List.append_cancel_left htext
      exact congrArg (_ ++ ·) (ih (inWord_after hprev u) h')

/-- The pattern reads one of the words `ws` in front of a text that may follow it. -/
structure ReadsWords (p : Pattern) (ws : List (List Char)) (Follows : List Char → Prop) : Prop where
  productive : p.productive = true
  nullable : p.nullable = false
  endless : p.endless = true
  fenceless : fenceless p = true
  hit : ∀ {f text prev u rest new}, Replaced p f text prev u rest new →
    inWord prev = false ∧ u ∈ ws ∧ Follows rest
  kept : ∀ {prev r}, Unread p prev r → WordsKept ws Follows prev r
  apart : ∀ w ∈ ws, ∀ w' ∈ ws, w <+: w' → w = w'
  fence : ∀ {q}, q ∈ fences → ∀ rest b, Follows (rest ++ q :: b) ↔ Follows rest

theorem ReadsWords.edited {ws : List (List Char)} {Follows : List Char → Prop} (h : ReadsWords p ws Follows)
    (new text : List Char) :
    Edited (WordsKept ws Follows) (WordsHit ws Follows new) none text (p.replaceAll (fun _ => new) text) := by
  refine (edited_replaceAll h.productive h.nullable _ text).mono (fun _ _ => h.kept) ?_
  intro prev u rest new' hit
  obtain ⟨hprev, hu, hfollows⟩ := h.hit hit
  obtain ⟨pos, g, -, -, hnew⟩ := hit
  exact ⟨hprev, hu, hfollows, hnew⟩

theorem ReadsWords.fenced {ws : List (List Char)} {Follows : List Char → Prop} (h : ReadsWords p ws Follows)
    (new a s : List Char) {q q' : Char} (hq : q ∈ fences) (hq' : q' ∈ fences) :
    Fenced (fun code => p.replaceAll (fun _ => new) code) a s q q' := by
  intro b
  obtain ⟨out, hout, hedited⟩ := replaceAll_append h.productive h.nullable h.endless
    (show inWord (q :: (s ++ q' :: b)).head? = false from not_isWordChar_fence hq)
    (not_crosses h.fenceless hq) (fun (_ : Match) (_ : Ends _ a.length) => (rfl : new = new))
  have hfree {d : Char} (hd : d ∈ fences) : ∀ prev u rest new',
      Replaced p (fun _ => new) (a ++ q :: (s ++ q' :: b)) prev u rest new' → d ∉ u :=
    fun _ _ _ _ hit => not_mem_of_replaced h.fenceless hit hd
  obtain ⟨x', y', rfl, hrest, hnone⟩ := Edited.part (x := []) (hfree hq) hedited
  obtain rfl : x' = [] := by
    generalize hnil : ([] : List Char) = text at hnone
    cases hnone with
    | nil => rfl
    | keep => cases hnil
    | hit hu => exact absurd (List.append_eq_nil_iff.1 hnil.symm).1 hu
  obtain ⟨s', b', rfl, -, hinner⟩ := Edited.part (hfree hq') hrest
  have hedge : inWord (some q) = inWord none := not_isWordChar_fence hq
  refine ⟨b', ?_⟩
  show p.replaceAll _ _ = p.replaceAll _ _ ++ q :: (p.replaceAll _ _ ++ q' :: b')
  rw [hout, List.nil_append]
  refine congrArg (fun s => _ ++ q :: (s ++ q' :: b'))
    (words_unique h.apart (hinner.mono ?_ ?_) hedge (h.edited new s))
  · intro prev r hkept hprev w hw rest hr hfollows
    refine h.kept hkept hprev w hw (rest ++ q' :: b) (by rw [hr, List.append_assoc]) ?_
    exact (h.fence hq' rest b).2 hfollows
  · intro prev u rest new' hit
    obtain ⟨hprev, hu, hfollows⟩ := h.hit hit
    obtain ⟨pos, g, -, -, hnew⟩ := hit
    exact ⟨hprev, hu, (h.fence hq' rest b).1 hfollows, hnew⟩

/-! ### Texts that words leave alone -/

/-- The word does not stand in the text in front of a text that may follow it. -/
def Lacks (w : List Char) (Follows : List Char → Prop) (text : List Char) : Prop :=
  ∀ a b, text = a ++ (w ++ b) → inWord a.getLast? = false → ¬ Follows b

theorem lacks_true_iff {w text : List Char} : Lacks w (fun _ => True) text ↔ ¬ Mentions w none text := by
  simp only [Lacks, Mentions, Option.or_none, not_true_eq_false, not_exists, not_and]

namespace ReadsWords

variable {ws : List (List Char)} {Follows : List Char → Prop} {new : List Char}

/-- A text is left alone exactly if it lacks the words. -/
theorem replaceAll_eq_self_iff (h : ReadsWords p ws Follows)
    (hnew : ∀ w ∈ ws, new.length ≤ w.length ∧ new ≠ w) (hempty : [] ∉ ws) {text : List Char} :
    p.replaceAll (fun _ => new) text = text ↔ ∀ w ∈ ws, Lacks w Follows text := by
  have hedited := h.edited new text
  constructor
  · intro hself w hw a b htext ha
    obtain ⟨c, r, rfl⟩ := List.exists_cons_of_ne_nil (fun hnil : w = [] => hempty (hnil ▸ hw))
    have hkept := hedited.kept_of_self (fun _ _ _ _ hit => ?_) hself htext
    · rw [Option.or_none] at hkept
      exact hkept ha _ hw b rfl
    · obtain ⟨-, hu, -, rfl⟩ := hit
      exact hnew _ hu
  · intro hno
    refine hedited.eq_of_no_hit fun x u rest new' htext _ hit => ?_
    obtain ⟨hprev, hu, hfollows, -⟩ := hit
    rw [Option.or_none] at hprev
    exact hno u hu x rest htext hprev hfollows

theorem length_le (h : ReadsWords p ws Follows) (hnew : ∀ w ∈ ws, new.length ≤ w.length) (text : List Char) :
    (p.replaceAll (fun _ => new) text).length ≤ text.length :=
  (h.edited new text).length_le fun _ _ _ _ ⟨_, hu, _, hnew'⟩ => hnew' ▸ hnew _ hu

theorem eq_self_of_length_le (h : ReadsWords p ws Follows) (hnew : ∀ w ∈ ws, new.length < w.length)
    {text : List Char} (hlength : text.length ≤ (p.replaceAll (fun _ => new) text).length) :
    p.replaceAll (fun _ => new) text = text :=
  (h.edited new text).eq_of_length_le (fun _ _ _ _ ⟨_, hu, _, hnew'⟩ => hnew' ▸ hnew _ hu) hlength

end ReadsWords

end Recast.Modernize
