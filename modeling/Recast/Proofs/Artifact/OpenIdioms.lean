import Recast.Proofs.Artifact.Fences
import Recast.Proofs.Artifact.StateUpdates

/-!
# Idioms that are open

A match crosses a fence where something is open in front of it that a character behind it can
close: the braces of a declaration or of an update, the arguments of a call, a quoted path, or
a list of classes. The other idioms hold no fence and no text between two.
-/

namespace Recast.Modernize

open Text Pattern Pattern.Idiom Unicode

/-! ### What is open at the end of a text -/

/-- The braces of a declaration are open. -/
def OpensBinding (a : List Char) : Prop :=
  ∃ x word s y, a = x ++ (word ++ (s ++ '\x7b' :: y)) ∧ (word = "const".toList ∨ word = "let".toList) ∧
    s.all isBlank = true ∧ '\x7b' ∉ y ∧ '\x7d' ∉ y

/-- The object of a state update is open. -/
def OpensUpdate (a : List Char) : Prop :=
  ∃ x s y, a = x ++ ("this.setState(".toList ++ (s ++ '\x7b' :: y)) ∧ s.all isBlank = true ∧
    '\x7b' ∉ y ∧ '\x7d' ∉ y

/-- The arguments of a call of `history.replace` are open. -/
def OpensCall (a : List Char) : Prop :=
  ∃ x y, a = x ++ ("history.replace(".toList ++ y) ∧ '(' ∉ y ∧ ')' ∉ y

def IsQuote (q : Char) : Prop := q = '"' ∨ q = '\''

/-- A quoted relative path is open. -/
def OpensPath (a : List Char) : Prop :=
  ∃ x q dots y, a = x ++ q :: (dots ++ '/' :: y) ∧ IsQuote q ∧ (dots = ".".toList ∨ dots = "..".toList) ∧
    '"' ∉ y ∧ '\'' ∉ y

/-- The value of a class attribute is open or about to come. -/
def OpensClass (a : List Char) : Prop :=
  (∃ x, a = x ++ "className=".toList) ∨
    ∃ x q y, a = x ++ ("className=".toList ++ q :: y) ∧ IsQuote q ∧ q ∉ y

theorem OpensBinding.brace_mem {a : List Char} (h : OpensBinding a) : '\x7b' ∈ a := by
  obtain ⟨x, word, s, y, rfl, -⟩ := h
  simp

theorem OpensUpdate.brace_mem {a : List Char} (h : OpensUpdate a) : '\x7b' ∈ a := by
  obtain ⟨x, s, y, rfl, -⟩ := h
  simp

theorem OpensCall.word_subset {a : List Char} (h : OpensCall a) : "history.replace(".toList ⊆ a := by
  obtain ⟨x, y, rfl, -⟩ := h
  exact fun c hc => List.mem_append_right x (List.mem_append_left y hc)

theorem OpensPath.slash_mem {a : List Char} (h : OpensPath a) : '/' ∈ a := by
  obtain ⟨x, q, dots, y, rfl, -⟩ := h
  simp

theorem OpensClass.equals_mem {a : List Char} (h : OpensClass a) : '=' ∈ a := by
  have hword : '=' ∈ "className=".toList := by decide
  rcases h with ⟨x, rfl⟩ | ⟨x, q, y, rfl, -⟩
  · exact List.mem_append_right x hword
  · exact List.mem_append_right x (List.mem_append_left _ hword)

/-! ### Fences inside a match -/

theorem not_isBlank_fence {q : Char} (hq : q ∈ fences) : isBlank q = false := by
  have hall : ∀ q ∈ fences, isBlank q = false := List.all_iff_forall_prop.1 (by decide)
  exact hall q hq

theorem fence_not_mem_blank {q : Char} (hq : q ∈ fences) {s : List Char} (hs : s.all isBlank = true) :
    q ∉ s :=
  not_mem_of_blank hs (not_isBlank_fence hq)

theorem inside_of_append {h i t y z : List Char} {q : Char} (heq : h ++ (i ++ t) = y ++ q :: z) (hh : q ∉ h)
    (ht : q ∉ t) : ∃ i₁ i₂, i = i₁ ++ q :: i₂ ∧ y = h ++ i₁ ∧ z = i₂ ++ t := by
  rcases List.append_eq_append_iff.1 heq with ⟨v, rfl, hv⟩ | ⟨v, rfl, hv⟩
  · rcases List.append_eq_append_iff.1 hv with ⟨w, rfl, hw⟩ | ⟨w, rfl, hw⟩
    · rw [hw] at ht
      simp at ht
    · cases w with
      | nil =>
        rw [List.nil_append] at hw
        rw [← hw] at ht
        simp at ht
      | cons d w =>
        obtain ⟨rfl, hz⟩ := List.cons.inj hw
        exact ⟨v, w, rfl, rfl, hz⟩
  · cases v with
    | nil =>
      cases i with
      | nil =>
        simp only [List.nil_append] at hv
        rw [← hv] at ht
        simp at ht
      | cons d i =>
        obtain ⟨rfl, hz⟩ := List.cons.inj hv
        exact ⟨[], i, rfl, by simp, hz⟩
    | cons d v =>
      obtain ⟨rfl, -⟩ := List.cons.inj hv
      simp at hh

theorem not_mem_left {c : Char} {i₁ i₂ : List Char} {q : Char} (h : c ∉ i₁ ++ q :: i₂) : c ∉ i₁ :=
  fun hmem => h (List.mem_append_left _ hmem)

theorem not_mem_of_concat {c d q : Char} {v x z : List Char} (h : v ++ [d] = x ++ q :: z) (hc : c ∉ v) :
    c ∉ x := by
  rcases List.append_eq_append_iff.1 h with ⟨w, rfl, hw⟩ | ⟨w, rfl, -⟩
  · cases w with
    | nil => simpa using hc
    | cons e w => simp at hw
  · exact fun hmem => hc (List.mem_append_left _ hmem)

variable {a t : List Char} {q : Char}

theorem opensUpdate_of_crosses (hq : q ∈ fences) (h : Crosses setStateObject a (q :: t)) : OpensUpdate a := by
  obtain ⟨x, y, z, rest, rfl, -, -, hit⟩ := Crosses.split h
  obtain ⟨-, s, arg, s', -, hu, hs, ho, hc, hs', -, -⟩ := replaced_setStateObject hit
  have hhead : q ∉ "this.setState(".toList ++ (s ++ ['\x7b']) := by
    simp only [List.mem_append, not_or]
    exact ⟨fence_not_mem_unfenced hq (by decide), fence_not_mem_blank hq hs, fence_not_mem_unfenced hq (by decide)⟩
  have htail : q ∉ ['\x7d'] ++ (s' ++ [')']) := by
    simp only [List.mem_append, not_or]
    exact ⟨fence_not_mem_unfenced hq (by decide), fence_not_mem_blank hq hs', fence_not_mem_unfenced hq (by decide)⟩
  obtain ⟨i₁, i₂, rfl, rfl, -⟩ := inside_of_append (i := arg) (by rw [hu]; simp) hhead htail
  exact ⟨x, s, i₁, by simp, hs, not_mem_left ho, not_mem_left hc⟩

theorem opensCall_of_crosses (hq : q ∈ fences) (h : Crosses historyReplace a (q :: t)) : OpensCall a := by
  obtain ⟨x, y, z, rest, rfl, -, -, hit⟩ := Crosses.split h
  obtain ⟨-, arg, -, hu, ho, hc, -, -⟩ := replaced_historyReplace hit
  have hhead : q ∉ "history.replace(".toList := fence_not_mem_unfenced hq (by decide)
  have htail : q ∉ [')'] := fence_not_mem_unfenced hq (by decide)
  obtain ⟨i₁, i₂, rfl, rfl, -⟩ := inside_of_append hu.symm hhead htail
  exact ⟨x, i₁, rfl, not_mem_left ho, not_mem_left hc⟩

theorem replaced_classNameValue_quoted {f : Match → List Char} {text : List Char} {prev : Option Char}
    {u rest new : List Char} (h : Replaced classNameValue f text prev u rest new) :
    ∃ q value, IsQuote q ∧ u = "className=".toList ++ q :: (value ++ [q]) ∧ q ∉ value := by
  obtain ⟨pos, g, -, hreads, -⟩ := h
  obtain ⟨c₁, g₁, hhead, hvalue⟩ := reads_append.1 hreads
  obtain ⟨-, hrest, -⟩ := reads_lit hhead
  cases hvalue with
  | left hread =>
    obtain ⟨value, -, -, hvalue, hfree, -⟩ := reads_quotedValue hread
    refine ⟨'"', value, .inl rfl, List.append_cancel_right (hrest.trans ?_), hfree '"' (by decide)⟩
    rw [hvalue]
    simp
  | right hread =>
    obtain ⟨value, -, -, hvalue, hfree, -⟩ := reads_quotedValue hread
    refine ⟨'\'', value, .inr rfl, List.append_cancel_right (hrest.trans ?_), hfree '\'' (by decide)⟩
    rw [hvalue]
    simp

theorem opensClass_of_crosses (hq : q ∈ fences) (h : Crosses classNameValue a (q :: t)) : OpensClass a := by
  obtain ⟨x, y, z, rest, rfl, -, -, hit⟩ := Crosses.split h
  obtain ⟨d, value, hd, hu, hfree⟩ := replaced_classNameValue_quoted hit
  have hhead : q ∉ "className=".toList := fence_not_mem_unfenced hq (by decide)
  obtain ⟨i₁, i₂, hi, rfl, -⟩ := inside_of_append (i := d :: (value ++ [d])) (t := []) (by rw [hu]; simp) hhead
    List.not_mem_nil
  cases i₁ with
  | nil => exact .inl ⟨x, by simp⟩
  | cons e i₁ =>
    rw [List.cons_append] at hi
    obtain ⟨rfl, hvalue⟩ := List.cons.inj hi
    exact .inr ⟨x, d, i₁, rfl, hd, not_mem_of_concat hvalue hfree⟩

theorem leads_bindingDestructuring :
    Leads (lineIndent ++ Component.constOrLet ++ blanks ++ lit "\x7b" ++ star (noneIn "\x7b\x7d"))
      bindingDestructuring := by
  iterate 8 refine Leads.append ?_ (by decide)
  exact .refl _

theorem opensBinding_of_crosses (hq : q ∈ fences) (h : Crosses bindingDestructuring a (q :: t)) :
    OpensBinding a := by
  obtain ⟨x, y, z, rest, rfl, -, -, pos, g, -, hreads, -⟩ := Crosses.split h
  obtain ⟨c₅, g₅, w, hlead, hw, hfree⟩ := leads_bindingDestructuring hreads
  obtain ⟨c₄, g₄, h, hstar⟩ := reads_append.1 hlead
  obtain ⟨c₃, g₃, h, hopen⟩ := reads_append.1 h
  obtain ⟨c₂, g₂, h, hblanks⟩ := reads_append.1 h
  obtain ⟨c₁, g₁, hindent, hword⟩ := reads_append.1 h
  obtain ⟨indent, hindent', -⟩ := hindent.split
  have hfence : q ∉ indent := fence_not_mem (by decide) hindent hindent' hq
  have hword : ∃ word, (word = "const".toList ∨ word = "let".toList) ∧ c₁.rest = word ++ c₂.rest := by
    cases hword with
    | left h => exact ⟨_, .inl rfl, (reads_lit h).2.1⟩
    | right h => exact ⟨_, .inr rfl, (reads_lit h).2.1⟩
  obtain ⟨word, hword, hrest₁⟩ := hword
  obtain ⟨-, s, hs, hrest₂, -⟩ := reads_star_char hblanks
  obtain ⟨-, hrest₃, -⟩ := reads_lit hopen
  obtain ⟨-, inner, hall, hrest₄, -⟩ := reads_star_char hstar
  rw [all_noneIn_iff] at hall
  have hhead : q ∉ indent ++ (word ++ (s ++ ['\x7b'])) := by
    simp only [List.mem_append, not_or]
    refine ⟨hfence, ?_, fence_not_mem_blank hq hs, fence_not_mem_unfenced hq (by decide)⟩
    rcases hword with rfl | rfl <;> exact fence_not_mem_unfenced hq (by decide)
  have hu : (indent ++ (word ++ (s ++ ['\x7b']))) ++ (inner ++ w) = y ++ q :: z := by
    have hrest : y ++ q :: z ++ rest = indent ++ c₁.rest := hindent'
    refine List.append_cancel_right (Eq.trans ?_ hrest.symm)
    rw [hrest₁, hrest₂, hrest₃, hrest₄, hw]
    simp
  obtain ⟨i₁, i₂, rfl, rfl, -⟩ := inside_of_append hu hhead (hfree q hq)
  exact ⟨x ++ indent, word, s, i₁, by simp, hword, hs, not_mem_left (hall '\x7b' (by decide)),
    not_mem_left (hall '\x7d' (by decide))⟩

/-! ### Quoted paths -/

/-- The text begins with a relative path. -/
def StartsPath (u : List Char) : Prop := ∃ dots y, u = dots ++ '/' :: y ∧ (dots = ".".toList ∨ dots = "..".toList)

/-- Up to its first slash a relative path is dots, and it holds no quote. -/
structure RelativePath (dots y : List Char) : Prop where
  dots : dots = ".".toList ∨ dots = "..".toList
  noDouble : '"' ∉ y
  noSingle : '\'' ∉ y

theorem relativePath_of_reads {i : Nat} {c c' : Cursor} {g g' : Groups}
    (h : Reads (relativeAsset i) c g c' g') :
    ∃ dots y, c.rest = dots ++ '/' :: (y ++ c'.rest) ∧ RelativePath dots y := by
  have hfree {u : List Char} (hu : c.rest = u ++ c'.rest) {d : Char} (hd : IsQuote d) : d ∉ u := by
    intro hmem
    have hno : accepts d (relativeAsset i) = false := by rcases hd with rfl | rfl <;> exact rfl
    rw [accepts_of_reads h hu hmem] at hno
    cases hno
  obtain ⟨c₁, g₁, hups, hname⟩ := reads_append.1 h
  obtain ⟨c₂, g₂, hups, hdirs⟩ := reads_append.1 hups
  obtain ⟨v, hv, -⟩ := hname.split
  obtain ⟨v', hv', -⟩ := hdirs.split
  cases hups with
  | seq hfirst hmore =>
    obtain ⟨v'', hv'', -⟩ := hmore.split
    obtain ⟨c₃, g₃, hdots, hslash⟩ := reads_append.1 hfirst
    obtain ⟨c₄, g₄, hdot, hopt⟩ := reads_append.1 hdots
    obtain ⟨-, hrest₁, -⟩ := reads_lit hdot
    obtain ⟨-, hrest₃, -⟩ := reads_lit hslash
    have hdots : ∃ dots, c.rest = dots ++ c₃.rest ∧ (dots = ".".toList ∨ dots = "..".toList) := by
      rcases reads_opt hopt with hopt | ⟨rfl, -⟩
      · obtain ⟨-, hrest₂, -⟩ := reads_lit hopt
        exact ⟨"..".toList, by rw [hrest₁, hrest₂]; rfl, .inr rfl⟩
      · exact ⟨".".toList, hrest₁, .inl rfl⟩
    obtain ⟨dots, hrest, hdots⟩ := hdots
    have hpath : c.rest = dots ++ '/' :: (v'' ++ (v' ++ v)) ++ c'.rest := by
      rw [hrest, hrest₃, hv'', hv', hv]
      simp
    have htail {d : Char} (hd : IsQuote d) : d ∉ v'' ++ (v' ++ v) :=
      fun hmem => hfree hpath hd (List.mem_append_right _ (List.mem_cons_of_mem _ hmem))
    exact ⟨dots, v'' ++ (v' ++ v), by rw [hpath]; simp, hdots, htail (.inl rfl), htail (.inr rfl)⟩

theorem opensPath_of_quoted {dots y₁ x y z : List Char} {d d' : Char} (hq : q ∈ fences) (hd : IsQuote d)
    (hpath : RelativePath dots y₁) (hy : y ≠ []) (h : d :: (dots ++ '/' :: (y₁ ++ [d'])) = y ++ q :: z) :
    OpensPath (x ++ y) := by
  obtain ⟨e, y, rfl⟩ := List.exists_cons_of_ne_nil hy
  rw [List.cons_append] at h
  obtain ⟨rfl, h⟩ := List.cons.inj h
  have hhead : q ∉ dots ++ ['/'] := by
    rcases hpath.dots with rfl | rfl <;> exact fence_not_mem_unfenced hq (by decide)
  obtain ⟨i₁, i₂, hi, rfl, -⟩ := inside_of_append (i := y₁ ++ [d']) (t := []) (by simpa using h) hhead
    List.not_mem_nil
  exact ⟨x, d, dots, i₁, by simp, hd, hpath.dots, not_mem_of_concat hi hpath.noDouble,
    not_mem_of_concat hi hpath.noSingle⟩

theorem replaced_assetString {f : Match → List Char} {text : List Char} {prev : Option Char}
    {u rest new : List Char} (h : Replaced assetString f text prev u rest new) :
    ∃ d dots y d' m, u = d :: (dots ++ '/' :: (y ++ [d'])) ∧ IsQuote d ∧ RelativePath dots y ∧ new = f m ∧
      m.groupText text 1 = [d] := by
  obtain ⟨pos, g, hin, hreads, rfl⟩ := h
  obtain ⟨c₂, g₂, h, hclose⟩ := reads_append.1 hreads
  obtain ⟨c₁, g₁, hopen, hpath⟩ := reads_append.1 h
  obtain ⟨g₃, hquote, rfl⟩ := reads_group hopen
  obtain ⟨rfl, d, hd, hquote, hpos⟩ := reads_oneIn hquote
  obtain ⟨dots, y, hrest, hdots⟩ := relativePath_of_reads hpath
  obtain ⟨rfl, d', -, hquote', -⟩ := reads_oneIn hclose
  obtain ⟨-, -, -, -, -, -, -, -, rfl⟩ := reads_relativeAsset hpath
  refine ⟨d, dots, y, d', _, List.append_cancel_right (hquote.trans ?_), quote_cases hd, hdots, rfl, ?_⟩
  · rw [hrest, hquote']
    simp
  · exact Match.groupText_eq (by decide) rfl hin hquote hpos

theorem replaced_assetRequire {f : Match → List Char} {text : List Char} {prev : Option Char}
    {u rest new : List Char} (h : Replaced assetRequire f text prev u rest new) :
    ∃ s d dots y d' s', u = "require(".toList ++ (s ++ (d :: (dots ++ '/' :: (y ++ [d'])) ++ (s' ++ [')']))) ∧
      s.all isBlank = true ∧ IsQuote d ∧ RelativePath dots y ∧ s'.all isBlank = true := by
  obtain ⟨pos, g, -, hreads, -⟩ := h
  obtain ⟨c₆, g₆, h, hclose⟩ := reads_append.1 hreads
  obtain ⟨c₅, g₅, h, hblanks'⟩ := reads_append.1 h
  obtain ⟨c₄, g₄, h, hquote'⟩ := reads_append.1 h
  obtain ⟨c₃, g₃, h, hpath⟩ := reads_append.1 h
  obtain ⟨c₂, g₂, hhead, hquote⟩ := reads_append.1 h
  obtain ⟨c₁, g₁, hword, hblanks⟩ := reads_append.1 hhead
  obtain ⟨-, -, hrest⟩ := reads_word (by decide) hword
  obtain ⟨-, s, hs, hblanks, -⟩ := reads_star_char hblanks
  obtain ⟨-, d, hd, hquote, -⟩ := reads_oneIn hquote
  obtain ⟨dots, y, hpathrest, hpath⟩ := relativePath_of_reads hpath
  obtain ⟨-, d', -, hquote', -⟩ := reads_oneIn hquote'
  obtain ⟨-, s', hs', hblanks', -⟩ := reads_star_char hblanks'
  obtain ⟨-, hclose, -⟩ := reads_lit hclose
  refine ⟨s, d, dots, y, d', s', List.append_cancel_right (hrest.trans ?_), hs, quote_cases hd, hpath, hs'⟩
  rw [hblanks, hquote, hpathrest, hquote', hblanks', hclose]
  simp

theorem opensPath_of_crosses_string (hq : q ∈ fences) (h : Crosses assetString a (q :: t)) : OpensPath a := by
  obtain ⟨x, y, z, rest, rfl, hy, -, hit⟩ := Crosses.split h
  obtain ⟨d, dots, y₁, d', -, hu, hd, hpath, -⟩ := replaced_assetString hit
  exact opensPath_of_quoted hq hd hpath hy hu.symm

/-- A match of `require` crosses a fence in an open path, unless a path begins behind the fence. -/
theorem opensPath_of_crosses_require (hq : q ∈ fences) (h : Crosses assetRequire a (q :: t))
    (ht : ¬ StartsPath t) : OpensPath a := by
  obtain ⟨x, y, z, rest, rfl, -, rfl, hit⟩ := Crosses.split h
  obtain ⟨s, d, dots, y₁, d', s', hu, hs, hd, hpath, hs'⟩ := replaced_assetRequire hit
  have hhead : q ∉ "require(".toList ++ s := by
    rw [List.mem_append, not_or]
    exact ⟨fence_not_mem_unfenced hq (by decide), fence_not_mem_blank hq hs⟩
  have htail : q ∉ s' ++ [')'] := by
    rw [List.mem_append, not_or]
    exact ⟨fence_not_mem_blank hq hs', fence_not_mem_unfenced hq (by decide)⟩
  obtain ⟨i₁, i₂, hi, rfl, rfl⟩ := inside_of_append (by rw [hu, List.append_assoc]) hhead htail
  by_cases hne : i₁ = []
  · subst hne
    obtain ⟨rfl, rfl⟩ := List.cons.inj hi
    exact absurd ⟨dots, y₁ ++ [d'] ++ (s' ++ [')']) ++ rest, by simp, hpath.dots⟩ ht
  · rw [← List.append_assoc]
    exact opensPath_of_quoted hq hd hpath hne hi

end Recast.Modernize
