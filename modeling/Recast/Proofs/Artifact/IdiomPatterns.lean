import Recast.Artifact.Modernize
import Recast.Proofs.Pattern.Mentions

/-!
# What the idiom patterns read

For each pattern of an older idiom, the text that a match reads and what is put in its
place, and for the calls also the converse: a call whose arguments fit is read.
-/

namespace Recast.Modernize

open Text Pattern Pattern.Idiom Unicode

theorem reads_word {s : String} (hs : s.toList.head?.any isWordChar = true) {c c' : Cursor}
    {g g' : Groups} (h : Reads (wordEdge ++ lit s) c g c' g') :
    g' = g ∧ inWord c.prev = false ∧ c.rest = s.toList ++ c'.rest := by
  obtain ⟨c₁, g₁, hedge, hlit⟩ := reads_append.1 h
  cases hedge with
  | anchor hedge =>
    obtain ⟨hg, hrest, -⟩ := reads_lit hlit
    refine ⟨hg, ?_, hrest⟩
    obtain ⟨x, r, hx⟩ := List.exists_cons_of_ne_nil (l := s.toList) (by rintro hnil; simp [hnil] at hs)
    simpa [Anchor.holds, hrest, hx, inWord, show isWordChar x = true by simpa [hx] using hs] using hedge

theorem exists_reads_lit (s : String) (pos : Nat) (prev : Option Char) (g : Groups)
    (rest : List Char) :
    ∃ n q, Reads (lit s) ⟨pos, prev, s.toList ++ rest⟩ g ⟨n, q, rest⟩ g := by
  unfold lit
  induction s.toList generalizing pos prev with
  | nil => exact ⟨pos, prev, .empty⟩
  | cons x xs ih =>
    obtain ⟨n, q, h⟩ := ih (pos + 1) (some x)
    exact ⟨n, q, .seq (.char (beq_self_eq_true x)) h⟩

theorem exists_reads_star {p : Char → Bool} {u : List Char} (hu : u.all p = true) (pos : Nat)
    (prev : Option Char) (g : Groups) (rest : List Char) :
    ∃ n q, Reads (star (char p)) ⟨pos, prev, u ++ rest⟩ g ⟨n, q, rest⟩ g := by
  induction u generalizing pos prev with
  | nil => exact ⟨pos, prev, .done⟩
  | cons x u ih =>
    simp only [List.all_cons, Bool.and_eq_true] at hu
    obtain ⟨n, q, h⟩ := ih hu.2 (pos + 1) (some x)
    exact ⟨n, q, .more (.char hu.1) h⟩

theorem exists_reads_word {s : String} (hs : s.toList.head?.any isWordChar = true)
    {prev : Option Char} (hprev : inWord prev = false) (pos : Nat) (g : Groups) (rest : List Char) :
    ∃ n q, Reads (wordEdge ++ lit s) ⟨pos, prev, s.toList ++ rest⟩ g ⟨n, q, rest⟩ g := by
  obtain ⟨n, q, h⟩ := exists_reads_lit s pos prev g rest
  refine ⟨n, q, .seq (.anchor ?_) h⟩
  obtain ⟨x, r, hx⟩ := List.exists_cons_of_ne_nil (l := s.toList) (by rintro hnil; simp [hnil] at hs)
  have hword : isWordChar x = true := by simpa [hx] using hs
  have hprev : prev.any isWordChar = false := hprev
  simp [Anchor.holds, hx, hprev, hword]

theorem productive_lit (s : String) : (lit s).productive = true := by
  unfold lit
  induction s.toList with
  | nil => rfl
  | cons x xs ih => exact ih

theorem productive_memberOf (object : String) : (memberOf object).productive = true := by
  show ((true && (lit object).productive) && (lit ".").productive) = true
  rw [productive_lit, productive_lit]
  rfl

theorem nullable_memberOf (object : String) : (memberOf object).nullable = false := Bool.and_false _

theorem all_noneIn_iff {s : String} {u : List Char} :
    (u.all fun c => !s.toList.contains c) = true ↔ ∀ c ∈ s.toList, c ∉ u := by
  simp only [List.all_eq_true, Bool.not_eq_true', List.contains_eq_mem, decide_eq_false_iff_not]
  exact ⟨fun h c hc hu => h c hu hc, fun h c hu hc => h c hc hu⟩

theorem replaced_historyReplace {f : Match → List Char} {text : List Char} {prev : Option Char}
    {u rest new : List Char} (h : Replaced historyReplace f text prev u rest new) :
    inWord prev = false ∧ ∃ arg m, u = "history.replace(".toList ++ (arg ++ [')']) ∧
      '(' ∉ arg ∧ ')' ∉ arg ∧ new = f m ∧ m.groupText text 1 = arg := by
  obtain ⟨pos, g, hin, hreads, rfl⟩ := h
  obtain ⟨c₂, g₂, h, hclose⟩ := reads_append.1 hreads
  obtain ⟨c₁, g₁, hword, harg⟩ := reads_append.1 h
  obtain ⟨rfl, hprev, hrest⟩ := reads_word (by decide) hword
  obtain ⟨g₃, hstar, rfl⟩ := reads_group harg
  obtain ⟨rfl, arg, hall, harg, hpos⟩ := reads_star_char hstar
  obtain ⟨rfl, hclose, -⟩ := reads_lit hclose
  rw [all_noneIn_iff] at hall
  have hu : u = "history.replace(".toList ++ (arg ++ [')']) := by
    refine List.append_cancel_right (hrest.trans ?_)
    rw [harg, hclose]
    simp
  refine ⟨hprev, arg, _, hu, hall '(' (by decide), hall ')' (by decide), rfl, ?_⟩
  exact Match.groupText_eq (by decide) rfl (hword.within hin) harg hpos

theorem exists_reads_historyReplace {prev : Option Char} (hprev : inWord prev = false) (pos : Nat)
    {arg : List Char} (ho : '(' ∉ arg) (hc : ')' ∉ arg) (after : List Char) :
    ∃ c' g, Reads historyReplace ⟨pos, prev, "history.replace(".toList ++ (arg ++ ')' :: after)⟩ []
      c' g := by
  obtain ⟨n, q, hword⟩ :=
    exists_reads_word (s := "history.replace(") (by decide) hprev pos [] (arg ++ ')' :: after)
  have hall : (arg.all fun c => !"()".toList.contains c) = true := all_noneIn_iff.2 (by simp [ho, hc])
  obtain ⟨n₁, q₁, harg⟩ := exists_reads_star hall n q [] (')' :: after)
  obtain ⟨n₂, q₂, hclose⟩ := exists_reads_lit ")" n₁ q₁ [(1, ⟨n, n₁⟩)] after
  exact ⟨_, _, .seq (.seq hword (.group harg)) hclose⟩

theorem replaced_historyBack {f : Match → List Char} {text : List Char} {prev : Option Char}
    {u rest new : List Char} (h : Replaced historyBack f text prev u rest new) :
    inWord prev = false ∧ ∃ s m, u = "history.goBack(".toList ++ (s ++ [')']) ∧ s.all isBlank = true ∧
      new = f m := by
  obtain ⟨pos, g, hin, hreads, rfl⟩ := h
  obtain ⟨c₂, g₂, h, hclose⟩ := reads_append.1 hreads
  obtain ⟨c₁, g₁, hword, hblanks⟩ := reads_append.1 h
  obtain ⟨rfl, hprev, hrest⟩ := reads_word (by decide) hword
  obtain ⟨rfl, s, hs, hblanks, -⟩ := reads_star_char hblanks
  obtain ⟨rfl, hclose, -⟩ := reads_lit hclose
  refine ⟨hprev, s, _, List.append_cancel_right (hrest.trans ?_), hs, rfl⟩
  rw [hblanks, hclose]
  simp

theorem exists_reads_historyBack {prev : Option Char} (hprev : inWord prev = false) (pos : Nat)
    {s : List Char} (hs : s.all isBlank = true) (after : List Char) :
    ∃ c' g, Reads historyBack ⟨pos, prev, "history.goBack(".toList ++ (s ++ ')' :: after)⟩ [] c' g := by
  obtain ⟨n, q, hword⟩ :=
    exists_reads_word (s := "history.goBack(") (by decide) hprev pos [] (s ++ ')' :: after)
  obtain ⟨n₁, q₁, hblanks⟩ := exists_reads_star hs n q [] (')' :: after)
  obtain ⟨n₂, q₂, hclose⟩ := exists_reads_lit ")" n₁ q₁ [] after
  exact ⟨_, _, .seq (.seq hword hblanks) hclose⟩

theorem replaced_setStateObject {f : Match → List Char} {text : List Char} {prev : Option Char}
    {u rest new : List Char} (h : Replaced setStateObject f text prev u rest new) :
    inWord prev = false ∧ ∃ s arg s' m,
      u = "this.setState(".toList ++ (s ++ '\x7b' :: (arg ++ '\x7d' :: (s' ++ [')']))) ∧
      s.all isBlank = true ∧ '\x7b' ∉ arg ∧ '\x7d' ∉ arg ∧ s'.all isBlank = true ∧
      new = f m ∧ m.groupText text 1 = arg := by
  obtain ⟨pos, g, hin, hreads, rfl⟩ := h
  obtain ⟨c₆, g₆, h, hclose⟩ := reads_append.1 hreads
  obtain ⟨c₅, g₅, h, hblanks'⟩ := reads_append.1 h
  obtain ⟨c₄, g₄, h, hend⟩ := reads_append.1 h
  obtain ⟨c₃, g₃, hstart, harg⟩ := reads_append.1 h
  obtain ⟨c₂, g₂, hhead, hopen⟩ := reads_append.1 hstart
  obtain ⟨c₁, g₁, hword, hblanks⟩ := reads_append.1 hhead
  obtain ⟨rfl, hprev, hrest⟩ := reads_word (by decide) hword
  obtain ⟨rfl, s, hs, hblanks, -⟩ := reads_star_char hblanks
  obtain ⟨rfl, hopen, -⟩ := reads_lit hopen
  obtain ⟨g₇, hstar, rfl⟩ := reads_group harg
  obtain ⟨rfl, arg, hall, harg, hpos⟩ := reads_star_char hstar
  obtain ⟨rfl, hend, -⟩ := reads_lit hend
  obtain ⟨rfl, s', hs', hblanks', -⟩ := reads_star_char hblanks'
  obtain ⟨rfl, hclose, -⟩ := reads_lit hclose
  rw [all_noneIn_iff] at hall
  refine ⟨hprev, s, arg, s', _, List.append_cancel_right (hrest.trans ?_), hs, hall '\x7b' (by decide),
    hall '\x7d' (by decide), hs', rfl, ?_⟩
  · rw [hblanks, hopen, harg, hend, hblanks', hclose]
    simp
  · exact Match.groupText_eq (by decide) rfl (hstart.within hin) harg hpos

theorem exists_reads_setStateObject {prev : Option Char} (hprev : inWord prev = false) (pos : Nat)
    {s arg s' : List Char} (hs : s.all isBlank = true) (ho : '\x7b' ∉ arg) (hc : '\x7d' ∉ arg)
    (hs' : s'.all isBlank = true) (after : List Char) :
    ∃ c' g, Reads setStateObject ⟨pos, prev, "this.setState(".toList ++
      (s ++ '\x7b' :: (arg ++ '\x7d' :: (s' ++ ')' :: after)))⟩ [] c' g := by
  have hall : (arg.all fun c => !"\x7b\x7d".toList.contains c) = true := all_noneIn_iff.2 (by simp [ho, hc])
  obtain ⟨n, q, hword⟩ := exists_reads_word (s := "this.setState(") (by decide) hprev pos [] _
  obtain ⟨n₁, q₁, hblanks⟩ := exists_reads_star hs n q [] _
  obtain ⟨n₂, q₂, hopen⟩ := exists_reads_lit "\x7b" n₁ q₁ [] _
  obtain ⟨n₃, q₃, harg⟩ := exists_reads_star hall n₂ q₂ [] _
  obtain ⟨n₄, q₄, hend⟩ := exists_reads_lit "\x7d" n₃ q₃ [(1, ⟨n₂, n₃⟩)] _
  obtain ⟨n₅, q₅, hblanks'⟩ := exists_reads_star hs' n₄ q₄ [(1, ⟨n₂, n₃⟩)] _
  obtain ⟨n₆, q₆, hclose⟩ := exists_reads_lit ")" n₅ q₅ [(1, ⟨n₂, n₃⟩)] after
  exact ⟨_, _,
    .seq (.seq (.seq (.seq (.seq (.seq hword hblanks) hopen) (.group harg)) hend) hblanks') hclose⟩

/-- The pattern has no groups. -/
def groupless : Pattern → Bool
  | .empty | .char _ | .anchor _ => true
  | .seq p q | .either p q => groupless p && groupless q
  | .many _ p => groupless p
  | .group _ _ => false

theorem groups_of_groupless {p : Pattern} {c c' : Cursor} {g g' : Groups} (h : Reads p c g c' g')
    (hp : groupless p = true) : g' = g := by
  induction h with
  | empty | char | anchor | done => rfl
  | seq _ _ ihp ihq =>
    simp only [groupless, Bool.and_eq_true] at hp
    rw [ihq hp.2, ihp hp.1]
  | left _ ih =>
    simp only [groupless, Bool.and_eq_true] at hp
    exact ih hp.1
  | right _ ih =>
    simp only [groupless, Bool.and_eq_true] at hp
    exact ih hp.2
  | more _ _ ihp ihq => rw [ihq hp, ihp hp]
  | group => cases hp

theorem prev_of_reads_slash {c c' : Cursor} {g g' : Groups} (h : Reads (lit "/") c g c' g') :
    c'.prev = some '/' := by
  obtain ⟨-, hrest, -⟩ := reads_lit h
  obtain ⟨u, rest, hu, rfl⟩ := h.eq_after
  obtain rfl : u = "/".toList := List.append_cancel_right (hu.symm.trans hrest)
  rfl

theorem prev_of_reads_many {greedy : Bool} {p : Pattern} {x : Char}
    (hp : ∀ {c c' : Cursor} {g g' : Groups}, Reads p c g c' g' → c'.prev = some x) {c c' : Cursor}
    {g g' : Groups} (h : Reads (many greedy p) c g c' g') : c' = c ∨ c'.prev = some x := by
  generalize hq : many greedy p = q at h
  induction h with
  | done => exact .inl rfl
  | more hfirst _ _ ih =>
    cases hq
    rcases ih rfl with rfl | h
    · exact .inr (hp hfirst)
    · exact .inr h
  | _ => cases hq

/-- The path before a file name ends in a slash. -/
theorem reads_relativeAsset {i : Nat} {c c' : Cursor} {g g' : Groups}
    (h : Reads (relativeAsset i) c g c' g') :
    ∃ (v name : List Char) (c₁ : Cursor), c.rest = v ++ (name ++ c'.rest) ∧ v.getLast? = some '/' ∧
      c₁.rest = name ++ c'.rest ∧ c'.pos = c₁.pos + name.length ∧
      (∀ {text : List Char}, c.In text → c₁.In text) ∧ g' = (i, ⟨c₁.pos, c'.pos⟩) :: g := by
  obtain ⟨c₁, g₁, hpath, hgroup⟩ := reads_append.1 h
  obtain ⟨g₂, hname, rfl⟩ := reads_group hgroup
  have hgroups : g₂ = g := by
    rw [groups_of_groupless hname (by decide), groups_of_groupless hpath (by decide)]
  subst hgroups
  have hslash : c₁.prev = some '/' := by
    have hstep {c c' : Cursor} {g g' : Groups} (h : Reads (lit "." ++ opt (lit ".") ++ lit "/") c g c' g') :
        c'.prev = some '/' := by
      obtain ⟨_, _, -, hslash⟩ := reads_append.1 h
      exact prev_of_reads_slash hslash
    obtain ⟨c₂, g₂, hups, hdir⟩ := reads_append.1 hpath
    have hups : c₂.prev = some '/' := by
      cases hups with
      | seq hfirst hmore =>
        rcases prev_of_reads_many hstep hmore with rfl | hprev
        · exact hstep hfirst
        · exact hprev
    rcases reads_opt hdir with hdir | ⟨rfl, -⟩
    · obtain ⟨_, _, -, hslash⟩ := reads_append.1 hdir
      exact prev_of_reads_slash hslash
    · exact hups
  have hlt := hpath.pos_lt rfl
  have hwithin {text : List Char} : c.In text → c₁.In text := hpath.within
  obtain ⟨v, rest, hv, rfl⟩ := hpath.eq_after
  obtain ⟨name, hn, hpos⟩ := hname.split
  refine ⟨v, name, _, by rw [hv]; exact congrArg (v ++ ·) hn, ?_, hn, hpos, hwithin, rfl⟩
  cases hl : v.getLast? with
  | none =>
    simp only [List.getLast?_eq_none_iff.1 hl, List.length_nil] at hlt
    exact absurd hlt (Nat.lt_irrefl _)
  | some d =>
    rw [hl] at hslash
    exact hslash

theorem reads_oneIn {s : String} {c c' : Cursor} {g g' : Groups} (h : Reads (oneIn s) c g c' g') :
    g' = g ∧ ∃ x ∈ s.toList, c.rest = x :: c'.rest ∧ c'.pos = c.pos + 1 := by
  cases h with
  | char hx => exact ⟨rfl, _, by simpa using hx, rfl, rfl⟩

/-- The asset that `u` names with its path is named from the asset folder. -/
def NamesAsset (u new : List Char) : Prop :=
  ∃ (v name v' : List Char) (d q : Char), u = v ++ (name ++ (v' ++ [d])) ∧ v.getLast? = some '/' ∧
    isWordChar d = false ∧ (q = '"' ∨ q = '\'') ∧ new = q :: ("/assets/".toList ++ (name ++ [q]))

theorem quote_cases {q : Char} (h : q ∈ "\"'".toList) : q = '"' ∨ q = '\'' := by simpa using h

theorem namesAsset_require {text : List Char} {prev : Option Char} {u rest new : List Char}
    (h : Replaced assetRequire (fun m => "'/assets/".toList ++ m.groupText text 1 ++ ['\'']) text prev
      u rest new) :
    NamesAsset u new := by
  obtain ⟨pos, g, hin, hreads, rfl⟩ := h
  obtain ⟨c₆, g₆, h, hclose⟩ := reads_append.1 hreads
  obtain ⟨c₅, g₅, h, hblanks'⟩ := reads_append.1 h
  obtain ⟨c₄, g₄, h, hquote'⟩ := reads_append.1 h
  obtain ⟨c₃, g₃, hstart, hpath⟩ := reads_append.1 h
  obtain ⟨c₂, g₂, hhead, hquote⟩ := reads_append.1 hstart
  obtain ⟨c₁, g₁, hword, hblanks⟩ := reads_append.1 hhead
  obtain ⟨rfl, -, hrest⟩ := reads_word (by decide) hword
  obtain ⟨rfl, s, hs, hblanks, -⟩ := reads_star_char hblanks
  obtain ⟨rfl, q, hq, hquote, -⟩ := reads_oneIn hquote
  obtain ⟨v, name, c, hasset, hv, hname, hpos, hwithin, rfl⟩ := reads_relativeAsset hpath
  obtain ⟨rfl, q', hq', hquote', -⟩ := reads_oneIn hquote'
  obtain ⟨rfl, s', hs', hblanks', -⟩ := reads_star_char hblanks'
  obtain ⟨rfl, hclose, -⟩ := reads_lit hclose
  refine ⟨"require(".toList ++ (s ++ q :: v), name, q' :: s', ')', '\'', ?_, ?_, by decide, .inr rfl, ?_⟩
  · refine List.append_cancel_right (hrest.trans ?_)
    rw [hblanks, hquote, hasset, hquote', hblanks', hclose]
    simp
  · rw [List.getLast?_append, List.getLast?_append, List.getLast?_cons, hv]
    rfl
  · have hgroup : Match.groupText ⟨⟨pos, pos + u.length⟩, [(1, ⟨c.pos, c₄.pos⟩)]⟩ text 1 = name :=
      Match.groupText_eq (by decide) rfl (hwithin (hstart.within hin)) hname hpos
    simp only [hgroup]
    rfl

theorem namesAsset_string {text : List Char} {prev : Option Char} {u rest new : List Char}
    (h : Replaced assetString (fun m => m.groupText text 1 ++ "/assets/".toList ++ m.groupText text 2 ++
      m.groupText text 1) text prev u rest new) :
    NamesAsset u new := by
  obtain ⟨pos, g, hin, hreads, rfl⟩ := h
  obtain ⟨c₂, g₂, h, hquote'⟩ := reads_append.1 hreads
  obtain ⟨c₁, g₁, hopen, hpath⟩ := reads_append.1 h
  obtain ⟨g₃, hquote, rfl⟩ := reads_group hopen
  obtain ⟨rfl, q, hq, hquote, hposq⟩ := reads_oneIn hquote
  obtain ⟨v, name, c, hasset, hv, hname, hpos, hwithin, rfl⟩ := reads_relativeAsset hpath
  obtain ⟨rfl, q', hq', hquote', -⟩ := reads_oneIn hquote'
  have hd : isWordChar q' = false := by rcases quote_cases hq' with rfl | rfl <;> decide
  refine ⟨q :: v, name, [], q', q, ?_, by rw [List.getLast?_cons, hv]; rfl, hd, quote_cases hq, ?_⟩
  · refine List.append_cancel_right (hquote.trans ?_)
    rw [hasset, hquote']
    simp
  · have hfirst : Match.groupText
        ⟨⟨pos, pos + u.length⟩, [(2, ⟨c.pos, c₂.pos⟩), (1, ⟨pos, c₁.pos⟩)]⟩ text 1 = [q] :=
      Match.groupText_eq (by decide) rfl hin hquote hposq
    have hsecond : Match.groupText
        ⟨⟨pos, pos + u.length⟩, [(2, ⟨c.pos, c₂.pos⟩), (1, ⟨pos, c₁.pos⟩)]⟩ text 2 = name :=
      Match.groupText_eq (by decide) rfl (hwithin (hopen.within hin)) hname hpos
    simp only [hfirst, hsecond]
    simp

theorem groupText?_eq {m : Match} {i : Nat} {c c' : Cursor} {text u : List Char} (hi : i ≠ 0)
    (hl : m.groups.lookup i = some ⟨c.pos, c'.pos⟩) (hc : c.In text)
    (hu : c.rest = u ++ c'.rest) (hn : c'.pos = c.pos + u.length) :
    m.groupText? text i = some u := by
  simp [Match.groupText?, Match.group?, hi, hl, hc.text_span hu hn]

/-- A quoted value without its quotes. -/
theorem reads_quotedValue {s : String} {i : Nat} {c c' : Cursor} {g g' : Groups}
    (h : Reads (lit s ++ group i (star (noneIn s)) ++ lit s) c g c' g') :
    ∃ (value : List Char) (c₁ c₂ : Cursor), c.rest = s.toList ++ (value ++ (s.toList ++ c'.rest)) ∧
      (∀ q ∈ s.toList, q ∉ value) ∧ c₁.rest = value ++ c₂.rest ∧ c₂.pos = c₁.pos + value.length ∧
      (∀ {text : List Char}, c.In text → c₁.In text) ∧ g' = (i, ⟨c₁.pos, c₂.pos⟩) :: g := by
  obtain ⟨c₂, g₂, h, hclose⟩ := reads_append.1 h
  obtain ⟨c₁, g₁, hopen, hgroup⟩ := reads_append.1 h
  obtain ⟨rfl, hquote, -⟩ := reads_lit hopen
  obtain ⟨g₃, hstar, rfl⟩ := reads_group hgroup
  obtain ⟨rfl, value, hall, hvalue, hpos⟩ := reads_star_char hstar
  obtain ⟨rfl, hclose, -⟩ := reads_lit hclose
  exact ⟨value, c₁, c₂, by rw [hquote, hvalue, hclose], all_noneIn_iff.1 hall, hvalue, hpos, hopen.within, rfl⟩

theorem replaced_classNameValue {text : List Char} {prev : Option Char} {u rest new : List Char}
    (h : Replaced classNameValue (classAttribute text) text prev u rest new) :
    ∃ (classes : List Char) (q : Char), (q = '"' ∨ q = '\'') ∧
      u = "className=".toList ++ q :: (classes ++ [q]) ∧
      new = "className=".toList ++ q :: (Style.mapList classes ++ [q]) := by
  obtain ⟨pos, g, hin, hreads, rfl⟩ := h
  obtain ⟨c₁, g₁, hhead, hvalue⟩ := reads_append.1 hreads
  obtain ⟨rfl, hrest, -⟩ := reads_lit hhead
  cases hvalue with
  | left hread =>
    obtain ⟨classes, c₂, c₃, hvalue, -, hclasses, hpos, hwithin, rfl⟩ := reads_quotedValue hread
    refine ⟨classes, '"', .inl rfl, List.append_cancel_right (hrest.trans ?_), ?_⟩
    · rw [hvalue]
      simp
    · have hgroup :
          Match.groupText? ⟨⟨pos, pos + u.length⟩, [(1, ⟨c₂.pos, c₃.pos⟩)]⟩ text 1 = some classes :=
        groupText?_eq (by decide) rfl (hwithin (hhead.within hin)) hclasses hpos
      simp [classAttribute, hgroup]
  | right hread =>
    obtain ⟨classes, c₂, c₃, hvalue, -, hclasses, hpos, hwithin, rfl⟩ := reads_quotedValue hread
    refine ⟨classes, '\'', .inr rfl, List.append_cancel_right (hrest.trans ?_), ?_⟩
    · rw [hvalue]
      simp
    · have hgroup :
          Match.groupText? ⟨⟨pos, pos + u.length⟩, [(2, ⟨c₂.pos, c₃.pos⟩)]⟩ text 2 = some classes :=
        groupText?_eq (by decide) rfl (hwithin (hhead.within hin)) hclasses hpos
      have hnone : Match.groupText? ⟨⟨pos, pos + u.length⟩, [(2, ⟨c₂.pos, c₃.pos⟩)]⟩ text 1 = none := rfl
      simp [classAttribute, hgroup, hnone]

end Recast.Modernize
