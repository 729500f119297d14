import Recast.Proofs.Artifact.StateUpdates
import Recast.Proofs.Artifact.StyleClasses

/-!
# Idioms that are left

Each step of the carried-over code replaces the matches of one pattern, and no later step
brings a word back that an earlier one took out. So pushes to the history, environment
variables and members of the instance are gone from the result. The patterns of the other
calls read arguments without brackets only; such a call stays exactly where its arguments do
not fit.
-/

namespace Recast.Modernize

open Text Pattern Pattern.Idiom Unicode

/-! ### One word for another -/

/-- The word `s` becomes `new`. -/
def WordHit (s new : List Char) (prev : Option Char) (u _rest new' : List Char) : Prop :=
  inWord prev = false ∧ u = s ∧ new' = new

theorem wordHit_of_replaced {s : String} (hs : s.toList.head?.any isWordChar = true)
    {new text : List Char} {prev : Option Char} {u rest new' : List Char}
    (h : Replaced (wordEdge ++ lit s) (fun _ => new) text prev u rest new') :
    WordHit s.toList new prev u rest new' := by
  obtain ⟨pos, g, -, hreads, rfl⟩ := h
  obtain ⟨-, hprev, hrest⟩ := reads_word hs hreads
  exact ⟨hprev, List.append_cancel_right hrest, rfl⟩

/-- What makes the words `s` and `new` go past the word `w`. -/
structure GoesPast (s new w : List Char) : Prop where
  edge : ∀ prev, inWord prev = false → inWord (new.getLast?.or prev) = inWord (s.getLast?.or prev)
  enter : ∀ x y, w = x ++ y → x ≠ [] → y ≠ [] → inWord x.getLast? = false → ¬ (new <+: y ∨ y <+: new)
  leave : ∀ x y, w = x ++ y → x ≠ [] → y ≠ [] → ¬ x <:+ new
  apart : ¬ Mentions w none new

theorem GoesPast.leaves {s new w : List Char} (h : GoesPast s new w) :
    Leaves (WordHit s new) w where
  edge := by
    rintro prev _ _ _ ⟨hprev, rfl, rfl⟩
    exact h.edge prev hprev
  leave := by
    rintro prev _ _ _ ⟨-, -, rfl⟩
    exact h.leave
  enter := by
    rintro x y hw hx hy _ _ _ ⟨hprev, -, rfl⟩
    exact h.enter x y hw hx hy hprev

theorem GoesPast.not_mentions {s new w : List Char} (h : GoesPast s new w) :
    ∀ prev u rest new', WordHit s new prev u rest new' → ¬ Mentions w prev new' := by
  rintro prev _ _ _ ⟨hprev, -, rfl⟩ hm
  exact h.apart (mentions_congr hprev hm)

/-- The checks by which one text in the place of another goes past a word. -/
def Checked (s new w : List Char) : Prop :=
  s ≠ [] ∧ new ≠ [] ∧ inWord new.getLast? = inWord s.getLast? ∧ meets new w = false ∧ trails new w = false ∧
    (w.any fun c => decide (c ∉ new)) = true

instance (s new w : List Char) : Decidable (Checked s new w) :=
  inferInstanceAs (Decidable (_ ∧ _ ∧ _ ∧ _ ∧ _ ∧ _))

theorem goesPast_of_checks {s new w : List Char} (h : Checked s new w) : GoesPast s new w where
  edge prev _ := by
    obtain ⟨hs, hnew, hedge, -⟩ := h
    rw [List.getLast?_eq_some_getLast hs, List.getLast?_eq_some_getLast hnew] at hedge ⊢
    exact hedge
  enter _ _ hw hx hy _ := not_meet h.2.2.2.1 hw hx hy (List.prefix_refl new)
  leave _ _ hw hx hy := not_trail h.2.2.2.2.1 hw hx hy
  apart := by
    obtain ⟨c, hc, hnew⟩ := List.any_iff_exists_prop.1 h.2.2.2.2.2
    exact not_mentions_of_mem hc hnew

/-- The word that a step replaces is gone. -/
theorem not_mentions_replaceAll {s : String} (hs : s.toList.head?.any isWordChar = true)
    {new : List Char}
    (h : GoesPast s.toList new s.toList) (hp : (wordEdge ++ lit s).productive = true)
    (hn : (wordEdge ++ lit s).nullable = false) (text : List Char) :
    ¬ Mentions s.toList none ((wordEdge ++ lit s).replaceAll (fun _ => new) text) := by
  have hne : s.toList ≠ [] := by
    rintro hnil
    simp [hnil] at hs
  refine ((edited_replaceAll hp hn _ text).mono (fun _ _ => id)
    fun _ _ _ _ => wordHit_of_replaced hs).not_mentions
    h.leaves hne h.not_mentions ?_
  rintro prev rest hprev ⟨pos, hunread⟩
  obtain ⟨n, q, hreads⟩ := exists_reads_word hs hprev pos [] rest
  exact hunread _ _ hreads

/-- A step brings no word into the text that the new texts go past. -/
theorem mentions_of_replaceAll {p : Pattern} (hp : p.productive = true) (hn : p.nullable = false)
    {new s w : List Char}
    (hhit : ∀ text prev u rest new', Replaced p (fun _ => new) text prev u rest new' →
      WordHit s new prev u rest new')
    (h : GoesPast s new w) (hw : w ≠ []) {text : List Char}
    (hm : Mentions w none (p.replaceAll (fun _ => new) text)) : Mentions w none text :=
  ((edited_replaceAll hp hn _ text).mono (fun _ _ => id) fun _ _ _ _ => hhit _ _ _ _ _).mentions h.leaves hw
    (fun _ _ _ _ hit hm => absurd hm (h.not_mentions _ _ _ _ hit)) hm

theorem not_mentions_historyPush (text : List Char) :
    ¬ Mentions "history.push(".toList none (substitute historyPush "navigate(" text) := by
  have hpast : GoesPast "history.push(".toList "navigate(".toList "history.push(".toList :=
    goesPast_of_checks (by decide)
  exact not_mentions_replaceAll (by decide) hpast rfl rfl text

theorem not_mentions_environmentVariable (text : List Char) :
    ¬ Mentions "process.env.REACT_APP_".toList none
      (substitute environmentVariable "import.meta.env.VITE_" text) := by
  have hpast : GoesPast "process.env.REACT_APP_".toList "import.meta.env.VITE_".toList
      "process.env.REACT_APP_".toList := goesPast_of_checks (by decide)
  exact not_mentions_replaceAll (by decide) hpast rfl rfl text

/-- A word that stands behind no beginning of `w` that ends outside a word can be removed without
bringing `w` in. -/
theorem goesPast_nil {s w : List Char} (hw : w ≠ [])
    (hs : ∀ prev, inWord (s.getLast?.or prev) = false)
    (hw' : ∀ i < w.length, 0 < i → inWord (w.take i).getLast? = true) : GoesPast s [] w where
  edge prev hprev := hprev.trans (hs prev).symm
  enter x y hxy hx hy hprev := by
    subst hxy
    have hin := hw' x.length (by simpa using List.length_pos_iff.2 hy) (List.length_pos_iff.2 hx)
    rw [List.take_left, hprev] at hin
    cases hin
  leave x _ _ hx _ := fun h => hx (List.suffix_nil.1 h)
  apart := by
    obtain ⟨c, hc⟩ := List.exists_mem_of_ne_nil w hw
    exact not_mentions_of_mem hc (by simp)

theorem not_mentions_thisMember (text : List Char) :
    ¬ Mentions "this.".toList none (remove thisMember text) :=
  not_mentions_replaceAll (s := "this.") (by decide)
    (goesPast_nil (by decide) (fun _ => rfl) (by decide)) rfl rfl text

/-! ### Steps that bring no word back -/

theorem mentions_of_historyPush {w text : List Char}
    (hw : GoesPast "history.push(".toList "navigate(".toList w)
    (hne : w ≠ []) (h : Mentions w none (substitute historyPush "navigate(" text)) :
    Mentions w none text :=
  mentions_of_replaceAll rfl rfl
    (fun _ _ _ _ _ => wordHit_of_replaced (s := "history.push(") (by decide)) hw hne h

theorem wordHit_environmentMode {new text : List Char} {prev : Option Char}
    {u rest new' : List Char} (h : Replaced environmentMode (fun _ => new) text prev u rest new') :
    WordHit "process.env.NODE_ENV".toList new prev u rest new' := by
  obtain ⟨pos, g, -, hreads, rfl⟩ := h
  obtain ⟨c, g', hword, hedge⟩ := reads_append.1 hreads
  obtain ⟨rfl, rfl⟩ := reads_anchor hedge
  obtain ⟨-, hprev, hrest⟩ := reads_word (s := "process.env.NODE_ENV") (by decide) hword
  exact ⟨hprev, List.append_cancel_right hrest, rfl⟩

theorem mentions_of_environmentMode {w text : List Char}
    (hw : GoesPast "process.env.NODE_ENV".toList "import.meta.env.MODE".toList w) (hne : w ≠ [])
    (h : Mentions w none (substitute environmentMode "import.meta.env.MODE" text)) :
    Mentions w none text :=
  mentions_of_replaceAll rfl rfl (fun _ _ _ _ _ => wordHit_environmentMode) hw hne h

theorem mentions_of_environment {w text : List Char}
    (hvariable : GoesPast "process.env.REACT_APP_".toList "import.meta.env.VITE_".toList w)
    (hmode : GoesPast "process.env.NODE_ENV".toList "import.meta.env.MODE".toList w) (hne : w ≠ [])
    (h : Mentions w none (environment text)) : Mentions w none text := by
  have h := mentions_of_environmentMode hmode hne h
  exact mentions_of_replaceAll rfl rfl
    (fun _ _ _ _ _ => wordHit_of_replaced (s := "process.env.REACT_APP_") (by decide)) hvariable hne h

theorem wordHit_memberOf {object : String} (ho : object.toList.head?.any isWordChar = true)
    {new text : List Char} {prev : Option Char} {u rest new' : List Char}
    (h : Replaced (memberOf object) (fun _ => new) text prev u rest new') :
    WordHit (object.toList ++ ['.']) new prev u rest new' := by
  obtain ⟨pos, g, -, hreads, rfl⟩ := h
  obtain ⟨c, g', hword, hdot⟩ := reads_append.1 hreads
  obtain ⟨-, hprev, hrest⟩ := reads_word ho hword
  obtain ⟨-, hdot, -⟩ := reads_lit hdot
  refine ⟨hprev, List.append_cancel_right (hrest.trans ?_), rfl⟩
  rw [hdot, List.append_assoc]
  rfl

/-- Removing the props object brings no `this.` in if the name of the object starts with a word
character. -/
theorem this_of_memberOf {object : String} (ho : object.toList.head?.any isWordChar = true)
    {text : List Char} (h : Mentions "this.".toList none (remove (memberOf object) text)) :
    Mentions "this.".toList none text := by
  have hpast : GoesPast (object.toList ++ ['.']) [] "this.".toList :=
    goesPast_nil (by decide) (fun prev => by rw [List.getLast?_concat]; rfl) (by decide)
  exact mentions_of_replaceAll (productive_memberOf object) (nullable_memberOf object)
    (fun _ _ _ _ _ => wordHit_memberOf ho) hpast (by decide) h

theorem quote_not_mem {w : List Char} (hw : Idiom w) {q : Char} (hq : q = '"' ∨ q = '\'') :
    q ∉ w := by
  rcases hq with rfl | rfl <;> exact hw.not_mem (by decide) (by decide) (by decide)

theorem not_isWordChar_quote {q : Char} (hq : q = '"' ∨ q = '\'') : isWordChar q = false := by
  rcases hq with rfl | rfl <;> decide

theorem leaves_namesAsset {w : List Char} (hw : Idiom w) :
    Leaves (fun _ u _ new => NamesAsset u new) w where
  edge := by
    rintro prev _ _ _ ⟨v, name, v', d, q, rfl, -, hd, hq, rfl⟩
    have hnew := inWord_concat (q :: ("/assets/".toList ++ name)) q prev
    have hold := inWord_concat (v ++ (name ++ v')) d prev
    rw [hd] at hold
    rw [not_isWordChar_quote hq] at hnew
    simp only [List.append_assoc, List.cons_append] at hnew hold ⊢
    rw [hnew, hold]
  leave := by
    rintro _ _ _ _ ⟨v, name, v', d, q, -, -, -, hq, rfl⟩ x y hxy hx hy
    have hleave := not_trail_of_not_mem (v := q :: ("/assets/".toList ++ name)) (quote_not_mem hw hq) hxy hx
    simpa only [List.append_assoc, List.cons_append] using hleave
  enter := by
    rintro x y hxy hx hy _ _ _ ⟨v, name, v', d, q, -, -, -, hq, rfl⟩
    exact not_meet_of_not_mem (quote_not_mem hw hq) hxy hy

theorem mentions_of_namesAsset {w : List Char} (hw : Idiom w) {prev : Option Char}
    {u new : List Char} (h : NamesAsset u new) (hm : Mentions w prev new) : Mentions w prev u := by
  obtain ⟨v, name, v', d, q, rfl, hv, -, hq, rfl⟩ := h
  have hslash : '/' ∉ w := hw.not_mem (by decide) (by decide) (by decide)
  have hquote := quote_not_mem hw hq
  have hempty {prev : Option Char} : ¬ Mentions w prev [] := not_mentions_of_mem hw.dot (by simp)
  have hm := (mentions_append_cons (a := []) hw.ne_nil hquote hm).resolve_left hempty
  have hm := (mentions_append_cons (a := []) hw.ne_nil hslash hm).resolve_left hempty
  have hm := (mentions_append_cons (a := "assets".toList) hw.ne_nil hslash hm).resolve_left
    (not_mentions_of_mem hw.dot (by decide))
  have hm := (mentions_append_cons (b := []) hw.ne_nil hquote hm).resolve_right hempty
  exact Mentions.within v (v' ++ [d]) (by rwa [hv])

/-- Moving assets to their folder brings no idiom in. -/
theorem mentions_of_assets {w text : List Char} (hw : Idiom w) (h : Mentions w none (assets text)) :
    Mentions w none text := by
  have hstep {text out : List Char} {Kept : Option Char → List Char → Prop}
      (h : Edited Kept (fun _ u _ new => NamesAsset u new) none text out) (hm : Mentions w none out) :
      Mentions w none text :=
    h.mentions (leaves_namesAsset hw) hw.ne_nil (fun _ _ _ _ hit => mentions_of_namesAsset hw hit) hm
  have hrequired := hstep
    ((edited_replaceAll rfl rfl _ _).mono (fun _ _ => id) fun _ _ _ _ => namesAsset_string) h
  exact hstep
    ((edited_replaceAll rfl rfl _ _).mono (fun _ _ => id) fun _ _ _ _ => namesAsset_require) hrequired

/-- Nor does replacing style classes. -/
theorem mentions_of_styleClasses {w text : List Char} (hw : Idiom w)
    (hc : meets "className=".toList w = false)
    (h : Mentions w none (styleClasses text)) : Mentions w none text := by
  refine (edited_replaceAll rfl rfl _ _).mentions ⟨⟨?_, ?_⟩, ?_⟩ hw.ne_nil ?_ h
  · intro prev u rest new hit
    obtain ⟨classes, q, hq, rfl, rfl⟩ := replaced_classNameValue hit
    have hnew := inWord_concat ("className=".toList ++ q :: Style.mapList classes) q prev
    have hold := inWord_concat ("className=".toList ++ q :: classes) q prev
    simp only [List.append_assoc, List.cons_append] at hnew hold ⊢
    rw [hnew, hold]
  · intro prev u rest new hit x y hxy hx hy
    obtain ⟨classes, q, hq, rfl, rfl⟩ := replaced_classNameValue hit
    have hleave := not_trail_of_not_mem (v := "className=".toList ++ q :: Style.mapList classes)
      (quote_not_mem hw hq) hxy hx
    simpa only [List.append_assoc, List.cons_append] using hleave
  · intro x y hxy hx hy u rest new hit
    obtain ⟨classes, q, hq, rfl, rfl⟩ := replaced_classNameValue hit
    exact not_meet hc hxy hx hy (List.prefix_append _ _)
  · intro prev u rest new hit hm
    obtain ⟨classes, q, hq, rfl, rfl⟩ := replaced_classNameValue hit
    have hquote := quote_not_mem hw hq
    have hempty {prev : Option Char} : ¬ Mentions w prev [] := not_mentions_of_mem hw.dot (by simp)
    have hm := (mentions_append_cons hw.ne_nil hquote hm).resolve_left
      (not_mentions_of_mem hw.dot (by decide))
    have hm := (mentions_append_cons (b := []) hw.ne_nil hquote hm).resolve_right hempty
    have hclasses := mentions_of_mapList hw (mentions_congr (q := some q) (not_isWordChar_quote hq) hm)
    have hbehind : Mentions w (("className=".toList ++ [q]).getLast?.or prev) classes := by
      rw [List.getLast?_concat]
      exact mentions_congr (q := none) (not_isWordChar_quote hq).symm hclasses
    simpa using hbehind.within ("className=".toList ++ [q]) [q]

/-! ### History calls -/

/-- A call of `history.replace` is ported with its arguments. -/
def ReplaceHit (prev : Option Char) (u _rest new : List Char) : Prop :=
  inWord prev = false ∧ ∃ arg, u = "history.replace(".toList ++ (arg ++ [')']) ∧ '(' ∉ arg ∧ ')' ∉ arg ∧
    new = "navigate(".toList ++ arg ++ ", \x7b replace: true \x7d)".toList

/-- A call of `history.goBack` is ported if nothing stands between its brackets. -/
def BackHit (prev : Option Char) (u _rest new : List Char) : Prop :=
  inWord prev = false ∧ ∃ s, u = "history.goBack(".toList ++ (s ++ [')']) ∧ s.all isBlank = true ∧
    new = "navigate(-1)".toList

def pushCalls (code : List Char) : List Char := substitute historyPush "navigate(" code

def replaceCalls (code : List Char) : List Char :=
  historyReplace.replaceAll (fun m =>
    "navigate(".toList ++ m.groupText code 1 ++ ", \x7b replace: true \x7d)".toList) code

def backCalls (code : List Char) : List Char := substitute historyBack "navigate(-1)" code

theorem historyCalls_eq (code : List Char) :
    historyCalls code = backCalls (replaceCalls (pushCalls code)) := rfl

theorem edited_pushCalls (code : List Char) :
    Edited (Unread historyPush) (WordHit "history.push(".toList "navigate(".toList) none code
      (pushCalls code) :=
  (edited_replaceAll rfl rfl _ code).mono (fun _ _ => id)
    fun _ _ _ _ => wordHit_of_replaced (s := "history.push(") (by decide)

theorem edited_replaceCalls (code : List Char) :
    Edited (Unread historyReplace) ReplaceHit none code (replaceCalls code) := by
  refine (edited_replaceAll rfl rfl _ code).mono (fun _ _ => id) ?_
  intro prev u rest new hit
  obtain ⟨hprev, arg, m, hu, ho, hc, rfl, hgroup⟩ := replaced_historyReplace hit
  exact ⟨hprev, arg, hu, ho, hc, by rw [hgroup]⟩

theorem edited_backCalls (code : List Char) :
    Edited (Unread historyBack) BackHit none code (backCalls code) := by
  refine (edited_replaceAll rfl rfl _ code).mono (fun _ _ => id) ?_
  intro prev u rest new hit
  obtain ⟨hprev, s, m, hu, hs, rfl⟩ := replaced_historyBack hit
  exact ⟨hprev, s, hu, hs, rfl⟩

theorem leaves_replaceHit {w : List Char} (hw : ')' ∉ w) (hm : meets "navigate(".toList w = false) :
    Leaves ReplaceHit w where
  edge := by
    rintro prev _ _ _ ⟨-, arg, rfl, -, -, rfl⟩
    have hnew := inWord_concat ("navigate(".toList ++ arg ++ ", \x7b replace: true \x7d".toList) ')' prev
    have hold := inWord_concat ("history.replace(".toList ++ arg) ')' prev
    rw [List.append_assoc] at hnew hold
    exact hnew.trans hold.symm
  leave := by
    rintro _ _ _ _ ⟨-, arg, -, -, -, rfl⟩ x y hxy hx hy
    have hleave := not_trail_of_not_mem
      (v := "navigate(".toList ++ arg ++ ", \x7b replace: true \x7d".toList) hw hxy hx
    rwa [List.append_assoc] at hleave
  enter := by
    rintro x y hxy hx hy _ _ _ ⟨-, arg, -, -, -, rfl⟩
    exact not_meet hm hxy hx hy (by rw [List.append_assoc]; exact List.prefix_append _ _)

theorem leaves_backHit {w : List Char} (hw : ')' ∉ w) (hm : meets "navigate(-1)".toList w = false) :
    Leaves BackHit w where
  edge := by
    rintro prev _ _ _ ⟨-, s, rfl, -, rfl⟩
    have hold := inWord_concat ("history.goBack(".toList ++ s) ')' prev
    rw [List.append_assoc] at hold
    exact hold.symm
  leave := by
    rintro _ _ _ _ ⟨-, s, -, -, rfl⟩ x y hxy hx hy
    exact not_trail_of_not_mem (v := "navigate(-1".toList) hw hxy hx
  enter := by
    rintro x y hxy hx hy _ _ _ ⟨-, s, -, -, rfl⟩
    exact not_meet hm hxy hx hy (List.prefix_refl _)

theorem not_mentions_backHit {w : List Char} (hw : '.' ∈ w) {prev : Option Char}
    {u rest new : List Char} (h : BackHit prev u rest new) : ¬ Mentions w prev new := by
  obtain ⟨-, s, -, -, rfl⟩ := h
  exact not_mentions_of_mem hw (by decide)

/-- A call by a dotted name. -/
structure Call (v : List Char) : Prop where
  dot : '.' ∈ v
  noOpen : '(' ∉ v
  noClose : ')' ∉ v

theorem not_mentions_replaceHit {v : List Char} (hv : Call v) {prev : Option Char}
    {u rest new : List Char}
    (h : ReplaceHit prev u rest new) : ¬ Mentions (v ++ ['(']) prev new := by
  obtain ⟨-, arg, -, ho, -, rfl⟩ := h
  rintro ⟨a, b, htext, -⟩
  have hopen : (a ++ v) ++ '(' :: b =
      "navigate".toList ++ '(' :: (arg ++ ", \x7b replace: true \x7d)".toList) := by
    simpa using htext.symm
  have hname := append_cons_unique hopen (by decide) (by simp [ho])
  have hdot : '.' ∈ "navigate".toList := hname ▸ List.mem_append_right a hv.dot
  exact absurd hdot (by decide)

theorem this_of_replaceHit {prev : Option Char} {u rest new : List Char}
    (h : ReplaceHit prev u rest new)
    (hm : Mentions "this.".toList prev new) : Mentions "this.".toList prev u := by
  obtain ⟨-, arg, rfl, -, -, rfl⟩ := h
  rw [List.append_assoc] at hm
  have hm := (mentions_append_cons (a := "navigate".toList) (c := '(') (by decide) (by decide) hm).resolve_left
    (not_mentions_of_mem (c := '.') (by decide) (by decide))
  have hm := (mentions_append_cons (c := ',') (by decide) (by decide) hm).resolve_right
    (not_mentions_of_mem (c := '.') (by decide) (by decide))
  exact Mentions.within "history.replace(".toList [')'] hm

theorem mentions_of_backCalls {w code : List Char} (hdot : '.' ∈ w) (hclose : ')' ∉ w)
    (hm : meets "navigate(-1)".toList w = false) (h : Mentions w none (backCalls code)) :
    Mentions w none code :=
  (edited_backCalls code).mentions (leaves_backHit hclose hm) (List.ne_nil_of_mem hdot)
    (fun _ _ _ _ hit hm => absurd hm (not_mentions_backHit hdot hit)) h

theorem this_of_historyCalls {code : List Char}
    (h : Mentions "this.".toList none (historyCalls code)) :
    Mentions "this.".toList none code := by
  have h := mentions_of_backCalls (by decide) (by decide) (by decide) h
  have h := (edited_replaceCalls _).mentions (leaves_replaceHit (by decide) (by decide)) (by decide)
    (fun _ _ _ _ => this_of_replaceHit) h
  exact mentions_of_historyPush (goesPast_of_checks (by decide)) (by decide) h

theorem push_not_in_historyCalls (code : List Char) :
    ¬ Mentions "history.push(".toList none (historyCalls code) := by
  intro h
  have h := mentions_of_backCalls (by decide) (by decide) (by decide) h
  have hcall : Call "history.push".toList := ⟨by decide, by decide, by decide⟩
  have h := (edited_replaceCalls _).mentions (leaves_replaceHit (by decide) (by decide)) (by decide)
    (fun _ _ _ _ hit hm => absurd hm (not_mentions_replaceHit hcall hit)) h
  exact not_mentions_historyPush code h

/-- The text closes a call without another round bracket. -/
def ClosesCall (rest : List Char) : Prop :=
  ∃ arg after, rest = arg ++ ')' :: after ∧ '(' ∉ arg ∧ ')' ∉ arg

/-- The text closes a call that has no arguments. -/
def ClosesEmpty (rest : List Char) : Prop :=
  ∃ s after, rest = s ++ ')' :: after ∧ s.all isBlank = true

def isRound (c : Char) : Bool := c == '(' || c == ')'

theorem closesCall_iff {rest : List Char} : ClosesCall rest ↔ rest.find? isRound = some ')' := by
  rw [List.find?_eq_some_iff_append]
  constructor
  · rintro ⟨arg, after, rfl, ho, hc⟩
    refine ⟨rfl, arg, after, rfl, ?_⟩
    intro c hmem
    have hno : c ≠ '(' := fun h => ho (h ▸ hmem)
    have hnc : c ≠ ')' := fun h => hc (h ▸ hmem)
    simp [isRound, hno, hnc]
  · rintro ⟨-, arg, after, rfl, hall⟩
    exact ⟨arg, after, rfl, fun h => by simpa [isRound] using hall _ h,
      fun h => by simpa [isRound] using hall _ h⟩

theorem closesEmpty_iff {rest : List Char} :
    ClosesEmpty rest ↔ rest.find? (fun c => !isBlank c) = some ')' := by
  rw [List.find?_eq_some_iff_append]
  constructor
  · rintro ⟨s, after, rfl, hs⟩
    refine ⟨rfl, s, after, rfl, ?_⟩
    simpa using hs
  · rintro ⟨-, s, after, rfl, hall⟩
    exact ⟨s, after, rfl, by simpa using hall⟩

theorem spares_wordHit {s new w : List Char} (h : GoesPast s new w) (henter : meets s w = false)
    (hreach : meets w s = false) : Spares (WordHit s new) w where
  edge := h.leaves.edge
  enter := by
    rintro x y hxy hx hy _ _ _ ⟨-, rfl, -⟩
    rw [or_comm]
    exact not_meet henter hxy hx hy (List.prefix_refl _)
  reach := by
    rintro _ _ _ _ ⟨-, rfl, -⟩ x y hxy hx hy
    rw [or_comm]
    exact not_meet hreach hxy hx hy (List.prefix_refl w)

/-- Calls of `n` leave a call of `v` alone: the only opening bracket of a ported call is the one
behind its name. -/
theorem spares_call {Hit : Option Char → List Char → List Char → List Char → Prop} {n v : List Char}
    (hHit : ∀ prev u rest new, Hit prev u rest new → ∃ arg, u = n ++ '(' :: (arg ++ [')']) ∧ '(' ∉ arg)
    (hedge : ∀ prev u rest new, Hit prev u rest new →
      inWord (new.getLast?.or prev) = inWord (u.getLast?.or prev))
    (hn : '(' ∉ n) (hv : Call v) (hmeet : meets (n ++ ['(']) (v ++ ['(']) = false)
    (hsuffix : v.isSuffixOf n = true → v = n) : Spares Hit (v ++ ['(']) where
  edge := hedge
  enter := by
    intro x y hxy hx hy u rest new hit
    obtain ⟨arg, rfl, -⟩ := hHit _ _ _ _ hit
    rw [or_comm]
    exact not_meet hmeet hxy hx hy ⟨arg ++ [')'], by simp⟩
  reach := by
    intro prev u rest new hit x y hxy hx hy
    obtain ⟨arg, rfl, ho⟩ := hHit _ _ _ _ hit
    have hclose : ')' ∈ y :=
      mem_of_concat_eq (v := n ++ '(' :: arg) (by rw [← hxy, List.append_assoc, List.cons_append]) hy
    rintro (⟨z, hz⟩ | ⟨z, rfl⟩)
    · have hmem : ')' ∈ v ++ ['('] := hz ▸ List.mem_append_left z hclose
      simp [hv.noClose] at hmem
    · have hopen : (x ++ v) ++ '(' :: z = n ++ '(' :: (arg ++ [')']) := by simpa using hxy.symm
      have hname : x ++ v = n := append_cons_unique hopen hn (by simp [ho])
      obtain rfl := hsuffix (List.isSuffixOf_iff_suffix.2 ⟨x, hname⟩)
      exact hx (List.append_left_eq_self.1 hname)

theorem replaceHit_shape (prev : Option Char) (u rest new : List Char)
    (h : ReplaceHit prev u rest new) :
    ∃ arg, u = "history.replace".toList ++ '(' :: (arg ++ [')']) ∧ '(' ∉ arg := by
  obtain ⟨-, arg, rfl, ho, -, -⟩ := h
  exact ⟨arg, rfl, ho⟩

theorem backHit_shape (prev : Option Char) (u rest new : List Char) (h : BackHit prev u rest new) :
    ∃ arg, u = "history.goBack".toList ++ '(' :: (arg ++ [')']) ∧ '(' ∉ arg := by
  obtain ⟨-, s, rfl, hs, -⟩ := h
  refine ⟨s, rfl, fun hmem => ?_⟩
  cases List.all_eq_true.1 hs _ hmem

theorem find?_replaceHit (prev : Option Char) (u rest new : List Char)
    (h : ReplaceHit prev u rest new) :
    ∃ x y, u.find? (fun c => !isBlank c) = some x ∧ new.find? (fun c => !isBlank c) = some y ∧
      (x = ')' ↔ y = ')') := by
  obtain ⟨-, arg, rfl, -, -, rfl⟩ := h
  exact ⟨'h', 'n', rfl, rfl, by decide⟩

theorem replaceCall : Call "history.replace".toList := ⟨by decide, by decide, by decide⟩

theorem backCall : Call "history.goBack".toList := ⟨by decide, by decide, by decide⟩

theorem push_goesPast_replace :
    GoesPast "history.push(".toList "navigate(".toList "history.replace(".toList :=
  goesPast_of_checks (by decide)

theorem push_goesPast_back :
    GoesPast "history.push(".toList "navigate(".toList "history.goBack(".toList :=
  goesPast_of_checks (by decide)

theorem unfit_replace_pushCalls (code : List Char) :
    Unfit "history.replace(".toList ClosesCall (pushCalls code) ↔
      Unfit "history.replace(".toList ClosesCall code := by
  refine (edited_pushCalls code).unfit_iff push_goesPast_replace.leaves
    (spares_wordHit push_goesPast_replace (by decide) (by decide)) (by decide)
    push_goesPast_replace.not_mentions ?_ ?_
  · rintro _ _ _ _ ⟨-, rfl, -⟩
    decide
  · intro b after h
    rw [closesCall_iff, closesCall_iff]
    refine find?_of_edited ?_ h
    rintro _ _ _ _ ⟨-, rfl, rfl⟩
    exact ⟨'(', '(', rfl, rfl, by decide⟩

theorem unfit_back_pushCalls (code : List Char) :
    Unfit "history.goBack(".toList ClosesEmpty (pushCalls code) ↔
      Unfit "history.goBack(".toList ClosesEmpty code := by
  refine (edited_pushCalls code).unfit_iff push_goesPast_back.leaves
    (spares_wordHit push_goesPast_back (by decide) (by decide)) (by decide)
    push_goesPast_back.not_mentions ?_ ?_
  · rintro _ _ _ _ ⟨-, rfl, -⟩
    decide
  · intro b after h
    rw [closesEmpty_iff, closesEmpty_iff]
    refine find?_of_edited ?_ h
    rintro _ _ _ _ ⟨-, rfl, rfl⟩
    exact ⟨'h', 'n', rfl, rfl, by decide⟩

theorem not_leads_of_apart {s u w : List Char} (hs : s <+: u) (h : ¬ (w <+: s ∨ s <+: w)) :
    ¬ (w <+: u ∨ u <+: w) := by
  rintro (hwu | huw)
  · exact h (List.prefix_or_prefix_of_prefix hwu hs)
  · exact h (.inr (hs.trans huw))

theorem unfit_back_replaceCalls (code : List Char) :
    Unfit "history.goBack(".toList ClosesEmpty (replaceCalls code) ↔
      Unfit "history.goBack(".toList ClosesEmpty code := by
  have hleaves : Leaves ReplaceHit "history.goBack(".toList := leaves_replaceHit (by decide) (by decide)
  refine (edited_replaceCalls code).unfit_iff hleaves
    (spares_call replaceHit_shape hleaves.edge (by decide) backCall (by decide) (by decide)) (by decide)
    (fun _ _ _ _ => not_mentions_replaceHit backCall) ?_ ?_
  · rintro _ _ _ _ ⟨-, arg, rfl, -, -, -⟩
    exact not_leads_of_apart (List.prefix_append _ _) (by decide)
  · intro b after h
    rw [closesEmpty_iff, closesEmpty_iff]
    exact find?_of_edited find?_replaceHit h

/-- A call of `history.replace` is left exactly if its arguments hold a round bracket or do not
end. -/
theorem replace_left_iff (code : List Char) :
    Mentions "history.replace(".toList none (historyCalls code) ↔
      Unfit "history.replace(".toList ClosesCall code := by
  have hback : Leaves BackHit "history.replace(".toList := leaves_backHit (by decide) (by decide)
  have hreplace : Leaves ReplaceHit "history.replace(".toList := leaves_replaceHit (by decide) (by decide)
  rw [historyCalls_eq, ← unfit_replace_pushCalls]
  calc Mentions "history.replace(".toList none (backCalls (replaceCalls (pushCalls code)))
      ↔ Mentions "history.replace(".toList none (replaceCalls (pushCalls code)) := by
        rw [← unfit_false_iff, ← unfit_false_iff]
        refine (edited_backCalls _).unfit_iff hback
          (spares_call backHit_shape hback.edge (by decide) replaceCall (by decide) (by decide)) (by decide)
          (fun _ _ _ _ => not_mentions_backHit (by decide)) ?_ fun _ _ _ => Iff.rfl
        rintro _ _ _ _ ⟨-, s, rfl, -, -⟩
        exact not_leads_of_apart (List.prefix_append _ _) (by decide)
    _ ↔ Unfit "history.replace(".toList ClosesCall (pushCalls code) := by
        refine (edited_replaceCalls _).mentions_iff_unfit hreplace
          (spares_call replaceHit_shape hreplace.edge (by decide) replaceCall (by decide) (fun _ => rfl)) (by decide)
          (fun _ _ _ _ => not_mentions_replaceHit replaceCall) ?_ ?_
        · rintro prev b hprev ⟨pos, hunread⟩ ⟨arg, after, rfl, ho, hc⟩
          obtain ⟨c', g, hreads⟩ := exists_reads_historyReplace hprev pos ho hc after
          exact hunread c' g hreads
        · rintro prev u rest new b ⟨-, arg, rfl, ho, hc, -⟩ hb
          refine ⟨arg, rest, List.append_cancel_left (hb.trans ?_), ho, hc⟩
          simp

/-- A call of `history.goBack` is left exactly if something stands between its brackets. -/
theorem back_left_iff (code : List Char) :
    Mentions "history.goBack(".toList none (historyCalls code) ↔
      Unfit "history.goBack(".toList ClosesEmpty code := by
  have hback : Leaves BackHit "history.goBack(".toList := leaves_backHit (by decide) (by decide)
  rw [historyCalls_eq, ← unfit_back_pushCalls, ← unfit_back_replaceCalls]
  refine (edited_backCalls _).mentions_iff_unfit hback
    (spares_call backHit_shape hback.edge (by decide) backCall (by decide) (fun _ => rfl)) (by decide)
    (fun _ _ _ _ => not_mentions_backHit (by decide)) ?_ ?_
  · rintro prev b hprev ⟨pos, hunread⟩ ⟨s, after, rfl, hs⟩
    obtain ⟨c', g, hreads⟩ := exists_reads_historyBack hprev pos hs after
    exact hunread c' g hreads
  · rintro prev u rest new b ⟨-, s, rfl, hs, -⟩ hb
    refine ⟨s, rest, List.append_cancel_left (hb.trans ?_), hs⟩
    simp

/-! ### The whole code -/

/-- The code before its state updates are ported. -/
def beforeUpdates (code : List Char) : List Char :=
  remove thisProps (remove bindingDestructuring (remove historyDeclaration code))

/-- The code without the props object. -/
def withoutObject (f : Facts) (code : List Char) : List Char :=
  match f.propsAlias? with
  | some object => remove (memberOf object) code
  | none => code

theorem chars_eq (f : Facts) (code : List Char) :
    chars f code = styleClasses (assets (environment (historyCalls (withoutObject f
      (remove thisMember (stateUpdates f.state (beforeUpdates code))))))) := rfl

/-- A word that the last steps go past. -/
structure LastWord (w : List Char) : Prop extends Idiom w where
  classes : meets "className=".toList w = false
  environment : GoesPast "process.env.REACT_APP_".toList "import.meta.env.VITE_".toList w
  mode : GoesPast "process.env.NODE_ENV".toList "import.meta.env.MODE".toList w

theorem mentions_of_last_steps {w text : List Char} (hw : LastWord w)
    (h : Mentions w none (styleClasses (assets (environment text)))) : Mentions w none text :=
  mentions_of_environment hw.environment hw.mode hw.ne_nil
    (mentions_of_assets hw.toIdiom (mentions_of_styleClasses hw.toIdiom hw.classes h))

theorem lastWord_push : LastWord "history.push(".toList :=
  ⟨idiom_of_all (by decide) (by decide), by decide, goesPast_of_checks (by decide),
    goesPast_of_checks (by decide)⟩

theorem lastWord_replace : LastWord "history.replace(".toList :=
  ⟨idiom_of_all (by decide) (by decide), by decide, goesPast_of_checks (by decide),
    goesPast_of_checks (by decide)⟩

theorem lastWord_back : LastWord "history.goBack(".toList :=
  ⟨idiom_of_all (by decide) (by decide), by decide, goesPast_of_checks (by decide),
    goesPast_of_checks (by decide)⟩

theorem lastWord_this : LastWord "this.".toList :=
  ⟨idiom_of_all (by decide) (by decide), by decide, goesPast_of_checks (by decide),
    goesPast_of_checks (by decide)⟩

theorem not_mentions_push (f : Facts) (code : List Char) :
    ¬ Mentions "history.push(".toList none (chars f code) := fun h =>
  push_not_in_historyCalls _ (mentions_of_last_steps lastWord_push h)

theorem not_mentions_variable (f : Facts) (code : List Char) :
    ¬ Mentions "process.env.REACT_APP_".toList none (chars f code) := by
  intro h
  have hw : Idiom "process.env.REACT_APP_".toList := idiom_of_all (by decide) (by decide)
  have h := mentions_of_assets hw (mentions_of_styleClasses hw (by decide) h)
  exact not_mentions_environmentVariable _
    (mentions_of_environmentMode (goesPast_of_checks (by decide)) hw.ne_nil h)

theorem not_mentions_this {f : Facts}
    (hobject : ∀ object, f.propsAlias? = some object → object.toList.head?.any isWordChar = true)
    (code : List Char) : ¬ Mentions "this.".toList none (chars f code) := by
  intro h
  rw [chars_eq] at h
  have h := this_of_historyCalls (mentions_of_last_steps lastWord_this h)
  unfold withoutObject at h
  split at h
  · rename_i object halias
    exact not_mentions_thisMember _ (this_of_memberOf (hobject object halias) h)
  · exact not_mentions_thisMember _ h

/-- Carried-over code pushes nothing to the history, reads no variable of the old environment,
and reaches for no member of the instance (unless the name of the props object starts with no
word character). A call of `history.replace` or `history.goBack` that is left had arguments
with a round bracket, or any arguments, when the history calls were ported, and such a call was
left then. Likewise an update of the state by an object that holds a brace is left, and an
update that is left held a brace or joined with what stood before it. -/
theorem chars_idioms (f : Facts) (code : List Char) :
    ¬ Mentions "history.push(".toList none (chars f code) ∧
    ¬ Mentions "process.env.REACT_APP_".toList none (chars f code) ∧
    ((∀ object, f.propsAlias? = some object → object.toList.head?.any isWordChar = true) →
      ¬ Mentions "this.".toList none (chars f code)) ∧
    (Mentions "history.replace(".toList none (chars f code) →
      Mentions "history.replace(".toList none (historyCalls (instanceMembers f code))) ∧
    (Mentions "history.replace(".toList none (historyCalls (instanceMembers f code)) ↔
      Unfit "history.replace(".toList ClosesCall (instanceMembers f code)) ∧
    (Mentions "history.goBack(".toList none (chars f code) →
      Mentions "history.goBack(".toList none (historyCalls (instanceMembers f code))) ∧
    (Mentions "history.goBack(".toList none (historyCalls (instanceMembers f code)) ↔
      Unfit "history.goBack(".toList ClosesEmpty (instanceMembers f code)) ∧
    ((∀ s ∈ f.state, '\x7b' ∉ s.setter.toList) →
      (UnfitUpdate (beforeUpdates code) → Updates (stateUpdates f.state (beforeUpdates code))) ∧
      (Updates (stateUpdates f.state (beforeUpdates code)) →
        UnfitUpdate (beforeUpdates code) ∨ JoinedUpdate (beforeUpdates code))) := by
  refine ⟨not_mentions_push f code, not_mentions_variable f code,
    fun hobject => not_mentions_this hobject code, mentions_of_last_steps lastWord_replace,
    replace_left_iff _, mentions_of_last_steps lastWord_back, back_left_iff _,
    fun hsetters => ⟨updates_of_unfit hsetters, unfit_or_joined hsetters⟩⟩

example : chars (Facts.bare "Panel") "history.replace(path(id));".toList =
    "history.replace(path(id));".toList := by
  decide +kernel

end Recast.Modernize
