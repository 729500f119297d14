import Recast.Proofs.Artifact.Idioms
import Recast.Proofs.Artifact.OpenIdioms

/-!
# Text that is quoted or shown

Carrying code over looks for its idioms in the whole text, whether they are code or not. So the
text of a string, of a template or of markup is carried over as if it stood alone
(`chars_fenced`), and it stays what it is only if no idiom stands in it.
-/

namespace Recast.Modernize

open Text Pattern Pattern.Idiom Unicode

/-! ### Idioms that are words -/

theorem endless_lit (s : String) : (lit s).endless = true := by
  unfold lit
  induction s.toList with
  | nil => rfl
  | cons x xs ih => exact ih

theorem fenceless_lit {s : String} (hs : unfenced s.toList = true) : fenceless (lit s) = true := by
  refine List.all_eq_true.2 fun q hq => ?_
  have hno : q ∉ s.toList := fence_not_mem_unfenced hq hs
  unfold lit
  generalize s.toList = word at hno
  induction word with
  | nil => rfl
  | cons x xs ih =>
    rw [List.mem_cons, not_or] at hno
    have hrest := ih hno.2
    simp only [List.foldr_cons, accepts, Bool.not_or, Bool.and_eq_true, Bool.not_eq_true', beq_eq_false_iff_ne]
    exact ⟨hno.1, by simpa using hrest⟩

theorem apart_singleton (w : List Char) : ∀ v ∈ [w], ∀ v' ∈ [w], v <+: v' → v = v' := by
  intro v hv v' hv' _
  rw [List.mem_singleton.1 hv, List.mem_singleton.1 hv']

theorem readsWords_lit {s : String} (hs : s.toList.head?.any isWordChar = true)
    (hn : (wordEdge ++ lit s).nullable = false) (hf : unfenced s.toList = true) :
    ReadsWords (wordEdge ++ lit s) [s.toList] fun _ => True where
  productive := productive_lit s
  nullable := hn
  endless := endless_lit s
  fenceless := fenceless_lit hf
  hit := by
    rintro f text prev u rest new ⟨pos, g, -, hreads, -⟩
    obtain ⟨-, hprev, hrest⟩ := reads_word hs hreads
    exact ⟨hprev, List.mem_singleton.2 (List.append_cancel_right hrest), trivial⟩
  kept := by
    rintro prev r ⟨pos, hunread⟩ hprev w hw rest rfl -
    obtain rfl := List.mem_singleton.1 hw
    obtain ⟨n, q, hreads⟩ := exists_reads_word hs hprev pos [] rest
    exact hunread _ _ hreads
  apart := apart_singleton _
  fence _ _ _ := Iff.rfl

theorem readsWords_thisMember : ReadsWords thisMember ["this.".toList] fun _ => True :=
  readsWords_lit (s := "this.") (by decide) rfl (by decide)

theorem readsWords_environmentVariable :
    ReadsWords environmentVariable ["process.env.REACT_APP_".toList] fun _ => True :=
  readsWords_lit (s := "process.env.REACT_APP_") (by decide) rfl (by decide)

/-- The name of an object: word characters only. -/
structure ObjectName (object : String) : Prop where
  ne_nil : object.toList ≠ []
  word : ∀ c ∈ object.toList, isWordChar c = true

theorem ObjectName.head {object : String} (h : ObjectName object) : object.toList.head?.any isWordChar = true := by
  obtain ⟨c, r, hc⟩ := List.exists_cons_of_ne_nil h.ne_nil
  have hword := h.word
  rw [hc] at hword ⊢
  exact hword c List.mem_cons_self

theorem ObjectName.unfenced {object : String} (h : ObjectName object) :
    unfenced object.toList = true := by
  refine List.all_iff_forall_prop.2 fun c hc hf => ?_
  have hno := not_isWordChar_fence hf
  rw [h.word c hc] at hno
  cases hno

theorem readsWords_memberOf {object : String} (h : ObjectName object) :
    ReadsWords (memberOf object) [object.toList ++ ['.']] fun _ => True where
  productive := productive_memberOf object
  nullable := nullable_memberOf object
  endless := by
    show ((true && (lit object).endless) && (lit ".").endless) = true
    rw [endless_lit, endless_lit]
    rfl
  fenceless := by
    refine List.all_eq_true.2 fun q hq => ?_
    have hobject := List.all_eq_true.1 (fenceless_lit h.unfenced) q hq
    have hdot := List.all_eq_true.1 (fenceless_lit (s := ".") (by decide)) q hq
    show (!((false || accepts q (lit object)) || accepts q (lit "."))) = true
    simp only [Bool.not_eq_true'] at hobject hdot
    rw [hobject, hdot]
    rfl
  hit := by
    intro f text prev u rest new hit
    obtain ⟨pos, g, hin, hreads, -⟩ := hit
    have hremoved : Replaced (memberOf object) (fun _ => []) text prev u rest [] := ⟨pos, g, hin, hreads, rfl⟩
    obtain ⟨hprev, rfl, -⟩ := wordHit_memberOf h.head hremoved
    exact ⟨hprev, List.mem_singleton_self _, trivial⟩
  kept := by
    rintro prev r ⟨pos, hunread⟩ hprev w hw rest rfl -
    obtain rfl := List.mem_singleton.1 hw
    obtain ⟨n, q, hreads⟩ := exists_reads_word h.head hprev pos [] ('.' :: rest)
    obtain ⟨n', q', hdot⟩ := exists_reads_lit "." n q [] rest
    rw [List.append_assoc] at hunread
    exact hunread _ _ (.seq hreads hdot)
  apart := apart_singleton _
  fence _ _ _ := Iff.rfl

/-- Reaching for a member of an object of the instance. -/
def thisWord (object : String) : List Char := "this.".toList ++ (object.toList ++ ['.'])

theorem thisWord_eq (object : String) : thisWord object = "this.".toList ++ (object.toList ++ ['.']) := rfl

theorem exists_reads_thisProps {object : String} (hobject : object = "props" ∨ object = "state")
    {prev : Option Char} (hprev : inWord prev = false) (pos : Nat) (rest : List Char) :
    ∃ c' g, Reads thisProps ⟨pos, prev, "this.".toList ++ (object.toList ++ (".".toList ++ rest))⟩ [] c' g := by
  obtain ⟨n, q, hword⟩ := exists_reads_word (s := "this.") (by decide) hprev pos [] _
  obtain ⟨n₁, q₁, hlit⟩ := exists_reads_lit object n q [] (".".toList ++ rest)
  obtain ⟨n₂, q₂, hdot⟩ := exists_reads_lit "." n₁ q₁ [] rest
  refine ⟨_, _, .seq (.seq hword ?_) hdot⟩
  rcases hobject with rfl | rfl
  · exact .left hlit
  · exact .right hlit

theorem readsWords_thisProps :
    ReadsWords thisProps [thisWord "props", thisWord "state"] fun _ => True where
  productive := rfl
  nullable := rfl
  endless := rfl
  fenceless := by decide
  hit := by
    rintro f text prev u rest new ⟨pos, g, -, hreads, -⟩
    obtain ⟨c₂, g₂, h, hdot⟩ := reads_append.1 hreads
    obtain ⟨c₁, g₁, hword, hobject⟩ := reads_append.1 h
    obtain ⟨-, hprev, hrest⟩ := reads_word (s := "this.") (by decide) hword
    obtain ⟨-, hdot, -⟩ := reads_lit hdot
    have hobject : ∃ object, (object = "props" ∨ object = "state") ∧ c₁.rest = object.toList ++ c₂.rest := by
      cases hobject with
      | left h => exact ⟨_, .inl rfl, (reads_lit h).2.1⟩
      | right h => exact ⟨_, .inr rfl, (reads_lit h).2.1⟩
    obtain ⟨object, hobject, hrest'⟩ := hobject
    have hu : u = thisWord object := by
      refine List.append_cancel_right (hrest.trans ?_)
      rw [hrest', hdot, thisWord_eq, List.append_assoc, List.append_assoc]
      rfl
    refine ⟨hprev, ?_, trivial⟩
    rcases hobject with rfl | rfl <;> simp [hu]
  kept := by
    rintro prev r ⟨pos, hunread⟩ hprev w hw rest rfl -
    obtain ⟨object, hobject, rfl⟩ :
        ∃ object, (object = "props" ∨ object = "state") ∧ w = thisWord object := by
      rcases List.mem_cons.1 hw with rfl | hw
      · exact ⟨_, .inl rfl, rfl⟩
      · exact ⟨_, .inr rfl, List.mem_singleton.1 hw⟩
    obtain ⟨c', g, hreads⟩ := exists_reads_thisProps hobject hprev pos rest
    rw [thisWord_eq, List.append_assoc, List.append_assoc] at hunread
    exact hunread _ _ hreads
  apart := by decide
  fence _ _ _ := Iff.rfl

/-- No word goes on with the text. -/
def EndsWord (rest : List Char) : Prop := inWord rest.head? = false

theorem readsWords_environmentMode :
    ReadsWords environmentMode ["process.env.NODE_ENV".toList] EndsWord where
  productive := rfl
  nullable := rfl
  endless := rfl
  fenceless := by decide
  hit := by
    rintro f text prev u rest new ⟨pos, g, -, hreads, -⟩
    obtain ⟨c, g', hword, hedge⟩ := reads_append.1 hreads
    obtain ⟨-, hprev, hrest⟩ := reads_word (s := "process.env.NODE_ENV") (by decide) hword
    obtain ⟨rfl, -⟩ := reads_anchor hedge
    obtain rfl := List.append_cancel_right hrest
    refine ⟨hprev, List.mem_singleton_self _, ?_⟩
    cases hedge with
    | anchor hholds =>
      have hlast : (true != rest.head?.any isWordChar) = true := hholds
      simpa [EndsWord, inWord] using hlast
  kept := by
    rintro prev r ⟨pos, hunread⟩ hprev w hw rest rfl hends
    obtain rfl := List.mem_singleton.1 hw
    obtain ⟨n, q, hreads⟩ := exists_reads_word (s := "process.env.NODE_ENV") (by decide) hprev pos [] rest
    obtain ⟨v, rest', hv, hend⟩ := hreads.eq_after
    obtain ⟨-, rfl, rfl⟩ := Cursor.mk.inj hend
    obtain rfl := List.append_cancel_right hv
    refine hunread _ _ (.seq hreads (.anchor ?_))
    show (true != rest.head?.any isWordChar) = true
    have hends : rest.head?.any isWordChar = false := hends
    rw [hends]
    rfl
  apart := apart_singleton _
  fence := by
    intro q hq rest b
    cases rest with
    | nil => exact ⟨fun _ => rfl, fun _ => not_isWordChar_fence hq⟩
    | cons => exact Iff.rfl

/-! ### Prose -/

/-- Text in which no idiom begins but those that are words, and no path. -/
structure Prose (s : List Char) : Prop where
  marks : ∀ c ∈ "(\x7b=\"'".toList, c ∉ s
  noPath : ¬ "./".toList <:+: s

theorem Prose.not_startsPath {s : List Char} (hs : Prose s) {q : Char} (hq : q ∈ fences) (b : List Char) :
    ¬ StartsPath (s ++ q :: b) := by
  rintro ⟨dots, y, h, hdots⟩
  have hdots : "./".toList <:+: dots ++ ['/'] ∧ q ∉ dots ++ ['/'] := by
    rcases hdots with rfl | rfl <;> exact ⟨by decide, fence_not_mem_unfenced hq (by decide)⟩
  have h : s ++ q :: b = (dots ++ ['/']) ++ y := by simpa using h
  rcases List.append_eq_append_iff.1 h with ⟨v, hv, hb⟩ | ⟨v, rfl, -⟩
  · cases v with
    | nil => exact hs.noPath (by rw [← List.append_nil s, ← hv]; exact hdots.1)
    | cons d v =>
      obtain ⟨rfl, -⟩ := List.cons.inj hb
      exact hdots.2 (by simp [hv])
  · exact hs.noPath (hdots.1.trans (List.prefix_append _ v).isInfix)

/-- The edit takes prose between fences behind `a` by itself, and leaves it prose. -/
structure Steady (edit : List Char → List Char) (a : List Char) : Prop where
  fenced : ∀ {s q q'}, Prose s → q ∈ fences → q' ∈ fences → Fenced edit a s q q'
  prose : ∀ {s}, Prose s → Prose (edit s)

theorem Steady.trans {edit edit' : List Char → List Char} {a : List Char} (h : Steady edit a)
    (h' : Steady edit' (edit a)) : Steady (fun code => edit' (edit code)) a where
  fenced hs hq hq' := Fenced.comp (h'.fenced (h.prose hs) hq hq') (h.fenced hs hq hq')
  prose hs := h'.prose (h.prose hs)

theorem mark_of_mem {c : Char} (hc : c ∈ "(\x7b=".toList) : c ∈ "(\x7b=\"'".toList ∧ c ∉ fences := by
  have hall : ∀ c ∈ "(\x7b=".toList, c ∈ "(\x7b=\"'".toList ∧ c ∉ fences :=
    List.all_iff_forall_prop.1 (by decide)
  exact hall c hc

/-- Matches that come to a mark leave prose alone. -/
theorem unchanged_of_prose {p : Pattern} {c : Char} (hp : p.productive = true) (hn : p.nullable = false)
    (hreach : Reaches c p) (hc : c ∈ "(\x7b=".toList) (f : Match → List Char) {s : List Char} (hs : Prose s) :
    p.replaceAll f s = s := by
  exact unchanged_of_reaches hp hn hreach f (hs.marks c (mark_of_mem hc).1)

/-- Matches come to a mark that prose lacks, and none crosses a fence in front of prose. -/
theorem steady_of_reaches {p : Pattern} {F : List Char → Match → List Char} {c : Char} {a : List Char}
    (hp : p.productive = true) (hn : p.nullable = false) (he : p.endless = true)
    (hF : ∀ u v m, Ends m u.length → F (u ++ v) m = F u m) (hreach : Reaches c p)
    (hc : c ∈ "(\x7b=".toList)
    (hcross : ∀ {q q' s b}, Prose s → q ∈ fences → q' ∈ fences → ¬ Crosses p a (q :: (s ++ q' :: b))) :
    Steady (fun code => p.replaceAll (F code) code) a := by
  have hmark := mark_of_mem hc
  constructor
  · intro s q q' hs hq hq'
    exact fenced_of_reaches hp hn he hF hreach hmark.2 hq hq' (hs.marks c hmark.1) fun b => hcross hs hq hq'
  · intro s hs
    show Prose (p.replaceAll _ s)
    rwa [unchanged_of_prose hp hn hreach hc _ hs]

/-! ### Idioms that come to a mark -/

theorem reaches_word {s : String} {c : Char} (hc : c ∈ s.toList) (hs : fenceless (lit s) = true) :
    Reaches c (wordEdge ++ lit s) :=
  (reaches_lit hc hs).after rfl

theorem reaches_historyDeclaration : Reaches '(' historyDeclaration := by
  have hcall : Reaches '(' (lineIndent ++ Component.constOrLet ++ blanks1 ++ lit "history" ++ blanks ++ lit "=" ++
      blanks ++ lit "useHistory(") :=
    (reaches_lit (by decide) (by decide)).after (by decide)
  iterate 4 refine Reaches.append ?_ _
  exact hcall

theorem reaches_bindingDestructuring : Reaches '\x7b' bindingDestructuring := by
  have hbrace : Reaches '\x7b' (lineIndent ++ Component.constOrLet ++ blanks ++ lit "\x7b") :=
    (reaches_lit (by decide) (by decide)).after (by decide)
  iterate 9 refine Reaches.append ?_ _
  exact hbrace

theorem reaches_setStateObject : Reaches '(' setStateObject := by
  iterate 6 refine Reaches.append ?_ _
  exact reaches_word (by decide) (by decide)

theorem reaches_historyPush : Reaches '(' historyPush := reaches_word (by decide) (by decide)

theorem reaches_historyReplace : Reaches '(' historyReplace :=
  ((reaches_word (by decide) (by decide)).append _).append _

theorem reaches_historyBack : Reaches '(' historyBack :=
  ((reaches_word (by decide) (by decide)).append _).append _

theorem reaches_assetRequire : Reaches '(' assetRequire := by
  iterate 6 refine Reaches.append ?_ _
  exact reaches_word (by decide) (by decide)

theorem reaches_classNameValue : Reaches '=' classNameValue :=
  (reaches_lit (by decide) (by decide)).append _

/-! ### The steps -/

variable {a : List Char}

theorem steady_historyDeclaration : Steady (remove historyDeclaration) a :=
  steady_of_reaches rfl rfl rfl (fun _ _ _ _ => rfl) reaches_historyDeclaration (by decide)
    fun _ hq _ => not_crosses (by decide) hq

theorem steady_bindingDestructuring (ha : ¬ OpensBinding a) : Steady (remove bindingDestructuring) a :=
  steady_of_reaches rfl rfl rfl (fun _ _ _ _ => rfl) reaches_bindingDestructuring (by decide)
    fun _ hq _ h => ha (opensBinding_of_crosses hq h)

theorem steady_stateUpdates (state : List StateBinding) (ha : ¬ OpensUpdate a) :
    Steady (stateUpdates state) a := by
  refine steady_of_reaches (F := fun code m => (setterCalls state (m.groupText code 1)).toList) rfl rfl rfl ?_
    reaches_setStateObject (by decide) fun _ hq _ h => ha (opensUpdate_of_crosses hq h)
  intro u v m hm
  rw [hm.groupText_append]

theorem steady_pushCalls : Steady pushCalls a :=
  steady_of_reaches rfl rfl rfl (fun _ _ _ _ => rfl) reaches_historyPush (by decide)
    fun _ hq _ => not_crosses (by decide) hq

theorem steady_replaceCalls (ha : ¬ OpensCall a) : Steady replaceCalls a := by
  refine steady_of_reaches (F := fun code m => "navigate(".toList ++ m.groupText code 1 ++
    ", \x7b replace: true \x7d)".toList) rfl rfl rfl ?_ reaches_historyReplace (by decide)
    fun _ hq _ h => ha (opensCall_of_crosses hq h)
  intro u v m hm
  rw [hm.groupText_append]

theorem steady_backCalls : Steady backCalls a :=
  steady_of_reaches rfl rfl rfl (fun _ _ _ _ => rfl) reaches_historyBack (by decide)
    fun _ hq _ => not_crosses (by decide) hq

theorem steady_styleClasses (ha : ¬ OpensClass a) : Steady styleClasses a := by
  refine steady_of_reaches rfl rfl rfl ?_ reaches_classNameValue (by decide)
    fun _ hq _ h => ha (opensClass_of_crosses hq h)
  intro u v m hm
  unfold classAttribute
  rw [hm.groupText?_append, hm.groupText?_append, text_append hm.span]

/-- Assets that are required. -/
def requiredAssets (code : List Char) : List Char :=
  assetRequire.replaceAll (fun m => "'/assets/".toList ++ m.groupText code 1 ++ ['\'']) code

/-- Assets that are named in a string. -/
def quotedAssets (code : List Char) : List Char :=
  assetString.replaceAll (fun m =>
    m.groupText code 1 ++ "/assets/".toList ++ m.groupText code 2 ++ m.groupText code 1) code

theorem assets_eq (code : List Char) : assets code = quotedAssets (requiredAssets code) := rfl

theorem steady_requiredAssets (ha : ¬ OpensPath a) : Steady requiredAssets a := by
  refine steady_of_reaches (F := fun code m => "'/assets/".toList ++ m.groupText code 1 ++ ['\'']) rfl rfl rfl ?_
    reaches_assetRequire (by decide)
    fun hs hq hq' h => ha (opensPath_of_crosses_require hq h (hs.not_startsPath hq' _))
  intro u v m hm
  rw [hm.groupText_append]

theorem Prose.not_mem_quote {s : List Char} (hs : Prose s) {d : Char} (hd : IsQuote d) : d ∉ s := by
  rcases hd with rfl | rfl <;> exact hs.marks _ (by decide)

theorem quotedAssets_of_prose {s : List Char} (hs : Prose s) : quotedAssets s = s := by
  refine unchanged_of_hits rfl rfl fun hit => ?_
  obtain ⟨d, -, -, -, -, rfl, hd, -⟩ := replaced_assetString hit
  exact ⟨d, List.mem_cons_self, hs.not_mem_quote hd⟩

theorem steady_quotedAssets (ha : ¬ OpensPath a) : Steady quotedAssets a := by
  have hend {u v : List Char} {m : Match} (hm : Ends m u.length) :
      (m.groupText (u ++ v) 1 ++ "/assets/".toList ++ m.groupText (u ++ v) 2 ++ m.groupText (u ++ v) 1) =
        m.groupText u 1 ++ "/assets/".toList ++ m.groupText u 2 ++ m.groupText u 1 := by
    rw [hm.groupText_append, hm.groupText_append]
  constructor
  · intro s q q' hs hq hq'
    refine fenced_of_hits (F := fun code m => m.groupText code 1 ++ "/assets/".toList ++ m.groupText code 2 ++
      m.groupText code 1) (P := fun u new => ∃ d dots y r, u = d :: (dots ++ '/' :: y) ∧ IsQuote d ∧
      (dots = ".".toList ∨ dots = "..".toList) ∧ new = d :: r) rfl rfl rfl (fun u v m hm => hend hm) ?_ hq ?_ ?_
      (fun b h => ha (opensPath_of_crosses_string hq h)) (quotedAssets_of_prose hs)
    · intro text prev u rest new hit
      obtain ⟨d, dots, y, d', m, rfl, hd, hdots, rfl, hfirst⟩ := replaced_assetString hit
      exact ⟨d, dots, y ++ [d'], _, rfl, hd, hdots.dots, by rw [hfirst]; rfl⟩
    · rintro y₁ y₂ b u rest new hy hne hu ⟨d, dots, y, r, rfl, hd, hdots, -⟩
      obtain ⟨e, y₂, rfl⟩ := List.exists_cons_of_ne_nil hne
      rw [List.cons_append, List.cons_append] at hu
      obtain ⟨rfl, hrest⟩ := List.cons.inj hu
      cases y₁ with
      | nil =>
        -- The match begins with the fence, so a path would have to begin behind it.
        obtain ⟨-, rfl⟩ := List.cons.inj hy
        exact hs.not_startsPath hq' b ⟨dots, y ++ rest, by rw [hrest]; simp, hdots⟩
      | cons c y₁ =>
        rw [List.cons_append] at hy
        obtain ⟨-, rfl⟩ := List.cons.inj hy
        exact hs.not_mem_quote hd (by simp)
    · rintro b u rest new hu - ⟨d, dots, y, r, rfl, -, -, rfl⟩
      rw [List.cons_append] at hu
      obtain ⟨rfl, -⟩ := List.cons.inj hu
      exact ⟨r, rfl⟩
  · intro s hs
    rwa [quotedAssets_of_prose hs]

/-! ### Words in prose -/

/-- The new text brings neither a mark into prose nor a path. -/
structure Quiet (ws : List (List Char)) (new : List Char) : Prop where
  marks : ∀ c ∈ "(\x7b=\"'".toList, c ∉ new
  slash : '/' ∉ new
  dot : new.getLast? ≠ some '.'
  removed : new = [] → ∀ w ∈ ws, w.getLast? = some '.'

theorem infix_cons_iff_path {c : Char} {text : List Char} :
    "./".toList <:+: c :: text ↔ (c = '.' ∧ text.head? = some '/') ∨ "./".toList <:+: text := by
  rw [List.infix_cons_iff]
  refine or_congr_left ?_
  show '.' :: ['/'] <+: c :: text ↔ _
  rw [List.cons_prefix_cons, eq_comm (a := '.')]
  refine and_congr_right fun _ => ?_
  cases text with
  | nil => simp
  | cons d text => simp [List.cons_prefix_cons, eq_comm]

theorem path_append_iff {u v : List Char} : "./".toList <:+: u ++ v ↔
    "./".toList <:+: u ∨ (u.getLast? = some '.' ∧ v.head? = some '/') ∨ "./".toList <:+: v := by
  induction u with
  | nil => simp
  | cons c u ih =>
    rw [List.cons_append, infix_cons_iff_path, infix_cons_iff_path, ih]
    cases u with
    | nil => simp [or_comm]
    | cons d u =>
      rw [List.getLast?_cons_cons]
      simp only [List.cons_append, List.head?_cons]
      tauto

theorem Quiet.path_of_edited {ws : List (List Char)} {Follows : List Char → Prop} {new text out : List Char}
    (hq : Quiet ws new) {prev : Option Char}
    (h : Edited (WordsKept ws Follows) (WordsHit ws Follows new) prev text out) :
    (out.head? = some '/' → text.head? = some '/' ∨ "./".toList <:+: text) ∧
      ("./".toList <:+: out → "./".toList <:+: text) := by
  induction h with
  | nil => exact ⟨.inl, id⟩
  | @keep prev c r out _ _ ih =>
    refine ⟨.inl, fun hpath => ?_⟩
    rw [infix_cons_iff_path] at hpath ⊢
    rcases hpath with ⟨hdot, hslash⟩ | hpath
    · exact (ih.1 hslash).imp_left fun hslash => ⟨hdot, hslash⟩
    · exact .inr (ih.2 hpath)
  | @hit prev u rest new' out hu hnew _ ih =>
    obtain ⟨-, hmem, -, rfl⟩ := hnew
    rw [path_append_iff, path_append_iff]
    by_cases hempty : new' = []
    · have hlast := hq.removed hempty u hmem
      rw [hempty, List.nil_append]
      refine ⟨fun hslash => .inr ?_, ?_⟩
      · exact (ih.1 hslash).elim (fun hslash => .inr (.inl ⟨hlast, hslash⟩)) fun hpath => .inr (.inr hpath)
      · rintro (hpath | ⟨hnone, -⟩ | hpath)
        · exact absurd hpath (by decide)
        · cases hnone
        · exact .inr (.inr (ih.2 hpath))
    · obtain ⟨c, r, rfl⟩ := List.exists_cons_of_ne_nil hempty
      have hslash := hq.slash
      refine ⟨fun hhead => ?_, ?_⟩
      · have hc : c = '/' := Option.some.inj hhead
        exact absurd (hc ▸ List.mem_cons_self) hslash
      rintro (hpath | ⟨hdot, -⟩ | hpath)
      · exact absurd (hpath.subset (by decide)) hslash
      · exact absurd hdot hq.dot
      · exact .inr (.inr (ih.2 hpath))

theorem steady_words {p : Pattern} {ws : List (List Char)} {Follows : List Char → Prop} {new : List Char}
    (h : ReadsWords p ws Follows) (hq : Quiet ws new) : Steady (fun code => p.replaceAll (fun _ => new) code) a where
  fenced _ hq hq' := h.fenced new a _ hq hq'
  prose := by
    intro s hs
    refine ⟨fun c hc => (h.edited new s).not_mem ?_ (hs.marks c hc), fun hpath => ?_⟩
    · rintro _ _ _ _ ⟨-, -, -, rfl⟩
      exact hq.marks c hc
    · exact hs.noPath ((hq.path_of_edited (h.edited new s)).2 hpath)

theorem quiet_nil {ws : List (List Char)} (h : ∀ w ∈ ws, w.getLast? = some '.') : Quiet ws [] where
  marks _ _ := List.not_mem_nil
  slash := List.not_mem_nil
  dot := by simp
  removed _ := h

theorem steady_thisProps : Steady (remove thisProps) a := by
  have hlast (object : String) : (thisWord object).getLast? = some '.' := by
    rw [thisWord_eq, ← List.append_assoc, List.getLast?_concat]
  refine steady_words readsWords_thisProps (quiet_nil fun w hw => ?_)
  rcases List.mem_cons.1 hw with rfl | hw
  · exact hlast _
  · rw [List.mem_singleton.1 hw]
    exact hlast _

theorem steady_thisMember : Steady (remove thisMember) a :=
  steady_words readsWords_thisMember (quiet_nil (by decide))

theorem steady_withoutObject {f : Facts} (hobject : ∀ object, f.propsAlias? = some object → ObjectName object) :
    Steady (withoutObject f) a := by
  unfold withoutObject
  cases halias : f.propsAlias? with
  | none =>
    exact ⟨fun {s} {q} {q'} _ _ _ b => ⟨b, rfl⟩, id⟩
  | some object =>
    refine steady_words (readsWords_memberOf (hobject object halias)) (quiet_nil ?_)
    intro w hw
    rw [List.mem_singleton.1 hw, List.getLast?_concat]

theorem steady_environmentVariable : Steady (substitute environmentVariable "import.meta.env.VITE_") a :=
  steady_words readsWords_environmentVariable
    ⟨List.all_iff_forall_prop.1 (by decide), by decide, by decide, fun h => absurd h (by decide)⟩

theorem steady_environmentMode : Steady (substitute environmentMode "import.meta.env.MODE") a :=
  steady_words readsWords_environmentMode
    ⟨List.all_iff_forall_prop.1 (by decide), by decide, by decide, fun h => absurd h (by decide)⟩

theorem steady_environment : Steady environment a := steady_environmentVariable.trans steady_environmentMode

/-! ### The whole code -/

/-- Where the steps find it, nothing is open at the end of the text that text behind it could close. -/
structure Apart (f : Facts) (a : List Char) : Prop where
  binding : ¬ OpensBinding (remove historyDeclaration a)
  update : ¬ OpensUpdate (beforeUpdates a)
  call : ¬ OpensCall (pushCalls (instanceMembers f a))
  require : ¬ OpensPath (environment (historyCalls (instanceMembers f a)))
  path : ¬ OpensPath (requiredAssets (environment (historyCalls (instanceMembers f a))))
  classes : ¬ OpensClass (assets (environment (historyCalls (instanceMembers f a))))

theorem steady_historyCalls (ha : ¬ OpensCall (pushCalls a)) : Steady historyCalls a :=
  (steady_pushCalls.trans (steady_replaceCalls ha)).trans steady_backCalls

theorem steady_assets (ha : ¬ OpensPath a) (ha' : ¬ OpensPath (requiredAssets a)) : Steady assets a :=
  (steady_requiredAssets ha).trans (steady_quotedAssets ha')

theorem steady_beforeUpdates (ha : ¬ OpensBinding (remove historyDeclaration a)) : Steady beforeUpdates a :=
  (steady_historyDeclaration.trans (steady_bindingDestructuring ha)).trans steady_thisProps

theorem steady_instanceMembers {f : Facts} (hobject : ∀ object, f.propsAlias? = some object → ObjectName object)
    (ha : Apart f a) : Steady (instanceMembers f) a := by
  have hupdates : Steady (fun code => stateUpdates f.state (beforeUpdates code)) a :=
    (steady_beforeUpdates ha.binding).trans (steady_stateUpdates f.state ha.update)
  exact (hupdates.trans steady_thisMember).trans (steady_withoutObject hobject)

theorem steady_chars {f : Facts} (hobject : ∀ object, f.propsAlias? = some object → ObjectName object)
    (ha : Apart f a) : Steady (chars f) a := by
  have hcalls := (steady_instanceMembers hobject ha).trans (steady_historyCalls ha.call)
  have hassets := (hcalls.trans steady_environment).trans (steady_assets ha.require ha.path)
  have hchars := hassets.trans (steady_styleClasses ha.classes)
  exact hchars

/-- Of the steps only those for words concern prose. -/
theorem chars_of_prose {f : Facts} (hobject : ∀ object, f.propsAlias? = some object → ObjectName object)
    {s : List Char} (hs : Prose s) :
    chars f s = environment (withoutObject f (remove thisMember (remove thisProps s))) := by
  have hprops : Prose (remove thisProps s) := (steady_thisProps (a := [])).prose hs
  have hmembers : Prose (withoutObject f (remove thisMember (remove thisProps s))) :=
    (steady_withoutObject (a := []) hobject).prose ((steady_thisMember (a := [])).prose hprops)
  have henvironment := (steady_environment (a := [])).prose hmembers
  have hbefore : beforeUpdates s = remove thisProps s := by
    have hhistory : remove historyDeclaration s = s :=
      unchanged_of_prose rfl rfl reaches_historyDeclaration (by decide) _ hs
    have hbindings : remove bindingDestructuring s = s :=
      unchanged_of_prose rfl rfl reaches_bindingDestructuring (by decide) _ hs
    rw [beforeUpdates, hhistory, hbindings]
  have hupdates : stateUpdates f.state (remove thisProps s) = remove thisProps s :=
    unchanged_of_prose rfl rfl reaches_setStateObject (by decide) _ hprops
  rw [chars_eq, hbefore, hupdates]
  generalize withoutObject f (remove thisMember (remove thisProps s)) = t at hmembers henvironment ⊢
  have hcalls : historyCalls t = t := by
    have hpush : pushCalls t = t := unchanged_of_prose rfl rfl reaches_historyPush (by decide) _ hmembers
    have hreplace : replaceCalls t = t := unchanged_of_prose rfl rfl reaches_historyReplace (by decide) _ hmembers
    have hback : backCalls t = t := unchanged_of_prose rfl rfl reaches_historyBack (by decide) _ hmembers
    rw [historyCalls_eq, hpush, hreplace, hback]
  have hrequired : requiredAssets (environment t) = environment t :=
    unchanged_of_prose rfl rfl reaches_assetRequire (by decide) _ henvironment
  have hclasses : styleClasses (environment t) = environment t :=
    unchanged_of_prose rfl rfl reaches_classNameValue (by decide) _ henvironment
  rw [hcalls, assets_eq, hrequired, quotedAssets_of_prose henvironment, hclasses]

/-! ### Prose that stays -/

/-- The edit shortens a text unless it leaves it alone, which it does exactly if the text is idle. -/
structure Shortens (edit : List Char → List Char) (Idle : List Char → Prop) : Prop where
  length_le : ∀ text, (edit text).length ≤ text.length
  eq_self : ∀ text, text.length ≤ (edit text).length → edit text = text
  idle_iff : ∀ text, edit text = text ↔ Idle text

section

variable {edit edit' : List Char → List Char} {Idle Idle' : List Char → Prop}

/-- An edit that lengthens no text restores none that was shortened before. -/
theorem Shortens.comp_eq_self_iff (h : Shortens edit Idle) (hlength : ∀ text, (edit' text).length ≤ text.length)
    (text : List Char) : edit' (edit text) = text ↔ Idle text ∧ edit' text = text := by
  rw [← h.idle_iff]
  constructor
  · intro hself
    have hfirst : edit text = text := by
      refine h.eq_self text ?_
      calc text.length = (edit' (edit text)).length := by rw [hself]
        _ ≤ (edit text).length := hlength _
    rw [hfirst] at hself
    exact ⟨hfirst, hself⟩
  · rintro ⟨hfirst, hsecond⟩
    rw [hfirst, hsecond]

theorem Shortens.comp (h : Shortens edit Idle) (h' : Shortens edit' Idle') :
    Shortens (fun text => edit' (edit text)) (fun text => Idle text ∧ Idle' text) where
  length_le text := Nat.le_trans (h'.length_le _) (h.length_le text)
  eq_self text hlength := by
    have hfirst : edit text = text := h.eq_self text (Nat.le_trans hlength (h'.length_le _))
    show edit' (edit text) = text
    rw [hfirst] at hlength ⊢
    exact h'.eq_self text hlength
  idle_iff text := by
    rw [h.comp_eq_self_iff h'.length_le, h'.idle_iff]

end

theorem shortens_words {p : Pattern} {ws : List (List Char)} {Follows : List Char → Prop} {new : List Char}
    (h : ReadsWords p ws Follows) (hnew : ∀ w ∈ ws, new.length < w.length) :
    Shortens (fun text => p.replaceAll (fun _ => new) text) (fun text => ∀ w ∈ ws, Lacks w Follows text) where
  length_le := h.length_le fun w hw => Nat.le_of_lt (hnew w hw)
  eq_self _ := h.eq_self_of_length_le hnew
  idle_iff text := by
    refine h.replaceAll_eq_self_iff (fun w hw => ⟨Nat.le_of_lt (hnew w hw), ?_⟩) fun hnil => ?_
    · rintro rfl
      exact absurd (hnew _ hw) (Nat.lt_irrefl _)
    · exact absurd (hnew _ hnil) (Nat.not_lt_zero _)

theorem shortens_withoutObject {f : Facts}
    (hobject : ∀ object, f.propsAlias? = some object → ObjectName object) :
    Shortens (withoutObject f) fun text =>
      ∀ object, f.propsAlias? = some object → ¬ Mentions (object.toList ++ ['.']) none text := by
  unfold withoutObject
  cases halias : f.propsAlias? with
  | none => exact ⟨fun _ => Nat.le_refl _, fun _ _ => rfl, by simp⟩
  | some object =>
    have hshort : Shortens (remove (memberOf object)) _ :=
      shortens_words (readsWords_memberOf (hobject object halias)) (by simp)
    simpa [lacks_true_iff] using hshort

/-- No idiom stands in the text. -/
structure Untouched (f : Facts) (s : List Char) : Prop where
  members : ¬ Mentions "this.".toList none s
  object : ∀ object, f.propsAlias? = some object → ¬ Mentions (object.toList ++ ['.']) none s
  environment : ¬ Mentions "process.env.REACT_APP_".toList none s
  mode : Lacks "process.env.NODE_ENV".toList EndsWord s

theorem lacks_thisWord {s : List Char} (h : ¬ Mentions "this.".toList none s) (object : String) :
    Lacks (thisWord object) (fun _ => True) s := by
  rw [lacks_true_iff]
  rintro ⟨a, b, hs, ha⟩
  rw [thisWord_eq, List.append_assoc] at hs
  exact h ⟨a, _, hs, ha⟩

/-- Prose is left alone exactly if no idiom stands in it. -/
theorem chars_eq_self_iff {f : Facts} (hobject : ∀ object, f.propsAlias? = some object → ObjectName object)
    {s : List Char} (hs : Prose s) : chars f s = s ↔ Untouched f s := by
  have hprops : Shortens (remove thisProps) _ :=
    shortens_words readsWords_thisProps (by decide)
  have hmember : Shortens (remove thisMember) _ :=
    shortens_words readsWords_thisMember (by decide)
  have hvariable : Shortens (substitute environmentVariable "import.meta.env.VITE_") _ :=
    shortens_words readsWords_environmentVariable (by decide)
  have hlength (text : List Char) :
      (substitute environmentMode "import.meta.env.MODE" text).length ≤ text.length :=
    readsWords_environmentMode.length_le (by decide) text
  have hmode : substitute environmentMode "import.meta.env.MODE" s = s ↔
      Lacks "process.env.NODE_ENV".toList EndsWord s := by
    refine (readsWords_environmentMode.replaceAll_eq_self_iff (by decide) (by decide)).trans ?_
    rw [List.forall_mem_singleton]
  have hsteps := ((hprops.comp hmember).comp (shortens_withoutObject hobject)).comp hvariable
  have hiff := hsteps.comp_eq_self_iff hlength s
  rw [chars_of_prose hobject hs]
  refine hiff.trans ?_
  rw [hmode]
  simp only [List.mem_cons, List.not_mem_nil, or_false, forall_eq_or_imp, forall_eq, lacks_true_iff]
  constructor
  · rintro ⟨⟨⟨⟨-, hmember⟩, hobject⟩, hvariable⟩, hmode⟩
    exact ⟨hmember, hobject, hvariable, hmode⟩
  · rintro ⟨hmember, hobject, hvariable, hmode⟩
    have hlacks (object : String) : ¬ Mentions (thisWord object) none s :=
      lacks_true_iff.1 (lacks_thisWord hmember object)
    exact ⟨⟨⟨⟨⟨hlacks _, hlacks _⟩, hmember⟩, hobject⟩, hvariable⟩, hmode⟩

theorem instanceMembers_eq (f : Facts) (code : List Char) : instanceMembers f code =
    withoutObject f (remove thisMember (stateUpdates f.state (beforeUpdates code))) := rfl

/-- No member of the props object is left, wherever it stood. -/
theorem not_mentions_object {f : Facts} (hobject : ∀ object, f.propsAlias? = some object → ObjectName object)
    {object : String} (halias : f.propsAlias? = some object) (code : List Char) :
    ¬ Mentions (object.toList ++ ['.']) none (instanceMembers f code) := by
  have hname := hobject object halias
  have hwords := readsWords_memberOf hname
  have hpast : GoesPast (object.toList ++ ['.']) [] (object.toList ++ ['.']) := by
    refine goesPast_nil (by simp) (fun prev => by rw [List.getLast?_concat]; rfl) fun i hi hpos => ?_
    have hle : i ≤ object.toList.length := by
      rw [List.length_append] at hi
      exact Nat.le_of_lt_succ hi
    have hne : object.toList.take i ≠ [] := by
      rw [Ne, List.take_eq_nil_iff, not_or]
      exact ⟨Nat.ne_of_gt hpos, hname.ne_nil⟩
    rw [List.take_append_of_le_length hle, List.getLast?_eq_some_getLast hne]
    exact hname.word _ (List.mem_of_mem_take (List.getLast_mem hne))
  rw [instanceMembers_eq, withoutObject, halias]
  generalize remove thisMember (stateUpdates f.state (beforeUpdates code)) = text
  have hedited : Edited (WordsKept [object.toList ++ ['.']] fun _ => True) (WordHit (object.toList ++ ['.']) [])
      none text (remove (memberOf object) text) := by
    refine (hwords.edited [] text).mono (fun _ _ => id) ?_
    rintro prev u rest new ⟨hprev, hu, -, hnew⟩
    exact ⟨hprev, List.mem_singleton.1 hu, hnew⟩
  refine hedited.not_mentions hpast.leaves (by simp) hpast.not_mentions fun prev r hprev hkept => ?_
  exact hkept hprev _ (List.mem_singleton_self _) r rfl trivial

/-- The text between two fences is carried over as if it stood alone, if it is prose and the code in
front of it leaves nothing open. So a string, a template or a text of the markup stays as it is
exactly if no idiom stands in it; that it is no code does not matter. Nor does a dot in front of
the props object. -/
theorem chars_fenced {f : Facts} (hobject : ∀ object, f.propsAlias? = some object → ObjectName object)
    {a s : List Char} {q q' : Char} (hq : q ∈ fences) (hq' : q' ∈ fences) (hs : Prose s) (ha : Apart f a) :
    (∀ b, ∃ b', chars f (a ++ q :: (s ++ q' :: b)) = chars f a ++ q :: (chars f s ++ q' :: b')) ∧
      (chars f s = s ↔ Untouched f s) ∧
      ∀ object, f.propsAlias? = some object → ∀ code,
        ¬ Mentions (object.toList ++ ['.']) none (instanceMembers f code) :=
  ⟨(steady_chars hobject ha).fenced hs hq hq', chars_eq_self_iff hobject hs,
    fun _ halias => not_mentions_object hobject halias⟩

/-- Facts of a component whose props object is `props`. -/
def propsFacts : Facts := { Facts.bare "Panel" with propsAlias? := some "props" }

theorem apart_of_call : Apart propsFacts "say(child.props.x, ".toList := by
  have hmembers : instanceMembers propsFacts "say(child.props.x, ".toList = "say(child.x, ".toList := by
    decide +kernel
  have hcalls : environment (historyCalls "say(child.x, ".toList) = "say(child.x, ".toList := by decide +kernel
  have hrequired : requiredAssets "say(child.x, ".toList = "say(child.x, ".toList := by decide +kernel
  have hassets : assets "say(child.x, ".toList = "say(child.x, ".toList := by decide +kernel
  constructor
  case binding => exact fun h => absurd h.brace_mem (by decide +kernel)
  case update => exact fun h => absurd h.brace_mem (by decide +kernel)
  case call =>
    rw [hmembers]
    have hword : 't' ∈ "history.replace(".toList := by decide
    exact fun h => absurd (h.word_subset hword) (by decide +kernel)
  case require =>
    rw [hmembers, hcalls]
    exact fun h => absurd h.slash_mem (by decide)
  case path =>
    rw [hmembers, hcalls, hrequired]
    exact fun h => absurd h.slash_mem (by decide)
  case classes =>
    rw [hmembers, hcalls, hassets]
    exact fun h => absurd h.equals_mem (by decide)

theorem prose_of_not_mem {s : List Char} (hmarks : ∀ c ∈ "(\x7b=\"'".toList, c ∉ s)
    (hslash : '/' ∉ s) : Prose s :=
  ⟨hmarks, fun h => hslash (h.subset (by decide))⟩

/-- A string is carried over though it is no code, and so is the member of a child. -/
theorem title_carried_over :
    (∃ b', chars propsFacts
        ("say(child.props.x, ".toList ++ '\'' :: ("see this.title".toList ++ '\'' :: ");".toList)) =
      "say(child.x, ".toList ++ '\'' :: ("see title".toList ++ '\'' :: b')) ∧
    ¬ Untouched propsFacts "see this.title".toList := by
  have hobject : ∀ object, propsFacts.propsAlias? = some object → ObjectName object := by
    rintro object hobject
    obtain rfl : "props" = object := Option.some.inj hobject
    exact ⟨by decide, List.all_iff_forall_prop.1 (by decide +kernel)⟩
  have hprose : Prose "see this.title".toList := prose_of_not_mem (List.all_iff_forall_prop.1 (by decide)) (by decide)
  have hquote : '\'' ∈ fences := by decide
  obtain ⟨hfenced, hself, -⟩ := chars_fenced hobject hquote hquote hprose apart_of_call
  have hcode : chars propsFacts "say(child.props.x, ".toList = "say(child.x, ".toList := by decide +kernel
  have hstring : chars propsFacts "see this.title".toList = "see title".toList := by decide +kernel
  rw [hcode, hstring] at hfenced
  rw [hstring] at hself
  exact ⟨hfenced _, fun h => absurd (hself.2 h) (by decide)⟩

end Recast.Modernize
