import Recast.Proofs.Optimize.Exactness
import Recast.Proofs.Pattern.Mentions
import Recast.Proofs.Pattern.Places
import Recast.Proofs.Text.Splitting

/-!
# Hooks and early returns

A hook may be called in a component only where it is called on every render, so none may stand
behind a statement that returns early. The constants whose initializers get a hook are read up to
the first line that is taken for a return: two spaces and then `if (` or the word `return`.
`Hook.mem_select_iff` says which constants these are. A return in another statement, or in an `if`
that is written or indented otherwise, is not seen, and hooks are put behind it.
-/

namespace Recast

open Text Pattern Pattern.Generated

/-! ### Lines -/

/-- Behind the end of a line, what holds no line break begins there or later. -/
theorem Pattern.EndsLines.exists_append {x z before head : List Char} (hx : EndsLines x) (hhead : '\n' ∉ head)
    (heq : before ++ head = x ++ z) : ∃ s, before = x ++ s ∧ z = s ++ head := by
  rcases List.append_eq_append_iff.1 heq with ⟨t, rfl, ht⟩ | ⟨s, hs, hz⟩
  · have hempty : t = [] := by
      by_contra hne
      rw [ht] at hhead
      exact hhead (List.mem_append_left z (hx.mem hne))
    subst hempty
    exact ⟨[], by simp, ht.symm⟩
  · exact ⟨s, hs, hz⟩

/-- A line begins here that is taken for a return from the component: two spaces, and `if` with
its bracket or `return`. -/
def ExitLine (rest : List Char) : Prop :=
  "  if (".toList <+: rest ∨ ∃ after, rest = "  return".toList ++ after ∧ inWord after.head? = false

/-- The hook is put around initializers of constants with such names. -/
def Hook.Names : Hook → List Char → Prop
  | callback, name => ∃ word ∈ ["handle".toList, "on".toList], ∃ c rest, name = word ++ c :: rest ∧
      c.isUpper = true ∧ rest.all isIdentChar = true
  | memo, name => ∃ c rest, name = c :: rest ∧ (c.isLower || c == '_' || c == '$') = true ∧
      rest.all isIdentChar = true

def declarationHead (name : List Char) : List Char := "  const ".toList ++ (name ++ " = ".toList)

def Hook.declaration : Hook → Pattern
  | callback => handlerDeclaration
  | memo => localDeclaration

/-- The hook is put around initializers of that kind. -/
def Hook.fits : Hook → Initializer → Bool
  | callback => Initializer.isHandler
  | memo => Initializer.isDerivation

theorem Hook.select_eq (h : Hook) (content : List Char) :
    h.select content = (Initializer.all content h.declaration).filter h.fits := by
  cases h <;> rfl

def Hook.namePattern : Hook → Pattern
  | callback => oneOfWords ["handle", "on"] ++ capital ++ asciiNameRest
  | memo => char (fun c => c.isLower || c == '_' || c == '$') ++ asciiNameRest

theorem Hook.declaration_eq (h : Hook) : h.declaration =
    lineStart ++ lit "  const " ++ group 1 h.namePattern ++ lit " = " := by
  cases h <;> rfl

theorem Hook.readsAt_namePattern (h : Hook) {x u y : List Char} :
    ReadsAt h.namePattern x u y ↔ h.Names u := by
  cases h with
  | callback =>
    simp only [namePattern, oneOfWords, oneOf, List.map, readsAt_append, readsAt_either, capital,
      asciiNameRest, readsAt_lit, readsAt_char, readsAt_star_char]
    constructor
    · rintro ⟨-, rest, rfl, ⟨word, -, rfl, hword, c, rfl, hc⟩, hrest⟩
      exact ⟨word, by simpa using hword, c, rest, by simp, hc, hrest⟩
    · rintro ⟨word, hword, c, rest, rfl, hc, hrest⟩
      exact ⟨word ++ [c], rest, by simp, ⟨word, [c], rfl, by simpa using hword, c, rfl, hc⟩, hrest⟩
  | memo =>
    simp only [namePattern, readsAt_append, asciiNameRest, readsAt_char, readsAt_star_char]
    constructor
    · rintro ⟨-, rest, rfl, ⟨c, rfl, hc⟩, hrest⟩
      exact ⟨c, rest, rfl, hc, hrest⟩
    · rintro ⟨c, rest, rfl, hc, hrest⟩
      exact ⟨[c], rest, rfl, ⟨c, rfl, hc⟩, hrest⟩

theorem Hook.readsAt_declaration (h : Hook) {x u y : List Char} : ReadsAt h.declaration x u y ↔
    EndsLines x ∧ ∃ name, h.Names name ∧ u = declarationHead name := by
  rw [h.declaration_eq]
  simp only [readsAt_append, readsAt_lineStart, readsAt_lit, readsAt_group, h.readsAt_namePattern]
  constructor
  · rintro ⟨v, w, hu, ⟨v', name, hv, ⟨a, b, hv', ⟨ha, hx⟩, hb⟩, hname⟩, hw⟩
    refine ⟨hx, name, hname, ?_⟩
    rw [hu, hv, hv', ha, hb, hw, List.nil_append, List.append_assoc]
    rfl
  · rintro ⟨hx, name, hname, hu⟩
    exact ⟨"  const ".toList ++ name, " = ".toList, hu.trans (List.append_assoc ..).symm,
      ⟨"  const ".toList, name, rfl, ⟨[], "  const ".toList, rfl, ⟨rfl, hx⟩, rfl⟩, hname⟩, rfl⟩

theorem declarationHead_ne_nil (name : List Char) : declarationHead name ≠ [] :=
  List.append_ne_nil_of_left_ne_nil (by decide) _

theorem Hook.Names.isIdentChar {h : Hook} {name : List Char} (hname : h.Names name) {c : Char}
    (hc : c ∈ name) : isIdentChar c = true := by
  have hletter {c : Char} (hc : c.isUpper = true ∨ c.isLower = true) : isIdentStart c = true := by
    have halpha : c.isAlpha = (c.isUpper || c.isLower) := rfl
    rcases hc with hc | hc <;> simp [isIdentStart, halpha, hc]
  cases h with
  | callback =>
    obtain ⟨word, hword, d, rest, rfl, hd, hrest⟩ := hname
    have hwords : ∀ word ∈ ["handle".toList, "on".toList], word.all Text.isIdentChar = true := by decide
    rcases List.mem_append.1 hc with hc | hc
    · exact List.all_eq_true.1 (hwords word hword) c hc
    · rcases List.mem_cons.1 hc with rfl | hc
      · exact isIdentChar_of_start (hletter (.inl hd))
      · exact List.all_eq_true.1 hrest c hc
  | memo =>
    obtain ⟨d, rest, rfl, hd, hrest⟩ := hname
    rcases List.mem_cons.1 hc with rfl | hc
    · simp only [Bool.or_eq_true] at hd
      rcases hd with (hd | hd) | hd
      · exact isIdentChar_of_start (hletter (.inr hd))
      · simp [Text.isIdentChar, hd]
      · simp [Text.isIdentChar, hd]
    · exact List.all_eq_true.1 hrest c hc

theorem Hook.Names.not_mem {h : Hook} {name : List Char} (hname : h.Names name) {c : Char}
    (hc : Text.isIdentChar c = false) : c ∉ name := by
  intro hmem
  rw [hname.isIdentChar hmem] at hc
  cases hc

theorem Hook.Names.not_mem_head {h : Hook} {name : List Char} (hname : h.Names name) :
    '\n' ∉ declarationHead name := by
  intro hmem
  rcases List.mem_append.1 hmem with hmem | hmem
  · exact absurd hmem (by decide)
  · rcases List.mem_append.1 hmem with hmem | hmem
    · exact hname.not_mem (by decide) hmem
    · exact absurd hmem (by decide)

/-- A declaration is read up to one place only. -/
theorem Hook.Names.head_inj {h : Hook} {name name' z z' : List Char} (hname : h.Names name)
    (hname' : h.Names name') (heq : declarationHead name ++ z = declarationHead name' ++ z') :
    name = name' ∧ z = z' := by
  have hblank : " = ".toList = ' ' :: "= ".toList := rfl
  unfold declarationHead at heq
  simp only [hblank, List.append_assoc, List.append_cancel_left_eq, List.cons_append] at heq
  obtain ⟨hnames, hrest⟩ := append_cons_inj heq (hname.not_mem (by decide)) (hname'.not_mem (by decide))
  exact ⟨hnames, List.append_cancel_left hrest⟩

theorem Hook.inLine_declaration (h : Hook) : InLine h.declaration := by
  intro x u y hreads
  obtain ⟨hx, name, hname, rfl⟩ := h.readsAt_declaration.1 hreads
  exact ⟨hx, hname.not_mem_head⟩

theorem readsAt_bodyExit {x u y : List Char} : ReadsAt bodyExit x u y ↔ EndsLines x ∧
    (u = "  if (".toList ∨ u = "  return".toList ∧ inWord y.head? = false) := by
  have hedge {v : List Char} :
      Anchor.holds ⟨(v ++ "return".toList).length, (v ++ "return".toList).getLast?, y⟩ .wordEdge = true ↔
        inWord y.head? = false := by
    have hword : Unicode.isWordChar 'n' = true := by decide
    simp [Anchor.holds, hword, inWord]
  simp only [bodyExit, wordEdge, readsAt_append, readsAt_either, readsAt_lineStart, readsAt_lit,
    readsAt_anchor]
  constructor
  · rintro ⟨v, w, hu, ⟨a, b, hv, ⟨ha, hx⟩, hb⟩, hw | ⟨c, d, hw, hc, hd, hword⟩⟩
    · refine ⟨hx, .inl ?_⟩
      rw [hu, hv, ha, hb, hw]
      rfl
    · rw [hc, hedge] at hword
      refine ⟨hx, .inr ⟨?_, hword⟩⟩
      rw [hu, hv, ha, hb, hw, hc, hd]
      rfl
  · rintro ⟨hx, hu | ⟨hu, hword⟩⟩
    · exact ⟨"  ".toList, "if (".toList, hu, ⟨[], "  ".toList, rfl, ⟨rfl, hx⟩, rfl⟩, .inl rfl⟩
    · exact ⟨"  ".toList, "return".toList, hu, ⟨[], "  ".toList, rfl, ⟨rfl, hx⟩, rfl⟩,
        .inr ⟨"return".toList, [], rfl, rfl, rfl, hedge.2 hword⟩⟩

theorem exists_readsAt_bodyExit_iff {x rest : List Char} :
    (∃ u y, rest = u ++ y ∧ ReadsAt bodyExit x u y) ↔ EndsLines x ∧ ExitLine rest := by
  simp only [readsAt_bodyExit]
  constructor
  · rintro ⟨u, y, rfl, hx, hu | ⟨hu, hword⟩⟩
    · exact ⟨hx, .inl ⟨y, by rw [hu]⟩⟩
    · exact ⟨hx, .inr ⟨y, by rw [hu], hword⟩⟩
  · rintro ⟨hx, ⟨y, hy⟩ | ⟨y, hy, hword⟩⟩
    · exact ⟨_, y, hy.symm, hx, .inl rfl⟩
    · exact ⟨_, y, hy, hx, .inr ⟨rfl, hword⟩⟩

/-! ### The statements that run on every render -/

/-- A constant of the component with such a name that its initializer may be wrapped: what stands
up to the body of the component's declaration, what stands between that and the line, the
name and what follows the head of the line. -/
structure Constant (h : Hook) (content : List Char) where
  opened : List Char
  before : List Char
  name : List Char
  after : List Char
  content_eq : content = opened ++ (before ++ (declarationHead name ++ after))
  opens : ∃ m, componentDeclaration.find? content = some m ∧ m.stop = opened.length
  endsLines : EndsLines before
  names : h.Names name

namespace Constant

variable {h : Hook} {content : List Char} (k : Constant h content)

def initializer : Initializer :=
  .atPosition content (k.opened ++ (k.before ++ declarationHead k.name)).length

/-- Between the declaration of the component and the constant a line is taken for a return. -/
def BehindExit : Prop :=
  ∃ a b, k.before = a ++ b ∧ EndsLines (k.opened ++ a) ∧ ExitLine (b ++ (declarationHead k.name ++ k.after))

end Constant

theorem region?_eq_none_iff {content : List Char} :
    Initializer.region? content = none ↔ componentDeclaration.find? content = none := Option.map_eq_none_iff

/-- The region begins behind the declaration of the component and ends at the first line that is
taken for a return, or with the text. -/
theorem exists_of_region? {content : List Char} {r : Span} (hr : Initializer.region? content = some r) :
    ∃ opened body tail, content = opened ++ (body ++ tail) ∧ r = ⟨opened.length, (opened ++ body).length⟩ ∧
      (∃ m, componentDeclaration.find? content = some m ∧ m.stop = opened.length) ∧
      (∀ a b, body = a ++ b → b ≠ [] → ¬ (EndsLines (opened ++ a) ∧ ExitLine (b ++ tail))) ∧
      (tail = [] ∨ EndsLines (opened ++ body) ∧ ExitLine tail) := by
  obtain ⟨m, hm, rfl⟩ := Option.map_eq_some_iff.1 hr
  obtain ⟨c, c', u, hc, -, -, hcontent, hspan⟩ := split_of_find? hm
  obtain ⟨opened, rest, rfl, hstop⟩ : ∃ opened rest, content = opened ++ rest ∧ m.stop = opened.length := by
    refine ⟨content.take c.pos ++ u, c'.rest, hcontent.trans (List.append_assoc ..).symm, ?_⟩
    rw [List.length_append, List.length_take, Nat.min_eq_left hc.le, Match.stop, hspan]
  -- Where a line is taken for a return, the search for one has stopped.
  have hsearch {a b : List Char} (hrest : rest = a ++ b) (hx : EndsLines (opened ++ a)) (hb : ExitLine b) :
      ∃ m', bodyExit.findAfter? (opened ++ rest) m.stop = some m' ∧ m'.start ≤ (opened ++ a).length := by
    obtain ⟨v, y, rfl, hreads⟩ := exists_readsAt_bodyExit_iff.2 ⟨hx, hb⟩
    rw [hstop, findAfter?_append, hrest]
    exact exists_findFrom?_of_readsAt (by decide) (by simp) hreads
  cases hexit : bodyExit.findAfter? (opened ++ rest) m.stop with
  | none =>
    refine ⟨opened, rest, [], by rw [List.append_nil], ?_, ⟨m, hm, hstop⟩, ?_, .inl rfl⟩
    · rw [hstop]
      rfl
    · rintro a b hrest - ⟨hx, hb⟩
      rw [List.append_nil] at hb
      obtain ⟨m', hm', -⟩ := hsearch hrest hx hb
      rw [hexit] at hm'
      cases hm'
  | some m' =>
    have hfound : FoundAt bodyExit opened rest m' := by
      rw [hstop, findAfter?_append] at hexit
      exact foundAt_of_findFrom? hexit
    obtain ⟨body, v, y, rfl, hreads, hstart⟩ := hfound
    refine ⟨opened, body, v ++ y, rfl, ?_, ⟨m, hm, hstop⟩, ?_,
      .inr (exists_readsAt_bodyExit_iff.1 ⟨v, y, rfl, hreads⟩)⟩
    · rw [hstop, Option.map_some, Option.getD_some, Match.start, hstart]
    · rintro a b rfl hne ⟨hx, hb⟩
      obtain ⟨m'', hm'', hle⟩ := hsearch (List.append_assoc ..) hx hb
      rw [hexit] at hm''
      cases hm''
      rw [Match.start, hstart] at hle
      simp only [List.length_append] at hle
      have hpos := List.length_pos_iff.2 hne
      omega

theorem Span.text_append (opened body tail : List Char) :
    (⟨opened.length, (opened ++ body).length⟩ : Span).text (opened ++ (body ++ tail)) = body := by
  simp [Span.text, Span.length]

namespace Hook

variable {h : Hook} {content : List Char}

theorem exists_constant_of_mem_all {d : Initializer} (hd : d ∈ Initializer.all content h.declaration) :
    ∃ k : Constant h content, k.initializer = d ∧ ¬ k.BehindExit := by
  unfold Initializer.all at hd
  split at hd
  · cases hd
  · rename_i r hr
    obtain ⟨opened, body, tail, rfl, rfl, hopens, hnone, -⟩ := exists_of_region? hr
    obtain ⟨m, hm, rfl⟩ := List.mem_map.1 hd
    rw [Span.text_append] at hm
    obtain ⟨before, u, y, rfl, hreads, hspan⟩ := foundAt_of_mem_matchesOf hm
    obtain ⟨hlines, name, hname, rfl⟩ := h.readsAt_declaration.1 hreads
    let k : Constant h (opened ++ ((before ++ (declarationHead name ++ y)) ++ tail)) :=
      { opened, before, name, after := y ++ tail, content_eq := by simp, opens := hopens,
        endsLines := hlines, names := hname }
    refine ⟨k, ?_, ?_⟩
    · have hposition : opened.length + m.stop = (opened ++ (before ++ declarationHead name)).length := by
        rw [Match.stop, hspan]
        simp
      rw [hposition]
      rfl
    · rintro ⟨a, b, hbefore, hx, hb⟩
      obtain rfl : before = a ++ b := hbefore
      refine hnone a (b ++ (declarationHead name ++ y)) (by simp) (by simp [declarationHead_ne_nil]) ⟨hx, ?_⟩
      simpa [k] using hb

/-- The region of a constant that is not behind a return holds its line up to the initializer. -/
theorem exists_region?_of_constant (k : Constant h content) (hk : ¬ k.BehindExit) :
    ∃ r z, Initializer.region? content = some r ∧ r.start = k.opened.length ∧
      r.text content = k.before ++ (declarationHead k.name ++ z) := by
  obtain ⟨m, hm, hstop⟩ := k.opens
  cases hr : Initializer.region? content with
  | none =>
    rw [region?_eq_none_iff, hm] at hr
    cases hr
  | some r =>
    obtain ⟨opened, body, tail, hcontent, rfl, ⟨m', hm', hstop'⟩, -, hend⟩ := exists_of_region? hr
    obtain rfl := Option.some.inj (hm.symm.trans hm')
    have hsplit := k.content_eq.symm.trans hcontent
    obtain ⟨hopened, hrest⟩ := List.append_inj hsplit (hstop.symm.trans hstop')
    subst hopened
    obtain ⟨z, hz⟩ : ∃ z, body = k.before ++ (declarationHead k.name ++ z) := by
      rw [← List.append_assoc] at hrest
      rcases List.append_eq_append_iff.1 hrest with ⟨z, hz, -⟩ | ⟨w, hw, htail⟩
      · exact ⟨z, by rw [hz, List.append_assoc]⟩
      · rcases hend with rfl | ⟨hlines, hexit⟩
        · obtain ⟨rfl, -⟩ := List.append_eq_nil_iff.1 htail.symm
          exact ⟨[], by simpa using hw.symm⟩
        · -- A line that is taken for a return begins before the line of the constant, or is that line.
          have hline : (k.opened ++ k.before) ++ declarationHead k.name = (k.opened ++ body) ++ w := by
            rw [List.append_assoc, List.append_assoc, hw]
          obtain ⟨s, hs, rfl⟩ := hlines.exists_append k.names.not_mem_head hline
          have hbefore : k.before = body ++ s := List.append_cancel_left (hs.trans (List.append_assoc ..))
          refine absurd ⟨body, s, hbefore, hlines, ?_⟩ hk
          rwa [htail, List.append_assoc] at hexit
    have htext := Span.text_append k.opened body tail
    rw [← hcontent] at htext
    exact ⟨_, z, rfl, rfl, htext.trans hz⟩

theorem initializer_mem_all (k : Constant h content) (hk : ¬ k.BehindExit) :
    k.initializer ∈ Initializer.all content h.declaration := by
  obtain ⟨r, z, hr, hstart, htext⟩ := exists_region?_of_constant k hk
  have hreads : ReadsAt h.declaration k.before (declarationHead k.name) z :=
    h.readsAt_declaration.2 ⟨k.endsLines, k.name, k.names, rfl⟩
  obtain ⟨m, hm, hplace⟩ := exists_mem_matchesOf (by cases h <;> decide) (by cases h <;> decide)
    h.inLine_declaration hreads
  have hstop : m.stop = (k.before ++ declarationHead k.name).length := by
    obtain ⟨a, u, y, hsplit, hread, hspan⟩ := foundAt_of_mem_matchesOf hm
    obtain ⟨-, name, hname, rfl⟩ := h.readsAt_declaration.1 hread
    have hstart : a.length = k.before.length := by
      rw [hspan] at hplace
      exact hplace
    obtain ⟨rfl, hheads⟩ := List.append_inj hsplit hstart.symm
    obtain ⟨rfl, -⟩ := k.names.head_inj hname hheads
    rw [Match.stop, hspan]
    simp
  unfold Initializer.all
  rw [hr]
  refine List.mem_map.2 ⟨m, by rwa [htext], ?_⟩
  rw [hstart, hstop, ← List.length_append]
  rfl

theorem mem_select_iff {d : Initializer} : d ∈ h.select content ↔
    ∃ k : Constant h content, k.initializer = d ∧ h.fits d = true ∧ ¬ k.BehindExit := by
  rw [h.select_eq, List.mem_filter]
  constructor
  · rintro ⟨hd, hfits⟩
    obtain ⟨k, hk, hexit⟩ := exists_constant_of_mem_all hd
    exact ⟨k, hk, hfits, hexit⟩
  · rintro ⟨k, rfl, hfits, hexit⟩
    exact ⟨initializer_mem_all k hexit, hfits⟩

end Hook

/-! ### Returns from the component -/

def returningWords : List String := ["if", "switch", "for", "while", "do", "try", "return"]

/-- The statement begins with the word. -/
def BeginsWith (word : String) (statement : List Char) : Prop :=
  ∃ rest, statement = word.toList ++ rest ∧ inWord rest.head? = false

/-- The word `return` stands in the code of the statement. -/
def HasReturn (statement : List Char) : Prop :=
  ∃ before after : Marked, mark statement = before ++ ("return".toList.map (·, .code) ++ after) ∧
    inWord (before.getLast?.map Prod.fst) = false ∧ inWord (after.head?.map Prod.fst) = false

/-- A statement that may return early from the function in whose body it stands, and the text
around it: what stands up to the brace that opens the body, the statements before and what
follows. The function is the component, or one inside. -/
structure EarlyReturn (content : List Char) where
  front : List Char
  done : List Char
  statement : List Char
  after : List Char
  content_eq : content = front ++ '\x7b' :: (done ++ (statement ++ after))
  opens : ∃ m, componentDeclaration.find? content = some m ∧ m.stop ≤ front.length
  function : "=>".toList <:+ trimEnd front ∨ [')'] <:+ trimEnd front
  balanced_done : isBalanced done = true
  closes_done : closesLiterals done = true
  balanced_statement : isBalanced statement = true
  closes_statement : closesLiterals statement = true
  begins : ∃ word ∈ returningWords, BeginsWith word statement
  returns : HasReturn statement

namespace EarlyReturn

variable {content : List Char} (r : EarlyReturn content)

/-- The text up to the end of the statement. -/
def upTo : List Char := r.front ++ '\x7b' :: (r.done ++ r.statement)

/-- The statement begins its line behind two spaces, and as a line that is taken for a return. -/
def OnExitLine : Prop :=
  ∃ lines, r.done = lines ++ "\n  ".toList ∧ ExitLine ("  ".toList ++ (r.statement ++ r.after))

theorem upTo_append : content = r.upTo ++ r.after := by
  have happ : r.upTo ++ r.after = r.front ++ '\x7b' :: (r.done ++ (r.statement ++ r.after)) := by simp [upTo]
  exact r.content_eq.trans happ.symm

end EarlyReturn

theorem Constant.start_initializer {h : Hook} {content : List Char} (k : Constant h content) :
    k.initializer.start = byteLength (k.opened ++ (k.before ++ declarationHead k.name)) := by
  obtain ⟨head, hhead⟩ : ∃ head, head = k.opened ++ (k.before ++ declarationHead k.name) := ⟨_, rfl⟩
  have hcontent : head ++ k.after = content := by
    rw [hhead, List.append_assoc, List.append_assoc]
    exact k.content_eq.symm
  have htake : (head ++ k.after).take head.length = head := List.take_left
  rw [hcontent] at htake
  rw [initializer, ← hhead]
  exact congrArg byteLength htake

theorem Constant.behindExit_of_onExitLine {h : Hook} {content : List Char} (k : Constant h content)
    (r : EarlyReturn content) (hr : r.OnExitLine) (hk : byteLength r.upTo ≤ k.initializer.start) :
    k.BehindExit := by
  obtain ⟨lines, hdone, hexit⟩ := hr
  obtain ⟨x, hx⟩ : ∃ x, x = r.front ++ '\x7b' :: (lines ++ ['\n']) := ⟨_, rfl⟩
  have hlines : EndsLines x := by
    rw [EndsLines, hx, ← List.cons_append, ← List.append_assoc, List.getLast?_concat]
    rfl
  have hupTo : r.upTo = x ++ ("  ".toList ++ r.statement) := by
    have hbreak : "\n  ".toList = ['\n'] ++ "  ".toList := rfl
    rw [EarlyReturn.upTo, hdone, hx, hbreak]
    simp only [List.append_assoc, List.cons_append]
  have hsplit : r.upTo ++ r.after = (k.opened ++ (k.before ++ declarationHead k.name)) ++ k.after := by
    rw [← r.upTo_append, List.append_assoc, List.append_assoc]
    exact k.content_eq
  rw [k.start_initializer] at hk
  obtain ⟨gap, hgap, hafter⟩ := exists_of_byteLength_le hsplit hk
  rw [hupTo, List.append_assoc, ← List.append_assoc] at hgap
  obtain ⟨s, hs, hrest⟩ := hlines.exists_append k.names.not_mem_head hgap
  have hle : k.opened.length ≤ x.length := by
    obtain ⟨m, hm, hstop⟩ := k.opens
    obtain ⟨m', hm', hfront⟩ := r.opens
    obtain rfl := Option.some.inj (hm.symm.trans hm')
    rw [hx, List.length_append]
    omega
  obtain ⟨a, ha⟩ : k.opened <+: x :=
    List.prefix_of_prefix_length_le ⟨k.before, hs⟩ (List.prefix_append x s) hle
  have hbefore : k.before = a ++ s :=
    List.append_cancel_left (hs.trans ((congrArg (· ++ s) ha.symm).trans (List.append_assoc ..)))
  refine ⟨a, s, hbefore, ha.symm ▸ hlines, ?_⟩
  rwa [← List.append_assoc, ← hrest, List.append_assoc, List.append_assoc, ← hafter]

/-- No hook is put behind a statement that may return early exactly if every constant behind it
whose initializer fits has a line before it that is taken for a return. A statement that begins
its line as such a line keeps all hooks away. -/
theorem no_hook_follows_return_iff (h : Hook) {content : List Char} (r : EarlyReturn content) :
    ((∀ d ∈ h.select content, d.start < byteLength r.upTo) ↔
      ∀ k : Constant h content, byteLength r.upTo ≤ k.initializer.start → h.fits k.initializer = true →
        k.BehindExit) ∧
      (r.OnExitLine → ∀ d ∈ h.select content, d.start < byteLength r.upTo) := by
  refine ⟨⟨?_, ?_⟩, ?_⟩
  · intro hnone k hbehind hfits
    by_contra hexit
    exact absurd (hnone _ (Hook.mem_select_iff.2 ⟨k, rfl, hfits, hexit⟩)) (Nat.not_lt.2 hbehind)
  · intro hexits d hd
    obtain ⟨k, rfl, hfits, hexit⟩ := Hook.mem_select_iff.1 hd
    by_contra hbehind
    exact hexit (hexits k (Nat.not_lt.1 hbehind) hfits)
  · intro hr d hd
    obtain ⟨k, rfl, -, hexit⟩ := Hook.mem_select_iff.1 hd
    by_contra hbehind
    exact hexit (k.behindExit_of_onExitLine r hr (Nat.not_lt.1 hbehind))

/-- The guard of a component, written in either spacing. -/
def listGuard (spaced : Bool) : List Char :=
  "if".toList ++ ((if spaced then [' '] else []) ++ "(!shown) return null;".toList)

/-- A component that may return before its last constant. -/
def guardedList (spaced : Bool) : List Char :=
  "const List = (\x7b rows, ok \x7d) => ".toList ++
    '\x7b' :: ("\n  const shown = rows.filter(ok);\n  ".toList ++
      (listGuard spaced ++ "\n  const sorted = shown.sort();\n  return <ul/>;\n\x7d;\n".toList))

def guardedReturn (spaced : Bool) : EarlyReturn (guardedList spaced) where
  front := "const List = (\x7b rows, ok \x7d) => ".toList
  done := "\n  const shown = rows.filter(ok);\n  ".toList
  statement := listGuard spaced
  after := "\n  const sorted = shown.sort();\n  return <ul/>;\n\x7d;\n".toList
  content_eq := rfl
  opens := by
    have hfound : (componentDeclaration.find? (guardedList spaced)).any (·.stop ≤ 31) = true := by
      cases spaced <;> decide +kernel
    obtain ⟨hsome, hstop⟩ := (Option.any_eq_true_iff_get _ _).1 hfound
    exact ⟨_, (Option.some_get hsome).symm, of_decide_eq_true hstop⟩
  function := .inl (by decide)
  balanced_done := by decide
  closes_done := by decide
  balanced_statement := by cases spaced <;> decide +kernel
  closes_statement := by cases spaced <;> decide +kernel
  begins := ⟨"if", by simp [returningWords], _, rfl, by cases spaced <;> decide⟩
  returns := by
    refine ⟨(mark (listGuard spaced)).take (if spaced then 12 else 11),
      (mark (listGuard spaced)).drop (if spaced then 18 else 17), ?_, ?_, ?_⟩ <;>
    cases spaced <;> decide +kernel

/-- With a blank before its bracket the guard keeps the hooks away. Without one the line is not
taken for a return, and the constant behind it gets its hook. -/
theorem unspaced_guard_missed :
    ((guardedReturn true).OnExitLine ∧
      ∀ d ∈ Hook.memo.select (guardedList true), d.start < byteLength (guardedReturn true).upTo) ∧
    ∃ k : Constant .memo (guardedList false), byteLength (guardedReturn false).upTo ≤ k.initializer.start ∧
      Hook.memo.fits k.initializer = true ∧ ¬ k.BehindExit := by
  have hexit : (guardedReturn true).OnExitLine :=
    ⟨"\n  const shown = rows.filter(ok);".toList, rfl, .inl (by decide +kernel)⟩
  have hbehind : ¬ ∀ d ∈ Hook.memo.select (guardedList false),
      d.start < byteLength (guardedReturn false).upTo := by decide +kernel
  have hmissed := mt (no_hook_follows_return_iff .memo (guardedReturn false)).1.2 hbehind
  push Not at hmissed
  exact ⟨⟨hexit, (no_hook_follows_return_iff .memo _).2 hexit⟩, hmissed⟩

end Recast
