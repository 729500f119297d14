import Recast.Proofs.Optimize.Wrapping
import Recast.Proofs.Text.Pieces

/-!
# What wrapping leaves as it was

A hook is put around every selected initializer and nothing else of the text changes:
`Rewritten` says so, also where one initializer lies inside another. The initializers are
replaced from the last to the first at the offsets that they have in the old text. So it
holds exactly where they lie apart: around an initializer that lies inside another, the
end of the outer one has moved by the time it is looked up.
-/

namespace Recast

open Text Pattern Pattern.Generated

/-- The hooks that initializers are wrapped in. -/
inductive Hook
  | callback
  | memo
  deriving DecidableEq, Repr

namespace Hook

def name : Hook → String
  | callback => "useCallback"
  | memo => "useMemo"

def pass : Hook → Pass
  | callback => Pass.stableCallbacks
  | memo => Pass.memoizeDerivedValues

def select : Hook → List Char → List Initializer
  | callback => Initializer.handlers
  | memo => Initializer.derivations

def wrap : Hook → List Char → List Char
  | callback => Initializer.callbackOf
  | memo => Initializer.memoOf

/-- What is written before a wrapped expression. -/
def opening : Hook → List Char
  | callback => "useCallback(".toList
  | memo => "useMemo(() => ".toList

end Hook

namespace Initializer

/-- What is written behind a wrapped expression: its dependencies and the end of the
statement. -/
def closing (expr : List Char) : List Char := ", ".toList ++ (FreeNames.dependencyList expr ++ ");".toList)

/-- Ends a statement: blanks and semicolons. -/
def IsTerminator (text : List Char) : Prop := ∀ c ∈ text, isBlank c = true ∨ c = ';'

/-- The offsets hold the expression and the end of its statement. -/
def WrittenIn (d : Initializer) (content : List Char) : Prop :=
  ∃ before terminator after, content = before ++ (d.expr ++ (terminator ++ after)) ∧
    d.start = byteLength before ∧ d.stop = byteLength (before ++ (d.expr ++ terminator)) ∧
    IsTerminator terminator

/-- From the byte offset `pos` on, the first text becomes the second one: around each
initializer the hook is written that `opening` begins, its terminator is replaced, and
everything else is kept once. Initializers may lie in the expression of another. -/
inductive Rewritten (opening : List Char) : List Initializer → Nat → List Char → List Char → Prop
  | done {pos : Nat} {text : List Char} : Rewritten opening [] pos text text
  | wrapped {d : Initializer} {inner later : List Initializer} {pos : Nat}
      {gap terminator rest inside new : List Char} (hterminator : IsTerminator terminator)
      (hstart : d.start = pos + byteLength gap)
      (hstop : d.stop = d.start + byteLength (d.expr ++ terminator))
      (hinside : Rewritten opening inner d.start d.expr inside)
      (hlater : Rewritten opening later d.stop rest new) :
      Rewritten opening (d :: (inner ++ later)) pos (gap ++ (d.expr ++ (terminator ++ rest)))
        (gap ++ (opening ++ (inside ++ (closing d.expr ++ new))))

/-! ### Where initializers are written -/

theorem exists_append_dropEndWhile (p : Char → Bool) (text : List Char) :
    ∃ cut, text = dropEndWhile p text ++ cut ∧ ∀ c ∈ cut, p c = true := by
  refine ⟨(text.reverse.takeWhile p).reverse, ?_, ?_⟩
  · rw [dropEndWhile, ← List.reverse_append, List.takeWhile_append_dropWhile, List.reverse_reverse]
  · intro c hc
    exact List.all_eq_true.1 List.all_takeWhile c (List.mem_reverse.1 hc)

theorem exists_append_trimEnd (text : List Char) :
    ∃ cut, text = trimEnd text ++ cut ∧ ∀ c ∈ cut, isBlank c = true :=
  exists_append_dropEndWhile isBlank text

theorem exists_append_exprOf (statement : List Char) :
    ∃ terminator, statement = exprOf statement ++ terminator ∧ IsTerminator terminator := by
  obtain ⟨a, ha, hblank⟩ := exists_append_trimEnd statement
  obtain ⟨b, hb, hsemicolon⟩ := exists_append_dropEndWhile (· == ';') (trimEnd statement)
  obtain ⟨c, hc, hblank'⟩ := exists_append_trimEnd (dropEndWhile (· == ';') (trimEnd statement))
  refine ⟨c ++ (b ++ a), ?_, ?_⟩
  · rw [exprOf, ← List.append_assoc, ← hc, ← List.append_assoc, ← hb, ← ha]
  · intro x hx
    rcases List.mem_append.1 hx with hx | hx
    · exact .inl (hblank' x hx)
    · rcases List.mem_append.1 hx with hx | hx
      · exact .inr (beq_iff_eq.1 (hsemicolon x hx))
      · exact .inl (hblank x hx)

theorem atPosition_writtenIn (content : List Char) (pos : Nat) :
    (atPosition content pos).WrittenIn content := by
  let n := statementLength (charBefore? content pos) (content.drop pos)
  obtain ⟨terminator, hstatement, hterminator⟩ := exists_append_exprOf ((content.drop pos).take n)
  refine ⟨content.take pos, terminator, (content.drop pos).drop n, ?_, rfl, ?_, hterminator⟩
  · show content = content.take pos ++ (exprOf ((content.drop pos).take n) ++ (terminator ++ _))
    rw [← List.append_assoc (exprOf _), ← hstatement, List.take_append_drop, List.take_append_drop]
  · show _ = byteLength (content.take pos ++ (exprOf ((content.drop pos).take n) ++ terminator))
    rw [← hstatement, ← List.take_add]
    rfl

theorem writtenIn_of_mem_all {content : List Char} {declaration : Pattern} {d : Initializer}
    (h : d ∈ all content declaration) : d.WrittenIn content := by
  unfold all at h
  split at h
  · cases h
  · obtain ⟨m, -, rfl⟩ := List.mem_map.1 h
    exact atPosition_writtenIn ..

end Initializer

open Initializer

theorem Hook.writtenIn_of_mem_select {h : Hook} {content : List Char} {d : Initializer}
    (hd : d ∈ h.select content) : d.WrittenIn content := by
  cases h with
  | callback | memo => exact writtenIn_of_mem_all (List.mem_filter.1 hd).1

theorem Hook.wrap_append (h : Hook) (expr : List Char) :
    h.wrap expr ++ [';'] = h.opening ++ (expr ++ closing expr) := by
  have hend : ");".toList = [')'] ++ [';'] := by decide
  cases h with
  | callback =>
    show callbackOf expr ++ [';'] = "useCallback(".toList ++ (expr ++ closing expr)
    unfold callbackOf closing
    rw [hend]
    simp only [List.append_assoc]
  | memo =>
    show memoOf expr ++ [';'] = "useMemo(() => ".toList ++ (expr ++ closing expr)
    unfold memoOf closing
    rw [hend]
    simp only [List.append_assoc]

/-! ### Initializers that lie apart -/

namespace Initializer

variable {h : Hook} {ds : List Initializer} {before rest : List Char}

/-- Replacing initializers that lie apart rewrites what follows them and keeps what
stands before them. -/
theorem exists_rewritten_of_apart (ha : Apart ds) (hw : ∀ d ∈ ds, d.WrittenIn (before ++ rest))
    (hb : ∀ d ∈ ds, byteLength before ≤ d.start) :
    ∃ new, replaceAll h.wrap ds (before ++ rest) = .ok (before ++ new) ∧
      Rewritten h.opening ds (byteLength before) rest new := by
  induction ds generalizing before rest with
  | nil => exact ⟨rest, rfl, .done⟩
  | cons d ds ih =>
    obtain ⟨hd, ha⟩ := List.pairwise_cons.1 ha
    obtain ⟨hwd, hw⟩ := List.forall_mem_cons.1 hw
    obtain ⟨hbd, -⟩ := List.forall_mem_cons.1 hb
    obtain ⟨start, terminator, after, ht, hstart, hstop, hterminator⟩ := hwd
    obtain ⟨gap, rfl, rfl⟩ := exists_of_byteLength_le ht (hstart ▸ hbd)
    -- The others are replaced in the text that begins as the old one up to the end of this one.
    have hcontent : before ++ (gap ++ (d.expr ++ (terminator ++ after))) =
        (before ++ gap ++ (d.expr ++ terminator)) ++ after := by simp only [List.append_assoc]
    rw [hcontent] at hw
    obtain ⟨new, hnew, hrewritten⟩ := ih ha hw fun e he => hstop ▸ hd e he
    refine ⟨gap ++ (h.opening ++ (d.expr ++ (closing d.expr ++ new))), ?_, ?_⟩
    · rw [replaceAll, List.foldrM_cons, hcontent]
      refine bind_eq_ok.2 ⟨_, hnew, ?_⟩
      rw [hstart, hstop, List.append_assoc (before ++ gap), replaceBytes_append, h.wrap_append]
      simp only [List.append_assoc]
    · show Rewritten h.opening (d :: ([] ++ ds)) _ _ _
      refine .wrapped hterminator ?_ ?_ .done (hstop ▸ hrewritten)
      · rw [hstart, byteLength_append]
      · rw [hstart, hstop, byteLength_append]

/-! ### Rewriting that moves no offset in use -/

theorem Rewritten.le_start {opening : List Char} {pos : Nat} {text new : List Char}
    (hr : Rewritten opening ds pos text new) : ∀ d ∈ ds, pos ≤ d.start := by
  induction hr with
  | done => simp
  | wrapped _ hstart hstop _ _ ihinside ihlater =>
    intro e he
    rcases List.mem_cons.1 he with rfl | he
    · omega
    · rcases List.mem_append.1 he with he | he
      · have := ihinside e he
        omega
      · have := ihlater e he
        omega

theorem Rewritten.eq_of_nil {opening : List Char} {pos : Nat} {text new : List Char}
    (hr : Rewritten opening [] pos text new) : new = text := by
  cases hr
  rfl

theorem Rewritten.exists_of_cons {opening : List Char} {d : Initializer} {pos : Nat}
    {text new : List Char} (hr : Rewritten opening (d :: ds) pos text new) :
    ∃ gap a b, text = gap ++ (d.expr ++ a) ∧ new = gap ++ (opening ++ b) := by
  cases hr
  exact ⟨_, _, _, rfl, rfl⟩

theorem exists_append_of_replaceAll {wrap : List Char → List Char} {out : List Char}
    (hb : ∀ d ∈ ds, byteLength before ≤ d.start) (h : replaceAll wrap ds (before ++ rest) = .ok out) :
    ∃ new, out = before ++ new := by
  induction ds generalizing out with
  | nil =>
    cases h
    exact ⟨rest, rfl⟩
  | cons d ds ih =>
    obtain ⟨hbd, hb⟩ := List.forall_mem_cons.1 hb
    rw [replaceAll, List.foldrM_cons, bind_eq_ok] at h
    obtain ⟨later, hlater, h⟩ := h
    obtain ⟨new, rfl⟩ := ih hb hlater
    obtain ⟨kept, old, after, ht, hkept, -, rfl⟩ := replaceBytes_eq_ok h
    obtain ⟨gap, rfl, -⟩ := exists_of_byteLength_le ht (hkept ▸ hbd)
    exact ⟨gap ++ (wrap d.expr ++ [';'] ++ after), by simp only [List.append_assoc]⟩

/-- If what comes out is the rewritten text, no initializer lies inside another: what is
written around an inner one stands behind the place where the outer one is replaced. -/
theorem apart_of_rewritten {new : List Char}
    (hopen : ∀ d ∈ ds, ∀ a, ¬ h.opening <+: d.expr ++ a)
    (hr : Rewritten h.opening ds (byteLength before) rest new)
    (hout : replaceAll h.wrap ds (before ++ rest) = .ok (before ++ new)) : Apart ds := by
  generalize hpos : byteLength before = pos at hr
  induction hr generalizing before with
  | done => exact .nil
  | @wrapped d inner later pos gap terminator rest inside new _ hstart hstop hinside hlater _ ihlater =>
    subst hpos
    obtain ⟨-, hopen⟩ := List.forall_mem_cons.1 hopen
    rw [replaceAll, List.foldrM_cons, bind_eq_ok] at hout
    obtain ⟨out, hall, hout⟩ := hout
    have hle : ∀ e ∈ inner ++ later, byteLength (before ++ gap) ≤ e.start := by
      intro e he
      rw [byteLength_append]
      rcases List.mem_append.1 he with he | he
      · have := hinside.le_start e he
        omega
      · have := hlater.le_start e he
        omega
    rw [← List.append_assoc] at hall
    obtain ⟨new', rfl⟩ := exists_append_of_replaceAll hle hall
    obtain ⟨kept, old, after, ht, hkept, hold, hreplaced⟩ := replaceBytes_eq_ok hout
    rw [hstart, ← byteLength_append] at hkept
    obtain ⟨rfl, rfl⟩ := append_inj_of_byteLength ht hkept.symm
    -- Behind the opening stands the old expression, where the rewritten one should be.
    rw [h.wrap_append] at hreplaced
    simp only [List.append_assoc, List.append_cancel_left_eq] at hreplaced
    cases inner with
    | cons e es =>
      obtain ⟨gap', a, b, hexpr, rfl⟩ := hinside.exists_of_cons
      rw [hexpr] at hreplaced
      simp only [List.append_assoc, List.append_cancel_left_eq] at hreplaced
      exact absurd ⟨_, hreplaced⟩ (hopen e (by simp) _)
    | nil =>
      obtain rfl := hinside.eq_of_nil
      rw [List.append_cancel_left_eq, List.append_cancel_left_eq] at hreplaced
      subst hreplaced
      have hlength : byteLength (before ++ gap ++ (d.expr ++ terminator)) = d.stop := by
        rw [hstop, hstart, byteLength_append, byteLength_append before]
      have hcontent : before ++ gap ++ (d.expr ++ (terminator ++ rest)) =
          before ++ gap ++ (d.expr ++ terminator) ++ rest := by simp only [List.append_assoc]
      rw [hcontent, List.nil_append] at hall
      obtain ⟨kept, hkept⟩ := exists_append_of_replaceAll (fun e he => hlength ▸ hlater.le_start e he) hall
      have hcut : old ++ new = (d.expr ++ terminator) ++ kept := by
        simpa only [List.append_assoc, List.append_cancel_left_eq] using hkept
      obtain ⟨-, rfl⟩ := append_inj_of_byteLength hcut (by omega)
      rw [hkept] at hall
      exact List.pairwise_cons.2 ⟨hlater.le_start, ihlater hopen hall hlength⟩

end Initializer

/-! ### What initializers begin with -/

/-- An arrow function begins with `async` or a parenthesis, or with a name, behind which
no parenthesis comes before the arrow. -/
theorem exists_of_arrowHead {expr : List Char} (h : arrowHead.isIn expr = true) :
    (∃ rest, expr = 'a' :: rest ∨ expr = '(' :: rest) ∨
      ∃ name rest, expr = name ++ '=' :: rest ∧ '(' ∉ name := by
  obtain ⟨m, hm⟩ := Option.isSome_iff_exists.1 h
  have hstart {c c' : Cursor} {g g' : Groups} (hr : Reads arrowHead c g c' g') : c.prev = none := by
    simp only [arrowHead, reads_append] at hr
    obtain ⟨-, -, ⟨-, -, ⟨-, -, ⟨c₁, g₁, hanchor, -⟩, -⟩, -⟩, -⟩ := hr
    cases hanchor with
    | anchor hprev => simpa [Anchor.holds] using hprev
  obtain ⟨c', hr⟩ := reads_of_find?_textStart hstart hm
  simp only [arrowHead, reads_append] at hr
  obtain ⟨c₄, g₄, ⟨c₃, g₃, ⟨c₂, g₂, ⟨c₁, g₁, h₁, h₂⟩, h₃⟩, h₄⟩, h₅⟩ := hr
  obtain ⟨rfl, rfl⟩ := reads_anchor h₁
  obtain ⟨-, hs₅, -⟩ := reads_lit h₅
  obtain ⟨-, blanks, hblanks, hs₄, -⟩ := reads_star_char h₄
  rcases reads_opt h₂ with h₂ | ⟨rfl, -⟩
  · obtain ⟨c₅, g₅, h₂, -⟩ := reads_append.1 h₂
    obtain ⟨-, hs₂, -⟩ := reads_lit h₂
    exact .inl ⟨_, .inl hs₂⟩
  · cases h₃ with
    | left h₃ =>
      obtain ⟨c₅, g₅, ⟨c₆, g₆, h₃, -⟩, -⟩ := by simpa only [reads_append] using h₃
      obtain ⟨-, hs₃, -⟩ := reads_lit h₃
      exact .inl ⟨_, .inr hs₃⟩
    | right h₃ =>
      obtain ⟨c₅, g₅, hfirst, h₃⟩ := reads_append.1 h₃
      obtain ⟨-, name, hname, hs₃, -⟩ := reads_star_char h₃
      cases hfirst with
      | @char _ n prev x r _ hx =>
        have hr : r = name ++ (blanks ++ '=' :: '>' :: c'.rest) := hs₃.trans (by rw [hs₄, hs₅]; rfl)
        refine .inr ⟨x :: (name ++ blanks), '>' :: c'.rest, by simp [hr], fun hmem => ?_⟩
        rcases List.mem_cons.1 hmem with rfl | hmem
        · cases hx
        · rcases List.mem_append.1 hmem with hmem | hmem
          · cases List.all_eq_true.1 hname _ hmem
          · cases List.all_eq_true.1 hblanks _ hmem

theorem dot_mem_of_derivation {expr : List Char} (h : derivation.isIn expr = true) : '.' ∈ expr := by
  obtain ⟨m, hm⟩ := Option.isSome_iff_exists.1 h
  obtain ⟨c, c', hc, hr, -⟩ := exists_reads_of_find? hm
  have hrest : '.' ∈ c.rest := by
    cases hr with
    | left hr =>
      simp only [reads_append] at hr
      obtain ⟨c₂, g₂, ⟨c₁, g₁, h₁, -⟩, -⟩ := hr
      obtain ⟨-, hs, -⟩ := reads_lit h₁
      simp [hs]
    | right hr =>
      simp only [reads_append] at hr
      obtain ⟨c₃, g₃, ⟨c₂, g₂, ⟨c₁, g₁, h₁, h₂⟩, -⟩, -⟩ := hr
      obtain ⟨rfl, -⟩ := reads_anchor h₁
      obtain ⟨-, hs, -⟩ := reads_lit h₂
      simp [hs]
  rw [hc.rest] at hrest
  exact List.mem_of_mem_drop hrest

namespace Initializer

theorem not_opening_of_isHandler {d : Initializer} (h : isHandler d = true) (a : List Char) :
    ¬ Hook.callback.opening <+: d.expr ++ a := by
  intro hopening
  obtain ⟨rest, hexpr | hexpr⟩ | ⟨name, rest, hexpr, hname⟩ :=
    exists_of_arrowHead (Bool.and_eq_true_iff.1 h).1
  · rw [hexpr] at hopening
    exact absurd (List.cons_prefix_cons.1 hopening).1 (by decide)
  · rw [hexpr] at hopening
    exact absurd (List.cons_prefix_cons.1 hopening).1 (by decide)
  · rw [hexpr, List.append_assoc, List.cons_append, prefix_append_cons_iff (by decide)] at hopening
    exact hname (hopening.subset (by decide))

theorem not_opening_of_isDerivation {d : Initializer} (h : isDerivation d = true) (a : List Char) :
    ¬ Hook.memo.opening <+: d.expr ++ a := by
  rintro ⟨b, he⟩
  simp only [isDerivation, Bool.and_eq_true] at h
  obtain ⟨⟨⟨⟨huse, -⟩, -⟩, hderivation⟩, -⟩ := h
  rcases List.append_eq_append_iff.1 he with ⟨v, hv, -⟩ | ⟨v, hv, -⟩
  · rw [hv] at huse
    cases huse
  · have hdot : '.' ∈ Hook.memo.opening := by
      rw [hv]
      exact List.mem_append_left _ (dot_mem_of_derivation hderivation)
    exact absurd hdot (by decide)

end Initializer

theorem Hook.not_opening_of_mem_select {h : Hook} {content : List Char} {d : Initializer}
    (hd : d ∈ h.select content) (a : List Char) : ¬ h.opening <+: d.expr ++ a := by
  cases h with
  | callback => exact not_opening_of_isHandler (List.mem_filter.1 hd).2 a
  | memo => exact not_opening_of_isDerivation (List.mem_filter.1 hd).2 a

theorem Hook.exists_pass_eq (h : Hook) : ∃ name what, h.pass =
    Pass.ofChars name .component (fun content => !(h.select content).isEmpty)
      (Pass.wrapInitializers h.name what h.select h.wrap) := by
  cases h with
  | callback => exact ⟨"stable-callbacks", "inline handler", rfl⟩
  | memo => exact ⟨"memoize-derived-values", "derived value", rfl⟩

theorem Hook.isApplicable_iff {h : Hook} {content : String} :
    h.pass.isApplicable content = true ↔ h.select content.toList ≠ [] := by
  obtain ⟨name, what, hpass⟩ := h.exists_pass_eq
  rw [hpass]
  simp [Pass.ofChars]

theorem Hook.transform_eq {h : Hook} {content : String} (happ : h.pass.isApplicable content = true)
    {out : List Char} (hout : replaceAll h.wrap (h.select content.toList) content.toList = .ok out) :
    h.pass.transform content = .ok (.ok (.ofList (ReactImport.ensure h.name.toList out))) := by
  obtain ⟨name, what, hpass⟩ := h.exists_pass_eq
  have hsome : (h.select content.toList).isEmpty = false := by simpa using isApplicable_iff.1 happ
  have hwrapped : Pass.wrapInitializers h.name what h.select h.wrap content.toList =
      .ok (.ok (ReactImport.ensure h.name.toList out)) := by
    refine bind_eq_ok.2 ⟨out, hout, ?_⟩
    rw [hsome]
    rfl
  rw [hpass]
  exact bind_eq_ok.2 ⟨_, hwrapped, rfl⟩

/-- Every selected initializer is written in the text, at offsets where characters begin.
All of them are replaced where they stand, and the rest of the text is kept once, exactly
if each ends where the next one begins, or before. -/
theorem Hook.rewrites_iff_apart (h : Hook) {content : String}
    (happ : h.pass.isApplicable content = true) :
    (∀ d ∈ h.select content.toList, d.WrittenIn content.toList) ∧
      ((∃ out, replaceAll h.wrap (h.select content.toList) content.toList = .ok out ∧
          h.pass.transform content = .ok (.ok (.ofList (ReactImport.ensure h.name.toList out))) ∧
          Rewritten h.opening (h.select content.toList) 0 content.toList out) ↔
        Apart (h.select content.toList)) := by
  refine ⟨fun d hd => Hook.writtenIn_of_mem_select hd, ?_, ?_⟩
  · rintro ⟨out, hout, -, hr⟩
    exact @apart_of_rewritten h _ [] _ _ (fun d hd => Hook.not_opening_of_mem_select hd) hr hout
  · intro ha
    obtain ⟨out, hout, hr⟩ := @exists_rewritten_of_apart h _ [] _ ha
      (fun d hd => Hook.writtenIn_of_mem_select hd) fun _ _ => Nat.zero_le _
    exact ⟨out, hout, Hook.transform_eq happ hout, hr⟩

/-- A handler that a line break ends, behind a character of two bytes. -/
def Hook.flatMenu : String :=
  "const Menu = () => \x7b\n  const label = 'Café';\n  const handleOpen = () => label\n" ++
    "  const handleClose = () => 0;\n  return null;\n\x7d;\n"

/-- A handler inside another one. -/
def Hook.nestedMenu : String :=
  "const Menu = () => \x7b\n  const handleOpen = " ++
    (("() => \x7b\n  const handleClose = " ++ ("() => 0" ++ (";" ++ "\n  \x7d"))) ++
      (";" ++ "\n  return null;\n\x7d;\n"))

theorem Hook.select_flatMenu : callback.select flatMenu.toList =
    [⟨67, 78, "() => label".toList⟩, ⟨101, 109, "() => 0".toList⟩] := by decide +kernel

theorem Hook.select_nestedMenu : callback.select nestedMenu.toList =
    ⟨42, 85, "() => \x7b\n  const handleClose = ".toList ++
      ("() => 0".toList ++ (";".toList ++ "\n  \x7d".toList))⟩ ::
      ((⟨72, 80, "() => 0".toList⟩ :: ([] ++ [])) ++ []) := by decide +kernel

theorem Hook.rewritten_nestedMenu :
    ∃ new, Rewritten callback.opening (callback.select nestedMenu.toList) 0 nestedMenu.toList new := by
  have hnested : nestedMenu.toList = "const Menu = () => \x7b\n  const handleOpen = ".toList ++
      (("() => \x7b\n  const handleClose = ".toList ++
        ("() => 0".toList ++ (";".toList ++ "\n  \x7d".toList))) ++
        (";".toList ++ "\n  return null;\n\x7d;\n".toList)) := by
    unfold nestedMenu
    repeat rw [String.toList_append]
  have hterminator : IsTerminator ";".toList := by simp [IsTerminator]
  have hinner : Rewritten callback.opening (⟨72, 80, "() => 0".toList⟩ :: ([] ++ [])) 42
      ("() => \x7b\n  const handleClose = ".toList ++
        ("() => 0".toList ++ (";".toList ++ "\n  \x7d".toList))) _ :=
    .wrapped hterminator (by decide) (by decide) .done .done
  rw [select_nestedMenu, hnested]
  exact ⟨_, .wrapped hterminator (by decide) (by decide) hinner .done⟩

/-- The handlers of a component are rewritten if none lies inside another; where one does,
there is a text in which both are wrapped, but it is not the one that comes out. -/
theorem Hook.menus_rewritten_unless_nested :
    (callback.pass.isApplicable flatMenu = true ∧
      ∃ out, replaceAll callback.wrap (callback.select flatMenu.toList) flatMenu.toList = .ok out ∧
        Rewritten callback.opening (callback.select flatMenu.toList) 0 flatMenu.toList out) ∧
    callback.pass.isApplicable nestedMenu = true ∧
      ∃ new, Rewritten callback.opening (callback.select nestedMenu.toList) 0 nestedMenu.toList new ∧
        replaceAll callback.wrap (callback.select nestedMenu.toList) nestedMenu.toList ≠ .ok new := by
  have hflat : callback.pass.isApplicable flatMenu = true := isApplicable_iff.2 (by simp [select_flatMenu])
  have hapart : Apart (callback.select flatMenu.toList) := by
    rw [select_flatMenu]
    decide
  have hnested : callback.pass.isApplicable nestedMenu = true := isApplicable_iff.2 (by simp [select_nestedMenu])
  have hinside : ¬ Apart (callback.select nestedMenu.toList) := by
    rw [select_nestedMenu]
    decide
  obtain ⟨out, hout, -, hr⟩ := (rewrites_iff_apart .callback hflat).2.2 hapart
  obtain ⟨new, hnew⟩ := rewritten_nestedMenu
  refine ⟨⟨hflat, out, hout, hr⟩, hnested, new, hnew, fun hall => hinside ?_⟩
  exact (rewrites_iff_apart .callback hnested).2.1 ⟨new, hall, transform_eq hnested hall, hnew⟩

end Recast
