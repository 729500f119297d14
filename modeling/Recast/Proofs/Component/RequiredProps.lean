import Recast.Proofs.Component.Renaming
import Recast.Proofs.Pattern.Mentions
import Recast.Proofs.Pattern.Places
import Recast.Proofs.Text.Occurrence
import Recast.Proofs.Text.Splitting
import Recast.Proofs.Text.TopLevel

/-!
# Required props

The first entry of the prop types that names a prop says whether it is required. It does if
`.isRequired` stands anywhere in it, so a mark inside the argument of a type counts like one at the end of
the entry (`required_iff_marked`).
-/

namespace Recast

open Text Pattern Pattern.Component Unicode

namespace DeclaredProp

/-! ### Entries that declare a type -/

def isNameChar (c : Char) : Bool := isWordChar c || c == '$'

/-- A name of the source language. -/
def IsName (p : List Char) : Prop := ∃ c r, p = c :: r ∧ isIdentStart c = true ∧ r.all isNameChar = true

/-- The entry gives the prop a type: `p: PropTypes.kind`, and what follows. -/
def DeclaresType (entry p : List Char) : Prop :=
  ∃ b₁ b₂ b₃ rest : List Char, b₁.all isBlank = true ∧ IsName p ∧ b₂.all isBlank = true ∧ b₃.all isBlank = true ∧
    rest.head?.any isWordChar = true ∧
    entry = b₁ ++ p ++ b₂ ++ ":".toList ++ b₃ ++ "PropTypes.".toList ++ rest

theorem reads_name {c c' : Cursor} {g g' : Groups} (h : Reads Pattern.name c g c' g') :
    g' = g ∧ ∃ p, IsName p ∧ c.rest = p ++ c'.rest ∧ c'.pos = c.pos + p.length := by
  obtain ⟨c₁, g₁, hfirst, hmore⟩ := reads_append.1 h
  obtain ⟨rfl, r, hr, hrest, hpos⟩ := reads_star_char hmore
  cases hfirst with
  | @char _ n prev x rest _ hx =>
    dsimp only at hrest hpos
    refine ⟨rfl, x :: r, ⟨x, r, rfl, hx, hr⟩, by rw [hrest, List.cons_append], ?_⟩
    rw [hpos, List.length_cons, Nat.add_assoc, Nat.add_comm 1]

theorem reads_word {c c' : Cursor} {g g' : Groups} (h : Reads (plus wordChar) c g c' g') :
    g' = g ∧ c.rest.head?.any isWordChar = true := by
  cases h with
  | seq hfirst hmore =>
    obtain ⟨rfl, -⟩ := reads_star_char hmore
    cases hfirst with
    | char hx => exact ⟨rfl, hx⟩

theorem declaresType_of_find? {entry : List Char} {m : Match} (h : propTypeEntry.find? entry = some m) :
    DeclaresType entry (m.groupText entry 1) := by
  have hstart {c c' : Cursor} {g g' : Groups} (hr : Reads propTypeEntry c g c' g') : c.prev = none := by
    iterate 7 obtain ⟨_, _, hr, -⟩ := reads_append.1 hr
    cases hr with
    | anchor hholds => exact Option.isNone_iff_eq_none.1 hholds
  obtain ⟨c₈, h⟩ := reads_of_find?_textStart hstart h
  obtain ⟨c₇, g₇, h, hkind⟩ := reads_append.1 h
  obtain ⟨c₆, g₆, h, htypes⟩ := reads_append.1 h
  obtain ⟨c₅, g₅, h, hblanks₃⟩ := reads_append.1 h
  obtain ⟨c₄, g₄, h, hcolon⟩ := reads_append.1 h
  obtain ⟨c₃, g₃, h, hblanks₂⟩ := reads_append.1 h
  obtain ⟨c₂, g₂, h, hname⟩ := reads_append.1 h
  obtain ⟨c₁, g₁, h, hblanks₁⟩ := reads_append.1 h
  obtain ⟨rfl, rfl⟩ := reads_anchor h
  have hin : c₂.In entry := hblanks₁.within ⟨rfl, Nat.zero_le _⟩
  obtain ⟨rfl, b₁, hb₁, hrest₁, -⟩ := reads_star_char hblanks₁
  obtain ⟨_, hread, rfl⟩ := reads_group hname
  obtain ⟨rfl, p, hp, hrest₂, hpos⟩ := reads_name hread
  obtain ⟨rfl, b₂, hb₂, hrest₃, -⟩ := reads_star_char hblanks₂
  obtain ⟨rfl, hrest₄, -⟩ := reads_lit hcolon
  obtain ⟨rfl, b₃, hb₃, hrest₅, -⟩ := reads_star_char hblanks₃
  obtain ⟨rfl, hrest₆, -⟩ := reads_lit htypes
  obtain ⟨_, hkind, hgroups⟩ := reads_group hkind
  obtain ⟨rfl, hrest₇⟩ := reads_word hkind
  have hgroup : m.groupText entry 1 = p :=
    Match.groupText_eq (by decide) (by rw [hgroups]; rfl) hin hrest₂ hpos
  rw [hgroup]
  refine ⟨b₁, b₂, b₃, c₇.rest, hb₁, hp, hb₂, hb₃, hrest₇, ?_⟩
  simp only [List.append_assoc, ← hrest₆, ← hrest₅, ← hrest₄, ← hrest₃, ← hrest₂, ← hrest₁]

theorem readsAt_name {x p y : List Char} (hp : IsName p) : ReadsAt Pattern.name x p y := by
  obtain ⟨c, r, rfl, hc, hr⟩ := hp
  exact readsAt_append.2 ⟨[c], r, rfl, readsAt_char.2 ⟨c, rfl, hc⟩, readsAt_star_char.2 hr⟩

theorem exists_find?_of_declaresType {entry p : List Char} (h : DeclaresType entry p) :
    ∃ m, propTypeEntry.find? entry = some m := by
  obtain ⟨b₁, b₂, b₃, rest, hb₁, hp, hb₂, hb₃, hrest, rfl⟩ := h
  cases rest with
  | nil => cases hrest
  | cons k rest =>
    have hkind {x : List Char} : ReadsAt (group 2 (plus wordChar)) x [k] rest :=
      readsAt_group.2 (readsAt_append.2 ⟨[k], [], rfl, readsAt_char.2 ⟨k, rfl, hrest⟩, readsAt_star_char.2 rfl⟩)
    have hreads : ReadsAt propTypeEntry [] (b₁ ++ p ++ b₂ ++ ":".toList ++ b₃ ++ "PropTypes.".toList ++ [k]) rest := by
      refine readsAt_append.2 ⟨_, [k], rfl, ?_, hkind⟩
      refine readsAt_append.2 ⟨_, _, rfl, ?_, readsAt_lit.2 rfl⟩
      refine readsAt_append.2 ⟨_, _, rfl, ?_, readsAt_star_char.2 hb₃⟩
      refine readsAt_append.2 ⟨_, _, rfl, ?_, readsAt_lit.2 rfl⟩
      refine readsAt_append.2 ⟨_, _, rfl, ?_, readsAt_star_char.2 hb₂⟩
      refine readsAt_append.2 ⟨_, _, rfl, ?_, readsAt_group.2 (readsAt_name hp)⟩
      exact readsAt_append.2 ⟨[], _, rfl, readsAt_anchor.2 ⟨rfl, rfl⟩, readsAt_star_char.2 hb₁⟩
    obtain ⟨m, hm, -⟩ := exists_findFrom?_of_readsAt (p := propTypeEntry) (by decide) (x := []) (a := [])
      (Nat.le_refl _) hreads
    refine ⟨m, ?_⟩
    rw [List.append_cons]
    exact hm

/-- The name that an entry begins with. -/
def leadingName (entry : List Char) : List Char :=
  (entry.dropWhile isBlank).takeWhile fun c => isIdentStart c || isNameChar c

theorem DeclaresType.eq_leadingName {entry p : List Char} (h : DeclaresType entry p) : p = leadingName entry := by
  obtain ⟨b₁, b₂, b₃, rest, hb₁, ⟨c, r, rfl, hc, hr⟩, hb₂, -, -, rfl⟩ := h
  generalize htail : b₂ ++ ":".toList ++ b₃ ++ "PropTypes.".toList ++ rest = tail
  have hdrop : (b₁ ++ (c :: r) ++ tail).dropWhile isBlank = c :: r ++ tail := by
    rw [List.append_assoc, List.dropWhile_append_of_pos (List.all_eq_true.1 hb₁), List.cons_append,
      List.dropWhile_cons_of_neg]
    simpa using isBlank_of_isIdentChar (isIdentChar_of_start hc)
  have hname : ∀ d ∈ c :: r, (isIdentStart d || isNameChar d) = true := by
    refine List.forall_mem_cons.2 ⟨by rw [hc, Bool.true_or], fun d hd => ?_⟩
    rw [List.all_eq_true.1 hr d hd, Bool.or_true]
  have hstop : tail.takeWhile (fun d => isIdentStart d || isNameChar d) = [] := by
    rw [← htail]
    cases b₂ with
    | nil => rfl
    | cons d b₂ =>
      have hd : isBlank d = true := List.all_eq_true.1 hb₂ d List.mem_cons_self
      have hstart : isIdentStart d = false := by
        rw [Bool.eq_false_iff]
        intro hstart
        rw [isBlank_of_isIdentChar (isIdentChar_of_start hstart)] at hd
        cases hd
      have hdollar : d ≠ '$' := by
        rintro rfl
        cases hd
      exact List.takeWhile_cons_of_neg (by simp [isNameChar, hstart, not_isWordChar_of_blank hd, hdollar])
  simp only [List.append_assoc] at htail hdrop ⊢
  rw [htail, leadingName, hdrop, List.takeWhile_append_of_pos hname, hstop, List.append_nil]

/-- An entry names one prop. -/
theorem DeclaresType.unique {entry p q : List Char} (hp : DeclaresType entry p) (hq : DeclaresType entry q) :
    p = q := hp.eq_leadingName.trans hq.eq_leadingName.symm

/-- The entry ends in `.isRequired`, outside brackets and literals. -/
def EndsRequired (entry : List Char) : Prop :=
  ∃ (m : Marked) (b : List Char), b.all isBlank = true ∧ m.depth = 0 ∧
    mark entry = m ++ (".isRequired".toList ++ b).map (·, Label.code)

theorem EndsRequired.suffix {entry : List Char} (h : EndsRequired entry) :
    ".isRequired".toList <:+ trimEnd entry := by
  obtain ⟨m, b, hb, -, hmark⟩ := h
  have hentry : entry = m.map Prod.fst ++ ".isRequired".toList ++ b := by
    rw [← map_fst_mark entry, hmark, List.map_append, List.map_map, List.append_assoc]
    exact congrArg _ (List.map_id _)
  rw [hentry, trimEnd_append_of_blank _ hb, trimEnd_append _ (by decide) (by decide)]
  exact List.suffix_append _ _

theorem EndsRequired.infix {entry : List Char} (h : EndsRequired entry) : ".isRequired".toList <:+: entry := by
  obtain ⟨b, hb, -⟩ := exists_append_trimEnd_of_blank entry
  rw [hb]
  exact h.suffix.isInfix.trans (List.prefix_append _ _).isInfix

/-- What is declared by an entry that gives the prop a type. -/
theorem exists_ofEntry? {entry p : List Char} (h : DeclaresType entry p) :
    ∃ d, ofEntry? entry = some d ∧ d.name = p ∧ d.required = contains entry ".isRequired".toList := by
  obtain ⟨m, hm⟩ := exists_find?_of_declaresType h
  refine ⟨_, by rw [ ofEntry?, hm]; rfl, ?_, rfl⟩
  exact (declaresType_of_find? hm).unique h

theorem declaresType_of_ofEntry? {entry : List Char} {d : DeclaredProp} (h : ofEntry? entry = some d) :
    DeclaresType entry d.name := by
  obtain ⟨m, hm, rfl⟩ := Option.map_eq_some_iff.1 h
  exact declaresType_of_find? hm

/-- Of the entries that give the prop a type this is the first. -/
structure FirstOf (entries : List (List Char)) (p e : List Char) : Prop where
  declares : DeclaresType e p
  first : ∃ before after, entries = before ++ e :: after ∧ ∀ e' ∈ before, ¬ DeclaresType e' p

theorem FirstOf.find?_declared {entries : List (List Char)} {p e : List Char} (h : FirstOf entries p e) :
    ∃ d, (PropTable.declaredIn entries).find? (·.name == p) = some d ∧
      d.required = contains e ".isRequired".toList := by
  obtain ⟨he, before, after, rfl, hbefore⟩ := h
  obtain ⟨d, hd, hname, hrequired⟩ := exists_ofEntry? he
  refine ⟨d, ?_, hrequired⟩
  have hnone : (PropTable.declaredIn before).find? (·.name == p) = none := by
    rw [List.find?_eq_none]
    intro d' hd' hname'
    obtain ⟨e', he', hof⟩ := List.mem_filterMap.1 hd'
    refine hbefore e' he' ?_
    rw [← beq_iff_eq.1 hname']
    exact declaresType_of_ofEntry? hof
  have hcut : PropTable.declaredIn (before ++ e :: after) =
      PropTable.declaredIn before ++ d :: PropTable.declaredIn after := by
    rw [PropTable.declaredIn, List.filterMap_append, List.filterMap_cons_some hd]
    rfl
  rw [hcut, List.find?_append, hnone, Option.none_or, List.find?_cons_of_pos (by simpa using hname)]

end DeclaredProp

/-! ### The table -/

theorem FoundProp.mem_names_addAll {props found : List FoundProp} {x : List Char} :
    x ∈ names (addAll props found) ↔ x ∈ names props ∨ x ∈ names found := by
  unfold addAll
  induction found generalizing props with
  | nil => simp [names]
  | cons p found ih =>
    rw [List.foldl_cons, ih, names_add]
    split
    · rename_i hknown
      simp only [names, List.map_cons, List.mem_cons]
      constructor
      · exact Or.imp_right .inr
      · rintro (h | rfl | h)
        · exact .inl h
        · exact .inl hknown
        · exact .inr h
    · simp only [names, List.map_cons, List.mem_cons, List.mem_append, List.not_mem_nil, or_false, or_assoc]

namespace PropTable

open DeclaredProp

variable {text component : List Char} {navigation : Bool} {found : List FoundProp} {table : PropTable}
  {p e : List Char}

/-- The prop is in the table, and it is required there if the entry is marked. -/
theorem required_of_complete (h : complete text component navigation found = .ok table)
    (he : FirstOf (blockEntries propTypesBlock text component) p e) :
    (∃ q ∈ table.props, q.name = String.ofList p) ∧
      ∀ q ∈ table.props, q.name = String.ofList p → q.required = contains e ".isRequired".toList := by
  obtain ⟨defaults, -, rfl⟩ := complete_eq_ok_iff.1 h
  obtain ⟨d, hd, hrequired⟩ := he.find?_declared
  have hmem : d ∈ declaredIn (blockEntries propTypesBlock text component) := List.mem_of_find?_eq_some hd
  have hname : d.name = p := by simpa using List.find?_some hd
  constructor
  · have hlisted : p ∈ FoundProp.names (FoundProp.addAll (FoundProp.addAll found
        ((declaredIn (blockEntries propTypesBlock text component)).map fun d => ⟨d.name, none, 0⟩))
        (FoundProp.ofEntries 0 defaults.flatten)) := by
      rw [FoundProp.mem_names_addAll, FoundProp.mem_names_addAll]
      refine .inl (.inr ?_)
      rw [FoundProp.names, List.map_map]
      exact List.mem_map.2 ⟨d, hmem, hname⟩
    obtain ⟨q, hq, hqname⟩ := List.mem_map.1 hlisted
    have hkept : (!handedIn navigation (declaredIn (blockEntries propTypesBlock text component)) q.name) = true := by
      have hany : (declaredIn (blockEntries propTypesBlock text component)).any (·.name == q.name) = true :=
        List.any_eq_true.2 ⟨d, hmem, by simp [hname, hqname]⟩
      simp [handedIn, hany]
    refine ⟨_, List.mem_map_of_mem (List.mem_filter.2 ⟨hq, hkept⟩), ?_⟩
    exact congrArg String.ofList hqname
  · intro q hq hqname
    obtain ⟨q, -, rfl⟩ := List.mem_map.1 hq
    obtain rfl : q.name = p := String.ofList_injective hqname
    rw [specOf, hd]
    exact hrequired

end PropTable

namespace Facts

open DeclaredProp

/-! ### The analysis -/

/-- The props are those of a table of the text. -/
def Tabled (text : List Char) (f : Facts) : Prop :=
  ∃ found table, PropTable.complete text f.name.toList f.features.navigation found = .ok table ∧
    f.props = table.props

theorem exists_report_eq (span : List Char) (hits : List Nat) (f : Facts) :
    ∃ ds, Usage.report span hits f = { f with diagnostics := ds } := by
  simp only [Usage.report]
  rw [foldl_withDiagnostic, foldl_withDiagnostic]
  exact ⟨_, rfl⟩

theorem tabled_report {text : List Char} {f g : Facts} {found : List FoundProp} {hits : List Nat}
    (h : f.withProps text found = .ok (g, hits)) (state : List StateBinding) (span : List Char) :
    Tabled text (Usage.report span hits { g with state }) := by
  obtain ⟨table, htable, h⟩ := bind_eq_ok.1 h
  cases h
  obtain ⟨ds, hreport⟩ := exists_report_eq span table.hits { f with props := table.props, state }
  rw [hreport]
  exact ⟨found, table, htable, rfl⟩

theorem tabled_of_ofFunction {text : List Char} {scope : Scope} {f g : Facts}
    (h : ofFunction text scope f = .ok g) : Tabled text g := by
  unfold ofFunction at h
  split at h
  all_goals
    obtain ⟨⟨object?, taken⟩, -, h⟩ := bind_eq_ok.1 h
    obtain ⟨through, -, h⟩ := bind_eq_ok.1 h
    obtain ⟨⟨f', hits⟩, hp, h⟩ := bind_eq_ok.1 h
    cases h
    exact tabled_report hp _ _

/-- Of a class without a body no props are collected. -/
theorem props_of_ofClass {text : List Char} {d : Declaration} {f g : Facts} (h : ofClass text d f = .ok g) :
    if '{' ∈ text.drop d.resume then Tabled text g else g.props = f.props := by
  have hbrace : '{' ∈ text.drop d.resume ↔ (indexOf? (text.drop d.resume) ['{']).isSome = true := by
    rw [← contains, contains_iff, List.singleton_infix_iff]
  unfold ofClass at h
  split at h
  · rename_i hnone
    rw [if_neg (by rw [hbrace, hnone]; exact Bool.false_ne_true)]
    cases h
    rfl
  · rename_i i hi
    rw [if_pos (by rw [hbrace, hi]; rfl)]
    obtain ⟨found, -, h⟩ := bind_eq_ok.1 h
    obtain ⟨state, -, h⟩ := bind_eq_ok.1 h
    obtain ⟨⟨f', hits⟩, hp, h⟩ := bind_eq_ok.1 h
    cases h
    exact tabled_report hp _ _

/-- The declaration that the analysis reads. -/
def declaration? (source : String) (declared? : Option String) : Option Declaration :=
  Declaration.find? (blankComments source.toList) ((declared?.map fun n => trim n.toList).filter (!·.isEmpty))

/-- The source has a component whose props are collected: there is a declaration or an export, and
a class has a body. -/
def Collects (source : String) (declared? : Option String) : Prop :=
  isBlankText (blankComments source.toList) = false ∧
    ((declaration? source declared?).isSome = true ∨
      (Declaration.exported? (blankComments source.toList)).isSome = true) ∧
    ∀ d, declaration? source declared? = some d → d.kind = .classBody →
      '{' ∈ (blankComments source.toList).drop d.resume

instance (source : String) (declared? : Option String) : Decidable (Collects source declared?) :=
  inferInstanceAs (Decidable (_ ∧ _ ∧ _))

/-- Where a class has a body, or no class is read, props are collected. -/
theorem tabled_of_ofDeclaration {text : List Char} {d? : Option Declaration} {f g : Facts} (hf : f.props = [])
    (h : ofDeclaration text d? f = .ok g) :
    if ∀ d, d? = some d → d.kind = .classBody → '{' ∈ text.drop d.resume then Tabled text g else g.props = [] := by
  unfold ofDeclaration at h
  cases d? with
  | none =>
    rw [if_pos (by simp)]
    exact tabled_of_ofFunction h
  | some d =>
    dsimp only at h
    simp only [Option.some.injEq, forall_eq']
    split at h
    · rename_i hclass
      have hbody := props_of_ofClass h
      simpa only [beq_iff_eq.1 hclass, forall_const, hf] using hbody
    · rename_i hclass
      rw [if_pos fun hkind => absurd hkind (by simpa using hclass)]
      exact tabled_of_ofFunction h

/-- Props are collected where the analysis goes on beyond its first question, and a class has a body. -/
theorem collects_iff {source : String} {declared? : Option String} : Collects source declared? ↔
    ¬ (isBlankText (blankComments source.toList) ||
        ((declaration? source declared?).isNone && (Declaration.exported? (blankComments source.toList)).isNone)) =
          true ∧
      ∀ d, declaration? source declared? = some d → d.kind = .classBody →
        '{' ∈ (blankComments source.toList).drop d.resume := by
  rw [Collects, ← and_assoc]
  refine and_congr_left fun _ => ?_
  cases isBlankText _ <;> cases declaration? source declared? <;> cases Declaration.exported? _ <;> simp

theorem tabled_of_analyze {source : String} {declared? : Option String} {f : Facts}
    (h : analyze source declared? = .ok f) :
    if Collects source declared? then Tabled (blankComments source.toList) f else f.props = [] := by
  dsimp only [analyze] at h
  split at h
  · rename_i hnothing
    cases h
    rw [if_neg fun hcollects => (collects_iff.1 hcollects).1 hnothing]
    rfl
  · rename_i hsomething
    obtain ⟨g, hg, h⟩ := bind_eq_ok.1 h
    have hg := tabled_of_ofDeclaration (by simp [props_warnings]; rfl) hg
    have hf : f.props = g.props ∧ f.name = g.name ∧ f.features = g.features := by
      split at h <;> cases h <;> exact ⟨rfl, rfl, rfl⟩
    have hbody := collects_iff.trans (and_iff_right hsomething)
    simp only [hbody, Tabled, hf]
    exact hg

/-- A prop with prop types is listed with what its first entry says: it is required if the entry is marked
anywhere. So an entry is read by its own end exactly if no mark stands only inside it. -/
theorem required_iff_marked {source : String} {declared? : Option String} {f : Facts}
    (h : analyze source declared? = .ok f) {p e : List Char}
    (he : FirstOf (blockEntries propTypesBlock (blankComments source.toList) f.name.toList) p e) :
    (Collects source declared? → ∃ q ∈ f.props, q.name = String.ofList p) ∧
      (¬ Collects source declared? → f.props = []) ∧
      ∀ q ∈ f.props, q.name = String.ofList p →
        (q.required = true ↔ ".isRequired".toList <:+: e) ∧
          ((q.required = true ↔ EndsRequired e) ↔ (".isRequired".toList <:+: e → EndsRequired e)) := by
  have htabled := tabled_of_analyze h
  by_cases hcollects : Collects source declared?
  · rw [if_pos hcollects] at htabled
    obtain ⟨found, table, htable, hprops⟩ := htabled
    obtain ⟨hlisted, hrequired⟩ := PropTable.required_of_complete htable he
    rw [hprops]
    refine ⟨fun _ => hlisted, absurd hcollects, fun q hq hname => ?_⟩
    have hmarked : q.required = true ↔ ".isRequired".toList <:+: e := by
      rw [hrequired q hq hname, contains_iff]
    refine ⟨hmarked, ?_⟩
    rw [hmarked]
    exact ⟨Iff.mp, fun hend => ⟨hend, EndsRequired.infix⟩⟩
  · rw [if_neg hcollects] at htabled
    refine ⟨fun hc => absurd hc hcollects, fun _ => htabled, fun q hq => ?_⟩
    rw [htabled] at hq
    cases hq

/-- A list whose items are required, but not the list itself. -/
def itemList : String :=
  "const List = (\x7b items \x7d) => <p>\x7bitems\x7d</p>;\n" ++
    "List.propTypes = \x7b items: PropTypes.arrayOf(PropTypes.string.isRequired) \x7d;\n"

/-- The list is taken for required since its items are. -/
theorem itemList_required : ∃ f e, analyze itemList none = .ok f ∧
    FirstOf (blockEntries propTypesBlock (blankComments itemList.toList) f.name.toList) "items".toList e ∧
    ¬ EndsRequired e ∧ (∃ q ∈ f.props, q.name = "items") ∧
    ∀ q ∈ f.props, q.name = "items" → q.required = true := by
  let entry := " items: PropTypes.arrayOf(PropTypes.string.isRequired) ".toList
  have hname : (analyze itemList none).toOption.map (·.name) = some "List" := by decide +kernel
  have hentries : blockEntries propTypesBlock (blankComments itemList.toList) "List".toList = [entry] := by
    decide +kernel
  have hcollects : Collects itemList none := by decide +kernel
  have hdeclares : DeclaresType entry "items".toList :=
    ⟨[' '], [], [' '], "arrayOf(PropTypes.string.isRequired) ".toList, rfl, ⟨'i', "tems".toList, rfl, rfl, by decide⟩,
      rfl, rfl, rfl, rfl⟩
  cases hf : analyze itemList none with
  | error err => simp [hf, Except.toOption] at hname
  | ok f =>
    have hlist : f.name = "List" := by simpa [hf, Except.toOption] using hname
    have hfirst : FirstOf (blockEntries propTypesBlock (blankComments itemList.toList) f.name.toList)
        "items".toList entry := by
      rw [hlist, hentries]
      exact ⟨hdeclares, [], [], rfl, by simp⟩
    obtain ⟨hlisted, -, hrequired⟩ := required_iff_marked hf hfirst
    refine ⟨f, entry, rfl, hfirst, ?_, hlisted hcollects, fun q hq hq' => (hrequired q hq hq').1.2 (by decide)⟩
    exact fun hends => absurd hends.suffix (by decide)

end Facts

end Recast
