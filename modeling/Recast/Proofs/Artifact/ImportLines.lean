import Recast.Proofs.Artifact.ImportAdditions

/-!
# The import lines that additions come to

The line of an origin is an import declaration unless the origin has both a whole module and names in
braces. Such a line declares the first default name of its origin and the first name of the module,
and every name in braces once.
-/

namespace Recast

open Addition
open ImportStatement (ofEntry DeclaredBy IsOrigin IsBindingName clause_ofEntry)

/-- The parts of what is added are read as what they stand for in the grammar. -/
def Addition.WellFormed (isName : List Char → Prop) : Addition → Prop
  | default o n | wholeModule o n => IsOrigin o ∧ IsBindingName isName n
  | named o s | type o s => IsOrigin o ∧ Lexeme.IsSpecifier isName (Lexeme.read s.toList)
  | sideEffect o => IsOrigin o
  | asset _ _ => True

namespace ImportSet

variable (adds : List Addition)

/-- The statements of the rendered lines. -/
def statements : List ImportStatement :=
  ((adds.filterMap key?).eraseDups.map fun key => ofEntry (gathered key adds)) ++
    (adds.filterMap sideEffect?).eraseDups.map .effect

/-- A whole module and names in braces are imported from the origin. -/
def Shared (o : String) : Prop := (∃ m, wholeModule o m ∈ adds) ∧ ∃ n, named o n ∈ adds

/-- A line declares something of the origin, of values or of types, with the property. -/
def Bound (isName : List Char → Prop) (lines : List String) (o : String) (t : Bool)
    (P : ImportStatement → Prop) : Prop :=
  ∃ line ∈ lines, ∃ i, DeclaredBy isName line i ∧ i.origin = o ∧ i.typeOnly = t ∧ P i

/-- How the import lines and the constants of assets answer the additions. Two lines that declare of
one origin are of two sorts, and no name stands twice in one pair of braces. -/
structure Answers (isName : List Char → Prop) (lines constants : List String) : Prop where
  declared_iff : (∀ line ∈ lines, ∃ i, DeclaredBy isName line i) ↔ ∀ o, ¬ Shared adds o
  apart : lines.Pairwise fun line line' => ∀ i j, DeclaredBy isName line i → DeclaredBy isName line' j →
    i.origin = j.origin → i.sort ≠ j.sort
  once : ∀ line ∈ lines, (∃ i, DeclaredBy isName line i) →
    ∃ i, DeclaredBy isName line i ∧ (i.named?.getD []).Nodup
  default_iff : ∀ o n, Bound isName lines o false (·.default? = some n) ↔
    adds.findSome? (default? (o, false)) = some n ∧ ¬ Shared adds o
  module_iff : ∀ o m, Bound isName lines o false (·.module? = some m) ↔
    adds.findSome? (module? (o, false)) = some m ∧ ¬ Shared adds o
  named_iff : ∀ o n, named o n ∈ adds →
    (Bound isName lines o false (n ∈ ·.named?.getD []) ↔ ¬ Shared adds o)
  types : ∀ o n, type o n ∈ adds → Bound isName lines o true (n ∈ ·.named?.getD [])
  effects : ∀ o, sideEffect o ∈ adds → ∃ line ∈ lines, DeclaredBy isName line (.effect o)
  assets : ∀ n o, asset n o ∈ adds → "const " ++ n ++ " = '" ++ assetPath o ++ "';" ∈ constants

variable {adds} {isName : List Char → Prop} {key : String × Bool} {i j : ImportStatement}

/-- What is added to an entry shows in its line. -/
theorem clause_gathered_ne_nil (h : key ∈ adds.filterMap key?) : clause (gathered key adds) ≠ [] := by
  obtain ⟨a, ha, hkey⟩ := List.mem_filterMap.1 h
  intro hnil
  simp only [clause, List.append_eq_nil_iff, Option.toList_eq_nil_iff, Option.map_eq_none_iff] at hnil
  obtain ⟨⟨hdefault, hmodule⟩, hnamed⟩ := hnil
  have hnone (n : String) : n ∉ (gathered key adds).named := by
    cases hlist : (gathered key adds).named with
    | nil => exact List.not_mem_nil
    | cons s ss => simp [hlist] at hnamed
  cases a <;> cases hkey
  case default o n => exact default?_gathered_ne_none ha hdefault
  case wholeModule o n => exact module?_gathered_ne_none ha hmodule
  case named o n => exact hnone n (mem_named.2 ha)
  case type o n => exact hnone n (mem_named.2 ha)

theorem render_ofAdditions (adds : List Addition) :
    (ofAdditions adds).render = (statements adds).map (·.text) := by
  have hall : ((adds.filterMap key?).eraseDups.map fun key => gathered key adds).filter
      (fun e => !(clause e).isEmpty) = (adds.filterMap key?).eraseDups.map fun key => gathered key adds := by
    refine List.filter_eq_self.2 fun e he => ?_
    obtain ⟨key, hkey, rfl⟩ := List.mem_map.1 he
    simpa using clause_gathered_ne_nil (List.mem_eraseDups.1 hkey)
  rw [render_eq, ofAdditions_eq, hall, statements, List.map_map]
  rfl

theorem mem_statements : i ∈ statements adds ↔
    (∃ key ∈ adds.filterMap key?, i = ofEntry (gathered key adds)) ∨
      ∃ o, sideEffect o ∈ adds ∧ i = .effect o := by
  have heffect (o : String) : o ∈ adds.filterMap sideEffect? ↔ sideEffect o ∈ adds := by
    rw [List.mem_filterMap]
    constructor
    · rintro ⟨a, ha, ho⟩
      cases a <;> cases ho
      exact ha
    · exact fun h => ⟨_, h, rfl⟩
  simp only [statements, List.mem_append, List.mem_map, List.mem_eraseDups, heffect, eq_comm (b := i)]

theorem sort_gathered (h : key ∈ adds.filterMap key?) : (ofEntry (gathered key adds)).sort = some key.2 := by
  have hclause : (ofEntry (gathered key adds)).clause ≠ [] := by
    rw [clause_ofEntry]
    exact clause_gathered_ne_nil h
  rw [ImportStatement.sort, ImportStatement.heading_eq_of_clause hclause]
  rfl

/-- No two statements of one sort have one origin. -/
theorem pairwise_statements (adds : List Addition) :
    (statements adds).Pairwise fun i j => i.origin = j.origin → i.sort ≠ j.sort := by
  have hkeys : ∀ key ∈ (adds.filterMap key?).eraseDups, (ofEntry (gathered key adds)).sort = some key.2 :=
    fun key hkey => sort_gathered (List.mem_eraseDups.1 hkey)
  rw [statements, List.pairwise_append, List.pairwise_map, List.pairwise_map]
  refine ⟨?_, ?_, ?_⟩
  · refine (nodup_eraseDups _).imp_of_mem fun {key key'} hkey hkey' hne horigin hsort => hne ?_
    rw [hkeys key hkey, hkeys key' hkey', Option.some.injEq] at hsort
    exact Prod.ext horigin hsort
  · exact (nodup_eraseDups _).imp fun hne horigin => absurd horigin hne
  · intro i hi j hj horigin hsort
    obtain ⟨key, hkey, rfl⟩ := List.mem_map.1 hi
    obtain ⟨o, -, rfl⟩ := List.mem_map.1 hj
    rw [hkeys key hkey] at hsort
    cases hsort

/-- The entry of a shared origin has both the module and names in braces. -/
theorem shared_iff : (gathered key adds).module? ≠ none ∧ (gathered key adds).named ≠ [] ↔
    key.2 = false ∧ Shared adds key.1 := by
  constructor
  · rintro ⟨hmodule, hnamed⟩
    obtain ⟨m, hm⟩ := Option.ne_none_iff_exists'.1 hmodule
    obtain ⟨n, hn⟩ := List.exists_mem_of_ne_nil _ hnamed
    obtain ⟨hvalues, hadded⟩ := mem_of_module? hm
    rw [mem_named, hvalues] at hn
    exact ⟨hvalues, ⟨m, hadded⟩, n, hn⟩
  · obtain ⟨o, t⟩ := key
    rintro ⟨rfl, ⟨m, hm⟩, n, hn⟩
    exact ⟨module?_gathered_ne_none hm, List.ne_nil_of_mem (mem_named.2 hn)⟩

section

variable (hadds : ∀ a ∈ adds, a.WellFormed isName)

include hadds

theorem wellFormed_gathered (h : key ∈ adds.filterMap key?) : (gathered key adds).WellFormed isName where
  origin := by
    obtain ⟨a, ha, hkey⟩ := List.mem_filterMap.1 h
    have hwell := hadds a ha
    cases a <;> cases hkey <;> exact hwell.1
  default n hn := (hadds _ (mem_of_default? hn).2).2
  module m hm := (hadds _ (mem_of_module? hm).2).2
  named s hs := by
    have hwell := hadds _ (mem_named.1 hs)
    split at hwell <;> exact hwell.2
  types htypes := by
    constructor
    · refine Option.eq_none_iff_forall_ne_some.2 fun n hn => ?_
      exact absurd (htypes.symm.trans (mem_of_default? hn).1) (by decide)
    · refine Option.eq_none_iff_forall_ne_some.2 fun m hm => ?_
      exact absurd (htypes.symm.trans (mem_of_module? hm).1) (by decide)

theorem declaredBy_entry (hkey : key ∈ adds.filterMap key?) (happart : ¬ (key.2 = false ∧ Shared adds key.1)) :
    DeclaredBy isName (ofEntry (gathered key adds)).text (ofEntry (gathered key adds)) := by
  refine (wellFormed_gathered hadds hkey).declaredBy (clause_gathered_ne_nil hkey) ?_
  by_contra! hboth
  exact happart (shared_iff.1 hboth)

theorem apart_of_declaredBy (hkey : key ∈ adds.filterMap key?)
    (hi : DeclaredBy isName (ofEntry (gathered key adds)).text i) : ¬ (key.2 = false ∧ Shared adds key.1) := by
  intro hshared
  obtain ⟨hmodule, hnamed⟩ := shared_iff.2 hshared
  obtain ⟨m, hm⟩ := Option.ne_none_iff_exists'.1 hmodule
  exact (wellFormed_gathered hadds hkey).not_declaredBy hm hnamed i hi

/-- A line that declares anything declares its statement, and nothing else. -/
theorem declaredBy_statement (hi : i ∈ statements adds) (hj : DeclaredBy isName i.text j) :
    DeclaredBy isName i.text i ∧ j.origin = i.origin ∧ j.heading = i.heading := by
  have hself : DeclaredBy isName i.text i := by
    rcases mem_statements.1 hi with ⟨key, hkey, rfl⟩ | ⟨o, ho, rfl⟩
    · exact declaredBy_entry hadds hkey (apart_of_declaredBy hadds hkey hj)
    · exact IsOrigin.declaredBy_effect (hadds _ ho)
  exact ⟨hself, ImportStatement.Derives.unique hj hself⟩

variable {o : String} {t : Bool} {P : ImportStatement → Prop}

theorem bound_of_entry (hkey : (o, t) ∈ adds.filterMap key?) (happart : ¬ (t = false ∧ Shared adds o))
    (hp : P (ofEntry (gathered (o, t) adds))) : Bound isName ((statements adds).map (·.text)) o t P := by
  have hmem : ofEntry (gathered (o, t) adds) ∈ statements adds := mem_statements.2 (.inl ⟨_, hkey, rfl⟩)
  exact ⟨_, List.mem_map_of_mem hmem, _, declaredBy_entry hadds hkey happart, rfl, rfl, hp⟩

/-- What a line declares of an origin stands in the entry of the origin. -/
theorem exists_of_bound (h : Bound isName ((statements adds).map (·.text)) o t P)
    (hclause : ∀ i, P i → i.clause ≠ []) : (o, t) ∈ adds.filterMap key? ∧ ¬ (t = false ∧ Shared adds o) ∧
      ∃ i, P i ∧ i.heading = (ofEntry (gathered (o, t) adds)).heading := by
  obtain ⟨line, hline, i, hi, rfl, rfl, hp⟩ := h
  obtain ⟨j, hj, rfl⟩ := List.mem_map.1 hline
  obtain ⟨-, horigin, hheading⟩ := declaredBy_statement hadds hj hi
  have hvalues := (ImportStatement.eq_of_heading_eq hheading (hclause i hp))
  rcases mem_statements.1 hj with ⟨key, hkey, rfl⟩ | ⟨o, -, rfl⟩
  · have heq : (i.origin, i.typeOnly) = key := Prod.ext horigin hvalues.2.1
    rw [heq]
    subst heq
    exact ⟨hkey, apart_of_declaredBy hadds hkey hi, i, hp, hheading⟩
  · exact absurd rfl hvalues.1

/-- Every line is a declaration exactly if no origin is shared. -/
theorem declared_iff : (∀ i ∈ statements adds, ∃ j, DeclaredBy isName i.text j) ↔ ∀ o, ¬ Shared adds o := by
  constructor
  · intro h o hshared
    obtain ⟨m, hm⟩ := hshared.1
    have hkey : (o, false) ∈ adds.filterMap key? := List.mem_filterMap.2 ⟨_, hm, rfl⟩
    obtain ⟨i, hi⟩ := h _ (mem_statements.2 (.inl ⟨_, hkey, rfl⟩))
    exact apart_of_declaredBy hadds hkey hi ⟨rfl, hshared⟩
  · intro h i hi
    rcases mem_statements.1 hi with ⟨key, hkey, rfl⟩ | ⟨o, ho, rfl⟩
    · exact ⟨_, declaredBy_entry hadds hkey fun hshared => h _ hshared.2⟩
    · exact ⟨_, IsOrigin.declaredBy_effect (hadds _ ho)⟩

/-- A name that the heading tells is declared if the entry has it and its origin is not shared. -/
theorem bound_iff (get : ImportStatement → Option String) {n : String}
    (hclause : ∀ i, get i = some n → i.clause ≠ [])
    (hget : ∀ i j : ImportStatement, i.clause ≠ [] → i.heading = j.heading → get i = get j)
    (hkey : get (ofEntry (gathered (o, false) adds)) = some n → (o, false) ∈ adds.filterMap key?) :
    Bound isName ((statements adds).map (·.text)) o false (get · = some n) ↔
      get (ofEntry (gathered (o, false) adds)) = some n ∧ ¬ Shared adds o := by
  constructor
  · intro h
    obtain ⟨-, happart, i, hi, hheading⟩ := exists_of_bound hadds h hclause
    exact ⟨(hget i _ (hclause i hi) hheading).symm.trans hi, fun hshared => happart ⟨rfl, hshared⟩⟩
  · rintro ⟨hfirst, happart⟩
    exact bound_of_entry hadds (hkey hfirst) (fun hshared => happart hshared.2) hfirst

theorem bound_default_iff {n : String} :
    Bound isName ((statements adds).map (·.text)) o false (·.default? = some n) ↔
      adds.findSome? (default? (o, false)) = some n ∧ ¬ Shared adds o := by
  refine bound_iff hadds (·.default?) ?_ ?_ ?_
  · intro i hi
    simp [ImportStatement.clause, hi]
  · exact fun i j hclause h => (ImportStatement.eq_of_heading_eq h hclause).2.2.1
  · intro (h : (gathered (o, false) adds).default? = some _)
    exact List.mem_filterMap.2 ⟨_, (mem_of_default? h).2, rfl⟩

theorem bound_module_iff {m : String} :
    Bound isName ((statements adds).map (·.text)) o false (·.module? = some m) ↔
      adds.findSome? (module? (o, false)) = some m ∧ ¬ Shared adds o := by
  refine bound_iff hadds (·.module?) ?_ ?_ ?_
  · intro i hi
    simp [ImportStatement.clause, hi]
  · exact fun i j hclause h => (ImportStatement.eq_of_heading_eq h hclause).2.2.2
  · intro (h : (gathered (o, false) adds).module? = some _)
    exact List.mem_filterMap.2 ⟨_, (mem_of_module? h).2, rfl⟩

/-- A name that is added in braces is declared, of values unless its origin is shared. -/
theorem bound_named_iff {n : String} (hadded : (if t then type o n else named o n) ∈ adds) :
    Bound isName ((statements adds).map (·.text)) o t (n ∈ ·.named?.getD []) ↔ ¬ (t = false ∧ Shared adds o) := by
  have hclause (i : ImportStatement) (h : n ∈ i.named?.getD []) : i.clause ≠ [] := by
    cases hnames : i.named? with
    | none => simp [hnames] at h
    | some names => simp [ImportStatement.clause, hnames]
  have hkey : (o, t) ∈ adds.filterMap key? := List.mem_filterMap.2 ⟨_, hadded, by cases t <;> rfl⟩
  constructor
  · exact fun h => (exists_of_bound hadds h hclause).2.1
  · intro happart
    have hn : n ∈ (gathered (o, t) adds).named := mem_named.2 hadded
    refine bound_of_entry hadds hkey happart ?_
    rwa [ofEntry, if_neg (by simpa using List.ne_nil_of_mem hn)]

/-- A line that is a declaration has no name twice in its braces. -/
theorem exists_nodup (hi : i ∈ statements adds) (hj : DeclaredBy isName i.text j) :
    ∃ i', DeclaredBy isName i.text i' ∧ (i'.named?.getD []).Nodup := by
  refine ⟨i, (declaredBy_statement hadds hi hj).1, ?_⟩
  rcases mem_statements.1 hi with ⟨key, -, rfl⟩ | ⟨o, -, rfl⟩
  · unfold ofEntry
    dsimp only
    split
    · exact .nil
    · exact nodup_eraseDups _
  · exact .nil

theorem answers_ofAdditions : Answers adds isName (ofAdditions adds).render (ofAdditions adds).assetConstants := by
  rw [render_ofAdditions]
  refine ⟨?_, ?_, ?_, ?_, ?_, ?_, ?_, ?_, ?_⟩
  · rw [List.forall_mem_map]
    exact declared_iff hadds
  · refine List.pairwise_map.2 ((pairwise_statements adds).imp_of_mem ?_)
    intro a b ha hb hne i j hi hj
    obtain ⟨-, horigin, hheading⟩ := declaredBy_statement hadds ha hi
    obtain ⟨-, horigin', hheading'⟩ := declaredBy_statement hadds hb hj
    rw [horigin, horigin', ImportStatement.sort, ImportStatement.sort, hheading, hheading']
    exact hne
  · rw [List.forall_mem_map]
    exact fun i hi ⟨j, hj⟩ => exists_nodup hadds hi hj
  · exact fun o n => bound_default_iff hadds
  · exact fun o m => bound_module_iff hadds
  · intro o n hadded
    rw [bound_named_iff hadds (t := false) hadded]
    simp
  · exact fun o n hadded => (bound_named_iff hadds (t := true) hadded).2 (by simp)
  · intro o ho
    have hmem : .effect o ∈ statements adds := mem_statements.2 (.inr ⟨o, ho, rfl⟩)
    exact ⟨_, List.mem_map_of_mem hmem, IsOrigin.declaredBy_effect (hadds _ ho)⟩
  · intro n o hadded
    have hasset : asset? (asset n o) = some ⟨n, assetPath o⟩ := rfl
    rw [ofAdditions_eq]
    exact List.mem_map.2 ⟨_, List.mem_filterMap.2 ⟨_, hadded, hasset⟩, rfl⟩

end

/-- What an imported name of the source adds to the set. -/
def addition? (hasService : Bool) (b : ImportBinding) : Option Addition :=
  if isLeftOut hasService b.origin then none
  else if isRouter b.origin then
    match routerName (importedName b.name) with
    | .renamed n => some (named "react-router-dom" n)
    | .dropped => none
    | .kept => some (named "react-router-dom" b.name)
  else
    match b.kind with
    | .default => some (if isAsset b.origin then asset b.name b.origin else default b.origin b.name)
    | .named => some (named b.origin b.name)
    | .wholeModule => some (wholeModule b.origin b.name)
    | .sideEffect => some (sideEffect b.origin)

theorem carry_eq (hasService : Bool) (s : ImportSet) (b : ImportBinding) :
    s.carry hasService b = ((addition? hasService b).map (add s)).getD s := by
  unfold carry addition?
  split
  · rfl
  · split
    · unfold carryRouter
      cases routerName (importedName b.name) <;> rfl
    · cases b.kind with
      | default => cases isAsset b.origin <;> rfl
      | _ => rfl

theorem ofFacts_eq (f : Facts) (hasService : Bool) :
    ofFacts f hasService = ofAdditions (f.imports.filterMap (addition? hasService)) := by
  have hfold (bs : List ImportBinding) (s : ImportSet) :
      bs.foldl (carry hasService) s = (bs.filterMap (addition? hasService)).foldl add s := by
    induction bs generalizing s with
    | nil => rfl
    | cons b bs ih =>
      rw [List.foldl_cons, ih, carry_eq, List.filterMap_cons]
      cases addition? hasService b <;> rfl
  exact hfold _ _

/-- What is added in any order, by the source too, is declared by the import lines: each line is a
declaration, and what it declares is bound, exactly where no whole module shares it with braces. -/
theorem additions_answered (isName : List Char → Prop) :
    (∀ adds : List Addition, (∀ a ∈ adds, a.WellFormed isName) →
      Answers adds isName (ofAdditions adds).render (ofAdditions adds).assetConstants) ∧
    ∀ (f : Facts) (hasService : Bool),
      ofFacts f hasService = ofAdditions (f.imports.filterMap (addition? hasService)) :=
  ⟨fun _ hadds => answers_ofAdditions hadds, ofFacts_eq⟩

/-- A whole module and a name of it come out on one line, which is no declaration. The second default
name of an origin is on no line. -/
theorem module_shares_line_with_name :
    let isName (n : List Char) := Text.isIdentifier n = true
    let shared := [wholeModule "./api" "api", named "./api" "get"]
    let twice := [default "./card" "Card", default "./card" "Box"]
    (ofAdditions shared).render = ["import * as api, \x7b get \x7d from './api';"] ∧
      (∀ i, ¬ DeclaredBy isName "import * as api, \x7b get \x7d from './api';" i) ∧
      (ofAdditions twice).render = ["import Card from './card';"] ∧
      ¬ Bound isName (ofAdditions twice).render "./card" false (·.default? = some "Box") := by
  intro isName shared twice
  have hlines : (ofAdditions shared).render = ["import * as api, \x7b get \x7d from './api';"] := rfl
  have hshared : ∀ a ∈ shared, a.WellFormed isName := by
    simp only [shared, List.forall_mem_cons, Addition.WellFormed]
    exact ⟨⟨rfl, rfl, by decide⟩, ⟨rfl, .name (by decide)⟩, by simp⟩
  have htwice : ∀ a ∈ twice, a.WellFormed isName := by
    simp only [twice, List.forall_mem_cons, Addition.WellFormed]
    exact ⟨⟨rfl, rfl, by decide⟩, ⟨rfl, rfl, by decide⟩, by simp⟩
  refine ⟨hlines, fun i hi => ?_, rfl, fun hbox => ?_⟩
  · have hiff := ((additions_answered isName).1 shared hshared).declared_iff
    rw [hlines, List.forall_mem_singleton] at hiff
    exact hiff.1 ⟨i, hi⟩ "./api" ⟨⟨"api", by decide⟩, "get", by decide⟩
  · have hfirst := (((additions_answered isName).1 twice htwice).default_iff "./card" "Box").1 hbox
    exact absurd hfirst.1 (by decide)

end ImportSet

end Recast
