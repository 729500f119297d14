import Recast.Proofs.Artifact.ImportLines
import Recast.Proofs.Text.Pieces
import Recast.Proofs.Text.WordPlaces

/-!
# The import of the framework

A name of the framework is imported if it stands in the code more often by itself than longer names do
that begin with it as members of the framework. So one member that is such a longer name takes the
place of one use of the name, and the name is imported wherever it is used if there is none
(`framework_names_declared_iff`).
-/

namespace Recast.Template

open Text
open ImportStatement (DeclaredBy Derives ofEntry eq_of_heading_eq)

/-- Number of places where the name stands alone and `React.` is not before it. -/
def ownPlaces (code name : String) : ℕ :=
  countPlaces (fun before rest => standsAlone name.toList before rest && !endsWith before "React.".toList)
    code.toList

/-- Number of places where a member of the framework begins whose name goes on behind `name`. -/
def longerMembers (code name : String) : ℕ :=
  countPlaces (fun _ rest => startsWith rest ("React." ++ name).toList &&
    (rest.drop ("React." ++ name).length).head?.any isIdentChar) code.toList

section

variable {name : List Char}

/-- The name stands alone behind `React.` where its qualified form begins and ends. -/
theorem qualified_eq (hname : name ≠ []) (before rest : List Char) :
    ((dropPrefix? "React.".toList rest).any fun r =>
      !r.isEmpty && standsAlone name (before ++ "React.".toList) r) =
    (startsWith rest ("React.".toList ++ name) &&
      !(rest.drop ("React.".toList ++ name).length).head?.any isIdentChar) := by
  have hdot : (before ++ "React.".toList).getLast?.any isIdentChar = false := by
    rw [List.getLast?_append]
    rfl
  rw [Bool.eq_iff_iff, Bool.and_eq_true, Bool.not_eq_true', startsWith_iff, Option.any_eq_true]
  constructor
  · rintro ⟨r, hr, h⟩
    obtain ⟨after, rfl, -, hafter⟩ := standsAlone_iff.1 (Bool.and_eq_true_iff.1 h).2
    rw [dropPrefix?_eq_some_iff.1 hr, ← List.append_assoc, List.drop_left]
    exact ⟨List.prefix_append _ _, hafter⟩
  · rintro ⟨⟨after, rfl⟩, hafter⟩
    rw [List.drop_left] at hafter
    refine ⟨name ++ after, dropPrefix?_eq_some_iff.2 (List.append_assoc _ _ _), ?_⟩
    rw [Bool.and_eq_true]
    exact ⟨by simp [hname], standsAlone_iff.2 ⟨after, rfl, hdot, hafter⟩⟩

/-- What the two counts have in common cancels. -/
theorem occurrences_lt_countWord_iff (hne : name ≠ []) (hname : name.all isIdentChar = true)
    (hborders : Unbordered ("React.".toList ++ name)) (text : List Char) :
    occurrences text ("React.".toList ++ name) < Text.countWord text name ↔
      countPlaces (fun _ rest => startsWith rest ("React.".toList ++ name) &&
          (rest.drop ("React.".toList ++ name).length).head?.any isIdentChar) text <
        countPlaces (fun before rest => standsAlone name before rest && !endsWith before "React.".toList) text := by
  have hswap : (fun before rest => standsAlone name before rest && endsWith before "React.".toList) =
      fun before rest => endsWith before "React.".toList && standsAlone name before rest :=
    funext₂ fun _ _ => Bool.and_comm _ _
  rw [Text.countWord_eq hne hname, occurrences_eq hborders,
    countPlaces_split (standsAlone name) (fun before _ => endsWith before "React.".toList),
    countPlaces_split (fun _ rest => startsWith rest _)
      (fun _ rest => (rest.drop ("React.".toList ++ name).length).head?.any isIdentChar),
    hswap, countPlaces_behind, funext₂ (qualified_eq hne), Nat.add_comm]
  exact Nat.add_lt_add_iff_left

end

theorem reactNames_wellFormed : ∀ name ∈ reactNames, name.toList ≠ [] ∧ name.toList.all isIdentChar = true ∧
    Unbordered ("React." ++ name).toList ∧ Lexeme.read name.toList = [.word name.toList] ∧
      isIdentifier name.toList = true := by
  decide

variable {code name : String}

theorem usesReactName_iff (hname : name ∈ reactNames) :
    usesReactName code name = true ↔ longerMembers code name < ownPlaces code name := by
  obtain ⟨hne, hword, hborders, -⟩ := reactNames_wellFormed name hname
  rw [String.toList_append] at hborders
  rw [usesReactName, decide_eq_true_iff, Str.occurrences, Str.countWord, String.toList_append,
    occurrences_lt_countWord_iff hne hword hborders, longerMembers, ownPlaces, String.toList_append,
    ← String.length_toList, String.toList_append]

/-- What the code uses of the framework. -/
def reactEntry (code : String) : ImportEntry where
  origin := "react"
  typeOnly := false
  default? := if Str.contains code "React." then some "React" else none
  named := reactNames.filter (usesReactName code)

theorem reactStatement?_eq (code : String) : reactStatement? code =
    if (ImportSet.clause (reactEntry code)).isEmpty then none else some (.ofEntry (reactEntry code)) := by
  unfold reactStatement? reactEntry ImportStatement.ofEntry ImportSet.clause
  generalize reactNames.filter (usesReactName code) = names
  cases Str.contains code "React." <;> cases names <;> rfl

theorem wellFormed_reactEntry (code : String) :
    (reactEntry code).WellFormed fun n => isIdentifier n = true where
  origin := by
    have horigin : ImportStatement.IsOrigin "react" := by
      rw [ImportStatement.IsOrigin]
      decide
    exact horigin
  default n hn := by
    obtain ⟨-, ⟨⟩⟩ := Option.ite_none_right_eq_some.1 (hn : (if _ then _ else _) = some n)
    exact ⟨by decide, by decide⟩
  module m hm := by cases hm
  named s hs := by
    obtain ⟨-, -, -, hread, hname⟩ := reactNames_wellFormed s (List.mem_filter.1 hs).1
    rw [hread]
    exact .name hname
  types h := by cases h

theorem declaredBy_reactEntry (hclause : ImportSet.clause (reactEntry code) ≠ []) :
    DeclaredBy (fun n => isIdentifier n = true) (ofEntry (reactEntry code)).text (ofEntry (reactEntry code)) :=
  (wellFormed_reactEntry code).declaredBy hclause (.inl rfl)

theorem mem_reactImport? {line : String} (h : line ∈ (reactImport? code).toList) :
    ImportSet.clause (reactEntry code) ≠ [] ∧ line = (ofEntry (reactEntry code)).text := by
  rw [Option.mem_toList, reactImport?_eq, reactStatement?_eq] at h
  obtain ⟨i, hi, rfl⟩ := Option.map_eq_some_iff.1 h
  obtain ⟨hclause, ⟨⟩⟩ := Option.ite_none_left_eq_some.1 hi
  exact ⟨by simpa using hclause, rfl⟩

theorem bound_reactImport? {P : ImportStatement → Prop} (hclause : ImportSet.clause (reactEntry code) ≠ [])
    (hp : P (ofEntry (reactEntry code))) :
    ImportSet.Bound (fun n => isIdentifier n = true) (reactImport? code).toList "react" false P := by
  refine ⟨_, ?_, _, declaredBy_reactEntry hclause, rfl, rfl, hp⟩
  rw [Option.mem_toList, reactImport?_eq, reactStatement?_eq, if_neg (by simpa using hclause)]
  rfl

/-- The words of the import that are names of the framework stand in its braces. -/
theorem mem_named_of_mem_lexemes (hname : name ∈ reactNames)
    (h : Lexeme.word name.toList ∈ (reactEntry code).lexemes) : name ∈ (reactEntry code).named := by
  have hother : ∀ n ∈ reactNames, Lexeme.word n.toList ∉ ImportStatement.opening false ∧
      Lexeme.word n.toList ∉ ImportStatement.source "react" ∧ n.toList ≠ "React".toList := by
    decide
  obtain ⟨hopening, hsource, hdefault⟩ := hother name hname
  rw [ImportEntry.lexemes, List.mem_append, List.mem_append] at h
  obtain h | ⟨ls, hls, h⟩ := mem_intercalate ((h.resolve_right hsource).resolve_left hopening)
  · cases List.mem_singleton.1 h
  rw [ImportEntry.clauseLexemes, List.mem_append, List.mem_append] at hls
  rcases hls with (hls | hls) | hls
  · obtain ⟨n, hn, rfl⟩ := Option.map_eq_some_iff.1 (Option.mem_toList.1 hls)
    obtain ⟨-, ⟨⟩⟩ := Option.ite_none_right_eq_some.1 (hn : (if _ then _ else _) = some n)
    exact absurd (Lexeme.word.inj (List.mem_singleton.1 h)) hdefault
  · cases hls
  · split at hls
    · cases hls
    · rw [List.mem_singleton.1 hls, ImportStatement.braces, List.mem_cons, List.mem_append] at h
      obtain h | ⟨_, hs, h⟩ := mem_intercalate ((h.resolve_left (by simp)).resolve_right (by simp))
      · cases List.mem_singleton.1 h
      obtain ⟨s, hmem, rfl⟩ := List.mem_map.1 hs
      rw [(reactNames_wellFormed s (List.mem_filter.1 hmem).1).2.2.2.1, List.mem_singleton] at h
      rwa [String.toList_inj.1 (Lexeme.word.inj h)]

/-- The import of the framework declares a name exactly if the name stands more often by itself than
longer names that begin with it stand as members of the framework, and its default name exactly if there
is any member of the framework. -/
theorem framework_names_declared_iff (code : String) :
    let isName (n : List Char) := isIdentifier n = true
    let lines := (reactImport? code).toList
    (∀ line ∈ lines, ∃ i, DeclaredBy isName line i ∧ i.origin = "react" ∧ i.typeOnly = false) ∧
      (∀ name ∈ reactNames, ImportSet.Bound isName lines "react" false (name ∈ ·.named?.getD []) ↔
        longerMembers code name < ownPlaces code name) ∧
      (ImportSet.Bound isName lines "react" false (·.default? = some "React") ↔
        Str.contains code "React." = true) := by
  intro isName lines
  refine ⟨fun line hline => ?_, fun name hname => ?_, ?_⟩
  · obtain ⟨hclause, rfl⟩ := mem_reactImport? hline
    exact ⟨_, declaredBy_reactEntry hclause, rfl, rfl⟩
  · rw [← usesReactName_iff hname]
    constructor
    · rintro ⟨line, hline, i, hi, -, -, hmem⟩
      obtain ⟨hclause, rfl⟩ := mem_reactImport? hline
      rw [DeclaredBy, ((wellFormed_reactEntry code).reads hclause).1] at hi
      obtain ⟨-, -, -, hread, -⟩ := reactNames_wellFormed name hname
      have hword := hi.read_subset hmem
      rw [hread] at hword
      exact (List.mem_filter.1 (mem_named_of_mem_lexemes hname (hword List.mem_cons_self))).2
    · intro huses
      have hmem : name ∈ (reactEntry code).named := List.mem_filter.2 ⟨hname, huses⟩
      have hne := List.ne_nil_of_mem hmem
      refine bound_reactImport? (by simp [ImportSet.clause, hne]) ?_
      rwa [ofEntry, if_neg (by simpa using hne)]
  · constructor
    · rintro ⟨line, hline, i, hi, -, -, hdefault⟩
      obtain ⟨hclause, rfl⟩ := mem_reactImport? hline
      have hheading := (Derives.unique hi (declaredBy_reactEntry hclause)).2
      have heq := (eq_of_heading_eq hheading (by simp [ImportStatement.clause, hdefault])).2.2.1
      have hself : (if Str.contains code "React." then some "React" else none) = some "React" :=
        heq.symm.trans hdefault
      exact (Option.ite_none_right_eq_some.1 hself).1
    · intro hcontains
      have hdefault : (reactEntry code).default? = some "React" := if_pos hcontains
      exact bound_reactImport? (by simp [ImportSet.clause, hdefault]) hdefault

/-- One longer member hides the only use of a name: the effect is not imported. -/
theorem effect_hidden_by_longer_member :
    let isName (n : List Char) := isIdentifier n = true
    let code := "useEffect(load); React.useEffectEvent(save);"
    let lines := (reactImport? code).toList
    ownPlaces code "useEffect" = 1 ∧ longerMembers code "useEffect" = 1 ∧
      ¬ ImportSet.Bound isName lines "react" false ("useEffect" ∈ ·.named?.getD []) ∧
      ImportSet.Bound isName lines "react" false (·.default? = some "React") := by
  intro isName code lines
  have hown : ownPlaces code "useEffect" = 1 := by decide
  have hlonger : longerMembers code "useEffect" = 1 := by decide
  obtain ⟨-, hnames, hdefault⟩ := framework_names_declared_iff code
  refine ⟨hown, hlonger, fun hbound => ?_, hdefault.2 (by decide)⟩
  have hlt := (hnames "useEffect" (by decide)).1 hbound
  rw [hown, hlonger] at hlt
  exact lt_irrefl _ hlt

end Recast.Template
