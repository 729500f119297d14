import Recast.Proofs.Artifact.Exports
import Recast.Proofs.Artifact.Generated
import Recast.Proofs.Artifact.WrittenLines
import Recast.Proofs.Component.StateNames
import Recast.Proofs.Text.Words

/-!
# Members of a store

A store has a value and a setter for each state, and a function that resets it. Its types declare them line
by line (`declaredMembers_renderStore`). A setter that is not given is made up of the name of the state, of
which it keeps the letters and digits alone, so two names may get one setter. Apart from that the members
are distinct unless a state or a setter has the name of another member (`store_members_nodup_iff`).
-/

namespace Recast

open Text

namespace Template

def storeMembers (state : List StateBinding) : List String :=
  state.map (·.name) ++ (state.map (·.setter) ++ ["reset"])

/-! ### What the types of a store declare -/

/-- The names that the lines between two lines declare. -/
def membersBetween (header footer : List Char) (ls : List (List Char)) : List (List Char) :=
  (((ls.dropWhile (· != header)).drop 1).takeWhile (· != footer)).map (·.takeWhile isNameChar)

variable (c : RenderContext)

def valuesHeader : String := "export type " ++ (c.layout.name ++ "StoreValues") ++ " = \x7b"

def stateHeader : String :=
  "export interface " ++ (c.layout.name ++ "StoreState") ++ " extends " ++ (c.layout.name ++ "StoreValues") ++ " \x7b"

/-- The members that the text of a store declares in its two types. -/
def declaredMembers (text : String) : List (List Char) :=
  membersBetween (valuesHeader c).toList "\x7d;".toList (Str.inkLines text) ++
    membersBetween (stateHeader c).toList "\x7d".toList (Str.inkLines text)

/-- A name and a type, on a line. -/
structure Member where
  name : String
  type : String

namespace Member

def line (m : Member) : String := m.name ++ ": " ++ m.type ++ ";"

/-- The name is spelled as one and the type is on one line. -/
structure Plain (m : Member) : Prop where
  name : Spelled m.name
  type : '\n' ∉ m.type.toList

theorem toList_line (m : Member) : m.line.toList = (m.name.toList ++ [':']) ++ ((' ' :: m.type.toList) ++ [';']) := by
  have hcolon : ": ".toList = [':', ' '] := by decide
  have hend : ";".toList = [';'] := by decide
  rw [line, String.toList_append, String.toList_append, String.toList_append, hcolon, hend]
  simp only [List.append_assoc, List.cons_append, List.nil_append]

theorem Plain.isPhrase {m : Member} (h : m.Plain) : IsPhrase m.line.toList := by
  have hink : ∀ c ∈ m.name.toList ++ [':'], isBlank c = false := by
    rw [List.forall_mem_append, List.forall_mem_singleton]
    exact ⟨fun c hc => not_isBlank_of_isNameChar (h.name c hc), by decide⟩
  have hfirst : IsPhrase (m.name.toList ++ [':']) :=
    ⟨fun hfeed => absurd (hink _ hfeed) (by decide), isTight_of_forall hink, by simp⟩
  rw [toList_line]
  exact hfirst.append (by simpa using h.type) (by decide)

theorem takeWhile_line {m : Member} (h : m.Plain) : m.line.toList.takeWhile isNameChar = m.name.toList := by
  have hcolon : isNameChar ':' = false := by decide
  rw [toList_line, List.append_assoc, List.takeWhile_append_of_pos h.name, List.singleton_append,
    List.takeWhile_cons_of_neg (by simp [hcolon]), List.append_nil]

end Member

theorem membersBetween_eq {header footer : List Char} {before : List (List Char)} (rest : List (List Char))
    {ms : List Member} (hbefore : header ∉ before) (hfooter : ':' ∉ footer) (hms : ∀ m ∈ ms, m.Plain) :
    membersBetween header footer (before ++ header :: (ms.map (·.line.toList) ++ footer :: rest)) =
      ms.map (·.name.toList) := by
  have hdrop : (before ++ header :: (ms.map (·.line.toList) ++ footer :: rest)).dropWhile (· != header) =
      header :: (ms.map (·.line.toList) ++ footer :: rest) := by
    have hother : ∀ l ∈ before, (l != header) = true := fun l hl => bne_iff_ne.2 fun heq => hbefore (heq ▸ hl)
    rw [List.dropWhile_append_of_pos hother, List.dropWhile_cons_of_neg (by simp)]
  have hline : ∀ l ∈ ms.map (·.line.toList), (l != footer) = true := by
    intro l hl
    obtain ⟨m, -, rfl⟩ := List.mem_map.1 hl
    have hcolon : ':' ∈ m.line.toList := by
      rw [Member.toList_line]
      simp
    exact bne_iff_ne.2 fun heq => hfooter (heq ▸ hcolon)
  unfold membersBetween
  rw [hdrop, List.drop_one, List.tail_cons, List.takeWhile_append_of_pos hline, List.takeWhile_cons_of_neg (by simp),
    List.append_nil, List.map_map]
  exact List.map_congr_left fun m hm => Member.takeWhile_line (hms m hm)

def valueMembers (state : List StateBinding) : List Member := state.map fun s => ⟨s.name, s.type⟩

def functionMembers (state : List StateBinding) : List Member :=
  state.map (fun s => ⟨s.setter, "(value: " ++ s.type ++ " | ((prev: " ++ s.type ++ ") => " ++ s.type ++ ")) => void"⟩) ++
    [⟨"reset", "() => void"⟩]

theorem map_line_valueMembers (state : List StateBinding) :
    (valueMembers state).map Member.line = state.map fun s => s.name ++ ": " ++ s.type ++ ";" := by
  rw [valueMembers, List.map_map]
  rfl

theorem map_line_functionMembers (state : List StateBinding) :
    (functionMembers state).map Member.line = state.map setterType ++ ["reset: () => void;"] := by
  have hreset : Member.line ⟨"reset", "() => void"⟩ = "reset: () => void;" := by decide
  have hcolon : ": (value: " = ": " ++ "(value: " := by decide
  have hend : ")) => void;" = ")) => void" ++ ";" := by decide
  rw [functionMembers, List.map_append, List.map_map, List.map_singleton, hreset]
  congr 1
  refine List.map_congr_left fun s _ => ?_
  rw [Function.comp_apply, Member.line, setterType, hcolon, hend]
  simp only [String.append_assoc]

/-- A store begins with its two types. -/
theorem exists_inkLines_renderStore : ∃ rest, Str.inkLines (renderStore c) =
    (["import \x7b create \x7d from 'zustand';", valuesHeader c] ++ (valueMembers c.facts.state).map Member.line ++
      ["\x7d;", stateHeader c] ++ (functionMembers c.facts.state).map Member.line ++ ["\x7d"]).flatMap Str.inkLines ++
        rest := by
  have htypes (b : CodeBuilder) : (storeType c (storeValues c b)).inkLines = b.inkLines ++
      ([valuesHeader c] ++ (valueMembers c.facts.state).map Member.line ++ ["\x7d;", stateHeader c] ++
        (functionMembers c.facts.state).map Member.line ++ ["\x7d"]).flatMap Str.inkLines := by
    unfold storeType storeValues
    rw [map_line_valueMembers, map_line_functionMembers]
    simp only [CodeBuilder.inkLines_blank, CodeBuilder.inkLines_block, CodeBuilder.inkLines_line,
      CodeBuilder.inkLines_lineEach, CodeBuilder.inkLines_opening, List.flatMap_append, List.flatMap_cons,
      List.flatMap_nil, List.append_nil, List.append_assoc]
    rfl
  have hinitial (b : CodeBuilder) : ∃ rest, (storeInitial c b).inkLines = b.inkLines ++ rest := by
    have hfold := CodeBuilder.inkLines_foldl
      (fun (b : CodeBuilder) (s : StateBinding) => b.inkLines_lines (s.name ++ ": " ++ initialValue s ++ ","))
      c.facts.state
    unfold storeInitial
    rw [CodeBuilder.inkLines_blank, CodeBuilder.inkLines_block, hfold, CodeBuilder.inkLines_opening]
    simp only [List.append_assoc]
    exact ⟨_, rfl⟩
  have hhook (b : CodeBuilder) : ∃ rest, (storeHookPart c b).inkLines = b.inkLines ++ rest := by
    unfold storeHookPart
    rw [CodeBuilder.inkLines_block, CodeBuilder.inkLines_line, CodeBuilder.inkLines_lineEach,
      CodeBuilder.inkLines_line, CodeBuilder.inkLines_opening]
    simp only [List.append_assoc]
    exact ⟨_, rfl⟩
  obtain ⟨rest, hrest⟩ := hinitial (storeType c (storeValues c
    (CodeBuilder.line {} "import \x7b create \x7d from 'zustand';").blank))
  obtain ⟨rest', hrest'⟩ := hhook (storeInitial c (storeType c (storeValues c
    (CodeBuilder.line {} "import \x7b create \x7d from 'zustand';").blank)))
  refine ⟨rest ++ rest', ?_⟩
  rw [renderStore_eq, CodeBuilder.inkLines_build, hrest', hrest, htypes, CodeBuilder.inkLines_blank,
    CodeBuilder.inkLines_line]
  simp only [List.flatMap_append, List.flatMap_cons, List.append_assoc, CodeBuilder.inkLines_empty, List.nil_append]

variable {c}

theorem last_of_line (m : Member) : m.line.toList.getLast? = some ';' := by
  rw [Member.toList_line, List.getLast?_append, List.getLast?_append]
  rfl

theorem isPhrase_header {s : String} (h : '\n' ∉ s.toList) : IsPhrase ("export" ++ (s ++ "\x7b")).toList := by
  rw [String.toList_append, String.toList_append]
  exact IsPhrase.append (by decide) h (by decide)

theorem valuesHeader_eq (c : RenderContext) :
    valuesHeader c = "export" ++ ((" type " ++ (c.layout.name ++ ("StoreValues" ++ " = "))) ++ "\x7b") := by
  have hstart : "export type " = "export" ++ " type " := by decide
  have hend : " = \x7b" = " = " ++ "\x7b" := by decide
  unfold valuesHeader
  rw [hstart, hend]
  simp only [String.append_assoc]

theorem stateHeader_eq (c : RenderContext) : stateHeader c = "export" ++ ((" interface " ++ (c.layout.name ++
    ("StoreState" ++ (" extends " ++ (c.layout.name ++ ("StoreValues" ++ " ")))))) ++ "\x7b") := by
  have hstart : "export interface " = "export" ++ " interface " := by decide
  have hend : " \x7b" = " " ++ "\x7b" := by decide
  unfold stateHeader
  rw [hstart, hend]
  simp only [String.append_assoc]

theorem isPhrase_headers (hclean : c.layout.Clean) :
    IsPhrase (valuesHeader c).toList ∧ IsPhrase (stateHeader c).toList := by
  have hname := hclean.isName_name.not_mem (x := '\n') (by decide)
  rw [valuesHeader_eq, stateHeader_eq]
  constructor
  · refine isPhrase_header ?_
    simp only [String.toList_append, List.mem_append, not_or]
    exact ⟨by decide, hname, by decide, by decide⟩
  · refine isPhrase_header ?_
    simp only [String.toList_append, List.mem_append, not_or]
    exact ⟨by decide, hname, by decide, by decide, hname, by decide, by decide⟩

theorem last_of_header {header s : String} (h : header = "export" ++ (s ++ "\x7b")) :
    header.toList.getLast? = some '\x7b' := by
  rw [h, String.toList_append, String.toList_append, ← List.append_assoc, List.getLast?_append]
  rfl

/-- A header is no line that ends with a semicolon. -/
theorem ne_of_last {header line : List Char} (hheader : header.getLast? = some '\x7b')
    (hline : line.getLast? = some ';') :
    line ≠ header := by
  rintro rfl
  rw [hline] at hheader
  exact absurd hheader (by decide)

theorem stateHeader_not_mem (values : List Member) : (stateHeader c).toList ∉
    ["import \x7b create \x7d from 'zustand';".toList, (valuesHeader c).toList] ++ values.map (·.line.toList) ++
      ["\x7d;".toList] := by
  have hstart (t : String) : ("export" ++ t).toList.take 9 = "export".toList ++ t.toList.take 3 := by
    rw [String.toList_append, List.take_append]
    rfl
  have hvalues : (stateHeader c).toList ≠ (valuesHeader c).toList := by
    intro heq
    have htake := congrArg (List.take 9) heq
    rw [stateHeader_eq, valuesHeader_eq, hstart, hstart] at htake
    simp at htake
  have hother {l : List Char} (hl : l.getLast? = some ';') : (stateHeader c).toList ≠ l :=
    (ne_of_last (last_of_header (stateHeader_eq c)) hl).symm
  simp only [List.mem_append, List.mem_cons, List.mem_map, List.not_mem_nil, or_false, not_or, not_exists, not_and]
  exact ⟨⟨⟨hother (by decide), hvalues⟩, fun m _ => (hother (last_of_line m)).symm⟩, hother (by decide)⟩

theorem plain_members {state : List StateBinding} (hstate : ∀ s ∈ state, s.WellFormed) :
    (∀ m ∈ valueMembers state, m.Plain) ∧ ∀ m ∈ functionMembers state, m.Plain := by
  unfold valueMembers functionMembers
  simp only [List.forall_mem_append, List.forall_mem_map, List.forall_mem_singleton]
  refine ⟨fun s hs => ⟨(hstate s hs).name, (hstate s hs).feed_not_mem_type⟩, fun s hs => ⟨(hstate s hs).setter, ?_⟩, ?_⟩
  · have htype := (hstate s hs).feed_not_mem_type
    simp only [String.toList_append, List.mem_append, not_or]
    exact ⟨⟨⟨⟨⟨⟨by decide, htype⟩, by decide⟩, htype⟩, by decide⟩, htype⟩, by decide⟩
  · have hreset : IsName "reset" := by decide
    exact ⟨fun c hc => Bool.or_eq_true_iff.2 (.inl (hreset c hc)), by decide⟩

/-- The types of a store declare its members. -/
theorem declaredMembers_renderStore (hclean : c.layout.Clean)
    (hstate : ∀ s ∈ c.facts.state, s.WellFormed) :
    declaredMembers c (renderStore c) = (storeMembers c.facts.state).map String.toList := by
  obtain ⟨hvalues, hfunctions⟩ := plain_members hstate
  obtain ⟨hvaluesHeader, hstateHeader⟩ := isPhrase_headers hclean
  obtain ⟨rest, hlines⟩ := exists_inkLines_renderStore c
  have hmembers {ms : List Member} (hms : ∀ m ∈ ms, m.Plain) :
      (ms.map Member.line).flatMap Str.inkLines = ms.map (·.line.toList) := by
    rw [List.flatMap_map]
    induction ms with
    | nil => rfl
    | cons m ms ih =>
      obtain ⟨hm, hms⟩ := List.forall_mem_cons.1 hms
      rw [List.flatMap_cons, ih hms, Str.inkLines, hm.isPhrase.inkLines]
      rfl
  have hline {s : String} (hs : IsPhrase s.toList) : Str.inkLines s = [s.toList] := hs.inkLines
  have himport : IsPhrase "import \x7b create \x7d from 'zustand';".toList := by decide
  have hclose : IsPhrase "\x7d;".toList ∧ IsPhrase "\x7d".toList := by decide
  simp only [List.flatMap_append, List.flatMap_cons, List.flatMap_nil, List.append_nil, hmembers hvalues,
    hmembers hfunctions, hline hvaluesHeader, hline hstateHeader, hline himport, hline hclose.1, hline hclose.2] at hlines
  have hvalues_notMem : (valuesHeader c).toList ∉ ["import \x7b create \x7d from 'zustand';".toList] :=
    fun hmem => ne_of_last (last_of_header (valuesHeader_eq c)) (by decide) (List.mem_singleton.1 hmem).symm
  have hfooters : ':' ∉ "\x7d;".toList ∧ ':' ∉ "\x7d".toList := by decide
  have hfirst := membersBetween_eq
    ((stateHeader c).toList :: ((functionMembers c.facts.state).map (·.line.toList) ++ "\x7d".toList :: rest))
    hvalues_notMem hfooters.1 hvalues
  have hsecond := membersBetween_eq rest (stateHeader_not_mem (c := c) (valueMembers c.facts.state)) hfooters.2 hfunctions
  simp only [List.append_assoc, List.cons_append, List.nil_append] at hlines hfirst hsecond
  rw [declaredMembers, hlines, hfirst, hsecond]
  simp [storeMembers, valueMembers, functionMembers, Function.comp_def]

theorem nodup_storeMembers_iff {state : List StateBinding} (hnames : (state.map (·.name)).Nodup) :
    (storeMembers state).Nodup ↔ (state.map (·.setter)).Nodup ∧ (∀ s ∈ state, ∀ t ∈ state, s.setter ≠ t.name) ∧
      ∀ s ∈ state, s.name ≠ "reset" ∧ s.setter ≠ "reset" := by
  unfold storeMembers
  rw [List.nodup_append, List.nodup_append]
  simp only [List.mem_append, List.mem_map, List.mem_singleton, List.nodup_singleton]
  constructor
  · rintro ⟨-, ⟨hsetters, -, hreset⟩, hapart⟩
    refine ⟨hsetters, fun s hs t ht heq => ?_, fun s hs => ⟨?_, ?_⟩⟩
    · exact hapart t.name ⟨t, ht, rfl⟩ s.setter (.inl ⟨s, hs, rfl⟩) heq.symm
    · exact hapart s.name ⟨s, hs, rfl⟩ "reset" (.inr rfl)
    · exact hreset s.setter ⟨s, hs, rfl⟩ "reset" rfl
  · rintro ⟨hsetters, hapart, hreset⟩
    refine ⟨hnames, ⟨hsetters, trivial, ?_⟩, ?_⟩
    · rintro _ ⟨s, hs, rfl⟩ _ rfl
      exact (hreset s hs).2
    · rintro _ ⟨t, ht, rfl⟩ _ (⟨s, hs, rfl⟩ | rfl)
      · exact (hapart s hs t ht).symm
      · exact (hreset t ht).1

end Template

namespace StateBinding

/-- A setter that is not given is made of the letters and digits of the name. -/
theorem setter_eq_of_none {s : StateBinding} (h : s.setter? = none) :
    s.setter = "set" ++ String.ofList ((alphanumRuns s.name.toList).flatMap capitalize) := by
  rw [setter, h, Option.getD_none, pascalCase_eq_flatMap]

theorem setter_eq_iff_of_none {s t : StateBinding} (hs : s.setter? = none) (ht : t.setter? = none) :
    s.setter = t.setter ↔
      (alphanumRuns s.name.toList).flatMap capitalize = (alphanumRuns t.name.toList).flatMap capitalize := by
  rw [setter_eq_of_none hs, setter_eq_of_none ht, ← String.toList_inj, String.toList_append, String.toList_append,
    List.append_cancel_left_eq, String.toList_ofList, String.toList_ofList]

theorem setter_ne_reset_of_none {s : StateBinding} (h : s.setter? = none) : s.setter ≠ "reset" := by
  rw [setter_eq_of_none h]
  intro heq
  have hhead := congrArg (·.toList.head?) heq
  simp at hhead

end StateBinding

open Template in
/-- The types of a generated store declare a value and a setter for each state, and `reset`. Where the states
have distinct names, the members are distinct exactly if the setters are, no setter has the name of a state,
and no state or setter has the name `reset`. A setter that is not given is never `reset`, and two of them are
equal exactly if the names are made of the same letters and digits, each stretch of these begun with a
capital. -/
theorem store_members_nodup_iff {config : Config} {f : Facts} {files : List GeneratedFile}
    (hfiles : ({ config } : Synthesizer).generate f = .ok files)
    (hstore : (({ config } : Synthesizer).plan f).store = true) (hnames : (f.state.map (·.name)).Nodup) :
    ∃ store ∈ files, store.kind = .store ∧
      ((∀ s ∈ f.state, s.WellFormed) →
        declaredMembers (contextOf config f) store.content = (storeMembers f.state).map String.toList) ∧
      ((storeMembers f.state).Nodup ↔ (f.state.map (·.setter)).Nodup ∧
        (∀ s ∈ f.state, ∀ t ∈ f.state, s.setter ≠ t.name) ∧ ∀ s ∈ f.state, s.name ≠ "reset" ∧ s.setter ≠ "reset") ∧
      ∀ s ∈ f.state, s.setter? = none → s.setter ≠ "reset" ∧
        ∀ t ∈ f.state, t.setter? = none → (s.setter = t.setter ↔
          (alphanumRuns s.name.toList).flatMap capitalize = (alphanumRuns t.name.toList).flatMap capitalize) := by
  obtain ⟨hname, rfl⟩ := Synthesizer.generate_eq_ok_iff.1 hfiles
  have hclean : (contextOf config f).layout.Clean := ArtifactLayout.clean_ofName hname
  have hkind : ArtifactKind.store ∈ (contextOf config f).kinds := RenderContext.mem_kinds_iff.2 hstore
  exact ⟨(contextOf config f).artifact .store, List.mem_map_of_mem hkind, rfl, declaredMembers_renderStore hclean,
    nodup_storeMembers_iff hnames, fun s _ hs => ⟨StateBinding.setter_ne_reset_of_none hs,
      fun t _ ht => StateBinding.setter_eq_iff_of_none hs ht⟩⟩

def twoSpellings : String := "class Panel extends React.Component \x7b
  state = \x7b user_name: '', userName: '', open: false \x7d;
  render() \x7b
    return <p />;
  \x7d
\x7d
"

open Template in
/-- Two spellings of one name get one setter. -/
theorem twoSpellings_share_setter : ∃ f files, Facts.analyze twoSpellings none = .ok f ∧
    ({ config := {} } : Synthesizer).generate f = .ok files ∧ (f.state.map (·.name)).Nodup ∧
    ∃ store ∈ files, store.kind = .store ∧ ¬ (declaredMembers (contextOf {} f) store.content).Nodup := by
  have hanalyze : ∃ f, Facts.analyze twoSpellings none = .ok f ∧
      (isIdentifier (contextOf {} f).layout.name.toList && (({ config := {} } : Synthesizer).plan f).store &&
        decide (f.state.map (·.name) = ["user_name", "userName", "open"]) &&
        decide (f.state.map (·.setter) = ["setUserName", "setUserName", "setOpen"])) = true := by
    refine Facts.exists_of_analyze (by unfold twoSpellings; rfl) fun s hs => ?_
    unfold Facts.analyze
    rw [hs]
    decide +kernel
  obtain ⟨f, ha, hrun⟩ := hanalyze
  simp only [Bool.and_eq_true, decide_eq_true_eq] at hrun
  obtain ⟨⟨⟨hname, hstore⟩, hnames⟩, hsetters⟩ := hrun
  have hfiles := Synthesizer.generate_eq_ok_iff.2 ⟨hname, rfl⟩
  have hdistinct : (f.state.map (·.name)).Nodup := by
    rw [hnames]
    decide
  obtain ⟨store, hmem, hkind, hdeclared, hnodup, -⟩ := store_members_nodup_iff hfiles hstore hdistinct
  refine ⟨f, _, ha, hfiles, hdistinct, store, hmem, hkind, fun h => ?_⟩
  rw [hdeclared (Facts.wellFormed_of_analyze ha)] at h
  have hshared := (hnodup.1 (List.Nodup.of_map _ h)).1
  rw [hsetters] at hshared
  exact absurd hshared (by decide)

end Recast
