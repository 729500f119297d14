import Mathlib.Logic.Basic
import Recast.Component.Analysis
import Recast.Proofs.Pattern.Groups
import Recast.Proofs.Text.Pieces

/-!
# Entries that cannot be cut

The value of an entry is looked for one separator past a piece of it, and that place is
counted from the start of the entry. Where blank pieces come first it may lie inside a
character. Main statement: the facts about a component cannot be read exactly if one of
the entries taken apart for them is such an entry. Every group that is asked for takes part
in its match, and all matches lie in the text.
-/

namespace Recast

theorem Fault.eq_noBoundary (e : Fault) : e = .noBoundary := by
  cases e
  rfl

theorem bind_eq_error_iff {α β : Type} {x : Except Fault α} {f : α → Except Fault β} :
    x >>= f = .error .noBoundary ↔
      x = .error .noBoundary ∨ ∃ a, x = .ok a ∧ f a = .error .noBoundary := by
  cases x with
  | error e => simp [bind, Except.bind]
  | ok a => simp [bind, Except.bind]

theorem map_eq_error_iff {α β : Type} {x : Except Fault α} {f : α → β} :
    (do return f (← x)) = (.error .noBoundary : Except Fault β) ↔ x = .error .noBoundary := by
  cases x with
  | error e => simp [bind, Except.bind]
  | ok a => simp [bind, Except.bind, pure, Except.pure]

/-- Of two parts one after the other, where the fault of the second does not hang on what the
first gives, one fails. -/
theorem bind_eq_error_iff_or {α β : Type} {x : Except Fault α} {f : α → Except Fault β} {q : Prop}
    (h : ∀ a, x = .ok a → (f a = .error .noBoundary ↔ q)) :
    x >>= f = .error .noBoundary ↔ x = .error .noBoundary ∨ q := by
  rw [bind_eq_error_iff]
  cases x with
  | error e => simp [Fault.eq_noBoundary e]
  | ok a => simp [h a rfl]

/-- Lists are gone through to the end unless an element fails. -/
theorem mapM_eq_error_iff {α β : Type} {f : α → Except Fault β} {xs : List α} :
    xs.mapM f = .error .noBoundary ↔ ∃ x ∈ xs, f x = .error .noBoundary := by
  induction xs with
  | nil => simp [pure, Except.pure]
  | cons x xs ih =>
    rw [List.mapM_cons, bind_eq_error_iff]
    constructor
    · rintro (hx | ⟨a, -, h⟩)
      · exact ⟨x, List.mem_cons_self, hx⟩
      · obtain ⟨y, hy, hf⟩ := ih.1 (map_eq_error_iff.1 h)
        exact ⟨y, List.mem_cons_of_mem _ hy, hf⟩
    · rintro ⟨y, hy, hf⟩
      cases hx : f x with
      | error e => exact .inl rfl
      | ok a =>
        rcases List.mem_cons.1 hy with rfl | hy
        · rw [hx] at hf
          cases hf
        · exact .inr ⟨a, rfl, map_eq_error_iff.2 (ih.2 ⟨y, hy, hf⟩)⟩

namespace Entry

open Text

/-- The value of the entry is looked for after this piece: the first between colons if a
second follows and it ends before the first equals sign, else the first before an equals
sign that a second follows. -/
inductive KeyPiece (entry : List Char) : List Char → Prop
  | colon {key next value rest others} (hc : splitTopLevel ':' entry = key :: next :: rest)
      (he : splitTopLevel '=' entry = value :: others) (hlt : byteLength key < byteLength value) :
      KeyPiece entry key
  | equals {key next rest} (he : splitTopLevel '=' entry = key :: next :: rest)
      (hc : ∀ first second others, splitTopLevel ':' entry = first :: second :: others →
        byteLength key ≤ byteLength first) :
      KeyPiece entry key

/-- The default in a value is looked for after this piece. -/
def NamePiece (value name : List Char) : Prop :=
  ∃ next rest, splitTopLevel '=' value = name :: next :: rest ∧ isIdentifier (trim name) = true ∧
    contains value "=>".toList = false

/-- One separator past its key, or past the name in its value, a character is cut. -/
inductive CutInside (entry : List Char) : Prop
  | value {key} (hk : KeyPiece entry key) (hcut : CutsChar (byteLength key + 1) entry)
  | default {key before value name} (hk : KeyPiece entry key) (hentry : entry = before ++ value)
      (hb : byteLength before = byteLength key + 1) (hn : NamePiece (trim value) name)
      (hcut : CutsChar (byteLength name + 1) (trim value))

/-- The entries between the braces that are taken apart. -/
def listed (inner : List Char) : List (List Char) :=
  ((splitTopLevel ',' inner).map trim).filter (!startsWith · "...".toList)

theorem KeyPiece.succ_le {entry key : List Char} (h : KeyPiece entry key) :
    byteLength key + 1 ≤ byteLength entry := by
  cases h with
  | colon hc he hlt => exact byteLength_succ_le_of_splitTopLevel hc
  | equals he hc => exact byteLength_succ_le_of_splitTopLevel he

theorem NamePiece.succ_le {value name : List Char} (h : NamePiece value name) :
    byteLength name + 1 ≤ byteLength value := by
  obtain ⟨next, rest, he, -, -⟩ := h
  exact byteLength_succ_le_of_splitTopLevel he

/-- The cut after a piece that another follows fails only inside a character. -/
theorem afterPiece_eq_error_iff {piece text : List Char} (h : byteLength piece + 1 ≤ byteLength text) :
    afterPiece piece text = .error .noBoundary ↔ CutsChar (byteLength piece + 1) text := by
  unfold afterPiece dropBytes
  rw [map_eq_error_iff, splitBytes_eq_error_iff]
  constructor
  · rintro (hlt | hcut)
    · omega
    · exact hcut
  · exact .inr

theorem afterPiece_eq_ok_iff {piece text value : List Char} :
    afterPiece piece text = .ok value ↔
      ∃ before, text = before ++ value ∧ byteLength before = byteLength piece + 1 := by
  unfold afterPiece dropBytes
  constructor
  · intro h
    obtain ⟨⟨before, after⟩, hs, hv⟩ := bind_eq_ok.1 h
    cases hv
    exact ⟨before, exists_of_splitBytes_eq_ok hs⟩
  · rintro ⟨before, rfl, hb⟩
    rw [← hb, splitBytes_append]
    rfl

/-- The key of an entry ends at its key piece, if it has one. -/
theorem cut_eq (entry : List Char) :
    (∃ key, KeyPiece entry key ∧
      cut entry = do return (trim key, some (trim (← afterPiece key entry)))) ∨
    ((∀ key, ¬ KeyPiece entry key) ∧ cut entry = .ok (entry, none)) := by
  unfold cut
  split
  · rename_i first second others value rest hc he
    split
    · rename_i hlt
      exact .inl ⟨first, .colon hc he hlt, rfl⟩
    · rename_i hlt
      cases rest with
      | nil =>
        refine .inr ⟨?_, rfl⟩
        intro key hk
        cases hk with
        | colon hc' he' hlt' =>
          rw [hc] at hc'
          rw [he] at he'
          cases hc'
          cases he'
          exact hlt hlt'
        | equals he' => simp_all
      | cons next rest =>
        refine .inl ⟨value, .equals he ?_, rfl⟩
        intro first' second' others' hc'
        rw [hc] at hc'
        cases hc'
        omega
  · rename_i key next rest he hnone
    refine .inl ⟨key, .equals he ?_, rfl⟩
    intro first second others hc
    exact (hnone first second others hc).elim
  · rename_i hnone hboth
    refine .inr ⟨?_, rfl⟩
    intro key hk
    cases hk with
    | colon hc he hlt => exact hboth _ _ _ _ _ hc he
    | equals he hc => exact hnone _ _ _ he

theorem KeyPiece.unique {entry key key' : List Char} (h : KeyPiece entry key)
    (h' : KeyPiece entry key') : key = key' := by
  cases h with
  | colon hc he hlt =>
    cases h' with
    | colon hc' he' hlt' => simp_all
    | equals he' hc' =>
      have hle := hc' _ _ _ hc
      rw [he] at he'
      cases he'
      omega
  | equals he hc =>
    cases h' with
    | colon hc' he' hlt' =>
      have hle := hc _ _ _ hc'
      rw [he] at he'
      cases he'
      omega
    | equals he' hc' => simp_all

theorem defaultIn_eq_error_iff {value : List Char} :
    defaultIn value = .error .noBoundary ↔
      ∃ name, NamePiece value name ∧ CutsChar (byteLength name + 1) value := by
  unfold defaultIn
  split
  · rename_i name next rest he
    split
    · rename_i hname
      simp only [Bool.and_eq_true, Bool.not_eq_true'] at hname
      have hpiece : NamePiece value name := ⟨next, rest, he, hname⟩
      rw [map_eq_error_iff, afterPiece_eq_error_iff hpiece.succ_le]
      constructor
      · exact fun hcut => ⟨name, hpiece, hcut⟩
      · rintro ⟨name', ⟨next', rest', he', -⟩, hcut⟩
        rw [he] at he'
        cases he'
        exact hcut
    · rename_i hname
      refine iff_of_false (fun h => by cases h) ?_
      rintro ⟨name', ⟨next', rest', he', hid, harrow⟩, -⟩
      rw [he] at he'
      cases he'
      exact hname (by simp only [hid, harrow]; rfl)
  · rename_i hnone
    refine iff_of_false (fun h => by cases h) ?_
    rintro ⟨name, ⟨next, rest, he, -⟩, -⟩
    exact hnone _ _ _ he

/-- An entry cannot be read exactly if a character of it is cut. -/
theorem read_eq_error_iff {entry : List Char} : read entry = .error .noBoundary ↔ CutInside entry := by
  unfold read
  rw [bind_eq_error_iff]
  rcases cut_eq entry with ⟨key, hk, hcut⟩ | ⟨hnone, hcut⟩
  · rw [hcut, map_eq_error_iff, afterPiece_eq_error_iff hk.succ_le]
    constructor
    · rintro (h | ⟨a, ha, h⟩)
      · exact .value hk h
      · obtain ⟨value, hv, hp⟩ := bind_eq_ok.1 ha
        obtain ⟨before, hentry, hb⟩ := afterPiece_eq_ok_iff.1 hv
        cases hp
        rcases bind_eq_error_iff.1 h with hd | ⟨_, -, h⟩
        · obtain ⟨name, hn, hc⟩ := defaultIn_eq_error_iff.1 hd
          exact .default hk hentry hb hn hc
        · cases h
    · intro h
      cases h with
      | value hk' h => exact .inl (hk.unique hk' ▸ h)
      | @default key' before value name hk' hentry hb hn hc =>
        obtain rfl := hk.unique hk'
        have hv : afterPiece key entry = .ok value := afterPiece_eq_ok_iff.2 ⟨before, hentry, hb⟩
        refine .inr ⟨(trim key, some (trim value)), by rw [hv]; rfl, bind_eq_error_iff.2 (.inl ?_)⟩
        exact defaultIn_eq_error_iff.2 ⟨name, hn, hc⟩
  · rw [hcut]
    refine iff_of_false ?_ ?_
    · rintro (h | ⟨a, ha, h⟩)
      · cases h
      · cases ha
        cases h
    · intro h
      cases h with
      | value hk => exact hnone _ hk
      | default hk => exact hnone _ hk

theorem all_eq_error_iff {inner : List Char} :
    all inner = .error .noBoundary ↔ ∃ entry ∈ listed inner, CutInside entry := by
  unfold all
  rw [map_eq_error_iff, mapM_eq_error_iff]
  simp only [read_eq_error_iff]
  rfl

/-- The text starts with a blank piece, which is left out of its pieces. -/
def StartsBlank (sep : Char) (text : List Char) : Prop :=
  ∃ piece rest, rawPieces sep 0 (mark text) = piece :: rest ∧ isBlankText piece = true

theorem startsBlank_of_cutsChar {sep : Char} (hsep : sep.utf8Size = 1) {text piece : List Char}
    {rest : List (List Char)} (h : splitTopLevel sep text = piece :: rest)
    (hcut : CutsChar (byteLength piece + 1) text) : StartsBlank sep text := by
  obtain ⟨first, others, hraw⟩ := exists_rawPieces_eq_cons sep 0 (mark text)
  refine ⟨first, others, hraw, ?_⟩
  by_cases hb : isBlankText first = true
  · exact hb
  · have hsplit : splitTopLevel sep text = first :: others.filter (!isBlankText ·) := by
      unfold splitTopLevel
      rw [hraw, List.filter_cons_of_pos (by simpa using hb)]
    obtain ⟨rfl, -⟩ := List.cons.inj (h.symm.trans hsplit)
    exact absurd hcut (not_cutsChar_of_rawPieces hsep hraw)

/-- An entry that cannot be read holds a character of several bytes, and it or the value in
it starts with a blank piece. -/
theorem CutInside.startsBlank {entry : List Char} (h : CutInside entry) :
    (∃ c ∈ entry, 1 < c.utf8Size) ∧
      (StartsBlank ':' entry ∨ StartsBlank '=' entry ∨
        ∃ before value, entry = before ++ value ∧ StartsBlank '=' (trim value)) := by
  cases h with
  | value hk hcut =>
    refine ⟨hcut.exists_mem, ?_⟩
    cases hk with
    | colon hc => exact .inl (startsBlank_of_cutsChar rfl hc hcut)
    | equals he => exact .inr (.inl (startsBlank_of_cutsChar rfl he hcut))
  | @default key before value name hk hentry hb hn hcut =>
    obtain ⟨c, hc, hsize⟩ := hcut.exists_mem
    obtain ⟨next, rest, he, -⟩ := hn
    refine ⟨⟨c, ?_, hsize⟩, .inr (.inr ⟨before, value, hentry, startsBlank_of_cutsChar rfl he hcut⟩)⟩
    rw [hentry]
    exact List.mem_append_right _ (mem_of_mem_trim hc)

end Entry

open Text Pattern.Component

namespace FoundProp

/-- The text between the braces of the first parameter. -/
def bracesOf? (params : List Char) : Option (List Char) :=
  match (splitTopLevel ',' params).head?.map trim with
  | none => none
  | some param => if param.head? == some '{' then (enclosed? param).map Prod.fst else none

/-- The name of the first parameter, unless it has braces. -/
def objectOf? (params : List Char) : Option (List Char) :=
  match (splitTopLevel ',' params).head?.map trim with
  | none => none
  | some param =>
    let object := trim (param.takeWhile fun c => c != ':' && c != '=')
    if param.head? == some '{' then none else if isIdentifier object then some object else none

/-- The braces in which names are taken out of the props object. -/
def bracesThrough (body object : List Char) : List (List Char) :=
  ((destructuringOf object).matchesOf body).map (·.groupText body 1)

theorem ofParams_eq (params : List Char) :
    ofParams params =
      match bracesOf? params with
      | none => .ok (objectOf? params, [])
      | some inside => do return (objectOf? params, ofEntries 1 (← Entry.all inside)) := by
  unfold ofParams bracesOf? objectOf?
  cases (splitTopLevel ',' params).head?.map trim with
  | none => rfl
  | some param =>
    by_cases hbrace : (param.head? == some '{') = true
    · simp only [hbrace, if_true]
      cases enclosed? param <;> rfl
    · simp only [hbrace]
      rfl

theorem ofParams_eq_error_iff {params : List Char} :
    ofParams params = .error .noBoundary ↔
      ∃ inside ∈ (bracesOf? params).toList, Entry.all inside = .error .noBoundary := by
  rw [ofParams_eq]
  cases bracesOf? params with
  | none => simp
  | some inside =>
    rw [map_eq_error_iff]
    simp

theorem object_of_ofParams {params : List Char} {object? : Option (List Char)}
    {taken : List FoundProp} (h : ofParams params = .ok (object?, taken)) :
    object? = objectOf? params := by
  rw [ofParams_eq] at h
  cases hb : bracesOf? params with
  | none =>
    rw [hb] at h
    cases h
    rfl
  | some inside =>
    rw [hb] at h
    obtain ⟨es, -, h⟩ := bind_eq_ok.1 h
    cases h
    rfl

theorem throughAlias_eq_error_iff {body object : List Char} :
    throughAlias body object = .error .noBoundary ↔
      ∃ inside ∈ bracesThrough body object, Entry.all inside = .error .noBoundary := by
  unfold throughAlias bracesThrough
  rw [map_eq_error_iff, mapM_eq_error_iff]
  simp only [map_eq_error_iff, List.mem_map, exists_exists_and_eq_and]

end FoundProp

theorem PropTable.complete_eq_error_iff {text component : List Char} {navigation : Bool}
    {found : List FoundProp} :
    complete text component navigation found = .error .noBoundary ↔
      ∃ inside ∈ DeclaredProp.blockEntries defaultPropsBlock text component,
        Entry.all inside = .error .noBoundary := by
  unfold complete
  rw [map_eq_error_iff, mapM_eq_error_iff]

/-- The text between the braces of the state object of a class. -/
def StateBinding.bracesOf? (classBody : List Char) : Option (List Char) :=
  match classState.find? classBody with
  | none => none
  | some m => (enclosed? (classBody.drop (m.stop - 1))).map Prod.fst

theorem StateBinding.ofClass_eq_error_iff {classBody : List Char} :
    ofClass classBody = .error .noBoundary ↔
      ∃ inside ∈ (bracesOf? classBody).toList, Entry.all inside = .error .noBoundary := by
  unfold ofClass bracesOf?
  cases classState.find? classBody with
  | none => simp [pure, Except.pure]
  | some m =>
    dsimp only
    cases enclosed? (classBody.drop (m.stop - 1)) with
    | none => simp [pure, Except.pure]
    | some inside =>
      dsimp only
      rw [map_eq_error_iff]
      simp

namespace Facts

/-- The braces taken apart for a function component. -/
def bracesOfFunction (text name : List Char) (scope : Scope) : List (List Char) :=
  (scope.params?.bind FoundProp.bracesOf?).toList ++
    FoundProp.bracesThrough scope.bodyText
      ((scope.params?.bind FoundProp.objectOf?).getD "props".toList) ++
    DeclaredProp.blockEntries defaultPropsBlock text name

/-- The braces taken apart for a class. -/
def bracesOfClass (text name : List Char) (d : Declaration) : List (List Char) :=
  match indexOf? (text.drop d.resume) ['{'] with
  | none => []
  | some i =>
    let (classBody, _) := Callable.enclosedOrRest (text.drop (d.resume + i))
    FoundProp.bracesThrough classBody "props".toList ++
      (StateBinding.bracesOf? classBody).toList ++
      DeclaredProp.blockEntries defaultPropsBlock text name

def bracesOfDeclaration (text name : List Char) (d? : Option Declaration) : List (List Char) :=
  match d? with
  | some d =>
    if d.kind == .classBody then bracesOfClass text name d
    else bracesOfFunction text name ((Scope.of? text d).getD (Scope.ofText text))
  | none => bracesOfFunction text name (Scope.ofText text)

/-- The entries that are taken apart for the facts about the component in the source. A
source without a component has none. -/
def entriesRead (source : String) (declared? : Option String) : List (List Char) :=
  let text := blankComments source.toList
  let declared := (declared?.map fun n => trim n.toList).filter (!·.isEmpty)
  let declaration? := Declaration.find? text declared
  let exported? := Declaration.exported? text
  let name := (nameOf declared declaration? exported?).1
  if isBlankText text || (declaration?.isNone && exported?.isNone) then []
  else (bracesOfDeclaration text name.toList declaration?).flatMap Entry.listed

theorem withProps_eq_error_iff {f : Facts} {text : List Char} {found : List FoundProp} :
    f.withProps text found = .error .noBoundary ↔
      ∃ inside ∈ DeclaredProp.blockEntries defaultPropsBlock text f.name.toList,
        Entry.all inside = .error .noBoundary := by
  unfold withProps
  rw [map_eq_error_iff, PropTable.complete_eq_error_iff]

theorem ofFunction_eq_error_iff {text : List Char} {scope : Scope} {f : Facts} :
    ofFunction text scope f = .error .noBoundary ↔
      ∃ inside ∈ bracesOfFunction text f.name.toList scope, Entry.all inside = .error .noBoundary := by
  unfold ofFunction bracesOfFunction
  simp only [List.mem_append, or_and_right, exists_or, or_assoc]
  rw [← FoundProp.throughAlias_eq_error_iff]
  -- What follows the parameters is the same in both cases, and only the name of the object in
  -- it comes from them.
  cases hs : scope.params? with
  | none =>
    dsimp only
    rw [pure_bind, Option.bind_none, Option.toList_none, or_iff_right (by simp)]
    refine bind_eq_error_iff_or ?_
    intro through _
    exact map_eq_error_iff.trans withProps_eq_error_iff
  | some params =>
    dsimp only
    rw [Option.bind_some, ← FoundProp.ofParams_eq_error_iff]
    refine bind_eq_error_iff_or ?_
    intro ⟨object?, taken⟩ h
    obtain rfl := FoundProp.object_of_ofParams h
    refine bind_eq_error_iff_or ?_
    intro through _
    exact map_eq_error_iff.trans withProps_eq_error_iff

theorem name_withRendering (f : Facts) (r : Rendering) : (f.withRendering r).name = f.name := rfl

theorem name_hookInClass (classBody : List Char) (f : Facts) :
    (hookInClass classBody f).name = f.name := by
  unfold hookInClass
  split <;> rfl

theorem ofClass_eq_error_iff {text : List Char} {d : Declaration} {f : Facts} :
    ofClass text d f = .error .noBoundary ↔
      ∃ inside ∈ bracesOfClass text f.name.toList d, Entry.all inside = .error .noBoundary := by
  unfold ofClass bracesOfClass
  cases indexOf? (text.drop d.resume) ['{'] with
  | none => simp [pure, Except.pure]
  | some i =>
    simp only [List.mem_append, or_and_right, exists_or, or_assoc]
    rw [← FoundProp.throughAlias_eq_error_iff, ← StateBinding.ofClass_eq_error_iff]
    refine bind_eq_error_iff_or ?_
    intro found _
    refine bind_eq_error_iff_or ?_
    intro state _
    refine map_eq_error_iff.trans (withProps_eq_error_iff.trans ?_)
    rw [name_withRendering, name_hookInClass]

theorem ofDeclaration_eq_error_iff {text : List Char} {d? : Option Declaration} {f : Facts} :
    ofDeclaration text d? f = .error .noBoundary ↔
      ∃ inside ∈ bracesOfDeclaration text f.name.toList d?, Entry.all inside = .error .noBoundary := by
  unfold ofDeclaration bracesOfDeclaration
  cases d? with
  | none => exact ofFunction_eq_error_iff
  | some d =>
    dsimp only
    split
    · exact ofClass_eq_error_iff
    · exact ofFunction_eq_error_iff

theorem name_warnings (text : List Char) (f : Facts) : (warnings text f).name = f.name := by
  unfold warnings
  split <;> split <;> rfl

theorem analyze_eq_error_iff (source : String) (declared? : Option String) :
    analyze source declared? = .error .noBoundary ↔
      ∃ entry ∈ entriesRead source declared?, Entry.CutInside entry := by
  unfold analyze entriesRead
  dsimp only
  split
  · simp [pure, Except.pure]
  · rw [bind_eq_error_iff_or (q := False), or_false, ofDeclaration_eq_error_iff]
    · simp only [name_warnings, Entry.all_eq_error_iff, List.mem_flatMap]
      constructor
      · rintro ⟨inside, hinside, entry, hentry, hcut⟩
        exact ⟨entry, ⟨inside, hinside, hentry⟩, hcut⟩
      · rintro ⟨entry, ⟨inside, hinside, hentry⟩, hcut⟩
        exact ⟨inside, hinside, entry, hentry, hcut⟩
    · intro g _
      split <;> exact iff_of_false (fun h => by cases h) id

/-- The groups that are taken out of every match, without asking whether they took part. -/
def fixedGroups : List (Pattern × Nat) :=
  [(defaultExport, 1), (namedExport, 1), (importLine, 2), (requestCall, 1), (lifecycleMethod, 1),
    (anyHook, 1), (stateHook, 1), (reducerHook, 1), (reducerHook, 2), (effectHook, 1),
    (methodHandler, 2), (methodHandler, 3), (propTypeEntry, 1), (propTypeEntry, 2)]

/-- With them those of the two patterns about the props object. -/
def groupsTaken (object : List Char) : List (Pattern × Nat) :=
  (FoundProp.accessTo object, 1) :: (FoundProp.destructuringOf object, 1) :: fixedGroups

theorem sets_of_mem_groupsTaken {object : List Char} {p : Pattern} {i : Nat}
    (h : (p, i) ∈ groupsTaken object) : p.sets i = true := by
  have hfixed : ∀ q ∈ fixedGroups, q.1.sets q.2 = true := by decide +kernel
  simp only [groupsTaken, List.mem_cons, Prod.mk.injEq] at h
  rcases h with ⟨rfl, rfl⟩ | ⟨rfl, rfl⟩ | h
  · unfold FoundProp.accessTo
    split
    · rfl
    · simp [aliasAccess, Pattern.sets_append, Pattern.sets]
  · unfold FoundProp.destructuringOf
    split
    · rfl
    · simp [aliasDestructuring, Pattern.sets_append, Pattern.sets]
  · exact hfixed _ h

/-- The facts about the component in a source are found unless a character of an entry that
is taken apart for them is cut. That takes a character of several bytes, and a blank piece
where the entry or the value in it starts. No place looked for is past the end, and an entry
with two pieces between colons has a first one before an equals sign to compare with. -/
theorem exists_analyze_eq_ok_iff (source : String) (declared? : Option String) :
    ((∃ f, analyze source declared? = .ok f) ↔
      ∀ entry ∈ entriesRead source declared?, ¬ Entry.CutInside entry) ∧
    (∀ entry, Entry.CutInside entry →
      (∃ c ∈ entry, 1 < c.utf8Size) ∧
        (Entry.StartsBlank ':' entry ∨ Entry.StartsBlank '=' entry ∨
          ∃ before value, entry = before ++ value ∧ Entry.StartsBlank '=' (trim value))) ∧
    (∀ entry key, Entry.KeyPiece entry key → byteLength key + 1 ≤ byteLength entry) ∧
    (∀ value name, Entry.NamePiece value name → byteLength name + 1 ≤ byteLength value) ∧
    (∀ entry, 1 < (splitTopLevel ':' entry).length → splitTopLevel '=' entry ≠ []) ∧
    ∀ object p i, (p, i) ∈ groupsTaken object → ∀ text m, p.Found text m →
      ∃ s, m.group? i = some s ∧ s.InText text := by
  refine ⟨?_, fun _ h => h.startsBlank, fun _ _ h => h.succ_le, fun _ _ h => h.succ_le,
    fun _ h => splitTopLevel_ne_nil (by decide) (by decide) h, ?_⟩
  case refine_2 =>
    intro object p i hp text m hm
    obtain ⟨hin, hset⟩ := hm.group i
    obtain ⟨s, hs⟩ := Option.isSome_iff_exists.1 (hset (sets_of_mem_groupsTaken hp))
    exact ⟨s, hs, hin s hs⟩
  have herror := analyze_eq_error_iff source declared?
  cases ha : analyze source declared? with
  | ok f =>
    rw [ha] at herror
    refine iff_of_true ⟨f, rfl⟩ ?_
    intro entry hentry hcut
    cases herror.2 ⟨entry, hentry, hcut⟩
  | error e =>
    rw [ha, Fault.eq_noBoundary e] at herror
    obtain ⟨entry, hentry, hcut⟩ := herror.1 rfl
    refine iff_of_false ?_ (fun h => h entry hentry hcut)
    rintro ⟨f, hf⟩
    cases hf

theorem mem_entriesRead_colonsFirst :
    "::é:b".toList ∈ entriesRead "const A = (\x7b ::é:b \x7d) => <p/>;\n" none := by decide +kernel

theorem cutInside_colonsFirst : Entry.CutInside "::é:b".toList := by
  have hcolon : splitTopLevel ':' "::é:b".toList = ["é".toList, "b".toList] := by decide +kernel
  have hequals : splitTopLevel '=' "::é:b".toList = ["::é:b".toList] := by decide +kernel
  have hkey : Entry.KeyPiece "::é:b".toList "é".toList := .colon hcolon hequals (by decide)
  exact .value hkey ⟨"::".toList, 'é', ":b".toList, by decide, by decide, by decide⟩

/-- In braces with `::é:b` the place one colon past `é` is the middle of that character. -/
theorem colonsFirst_not_read :
    "::é:b".toList ∈ entriesRead "const A = (\x7b ::é:b \x7d) => <p/>;\n" none ∧
      Entry.CutInside "::é:b".toList ∧
      ¬ ∃ f, analyze "const A = (\x7b ::é:b \x7d) => <p/>;\n" none = .ok f := by
  refine ⟨mem_entriesRead_colonsFirst, cutInside_colonsFirst, ?_⟩
  intro hok
  exact (exists_analyze_eq_ok_iff _ _).1.1 hok _ mem_entriesRead_colonsFirst cutInside_colonsFirst

end Facts

end Recast
