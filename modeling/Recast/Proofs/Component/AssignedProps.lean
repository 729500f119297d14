import Mathlib.Data.List.Basic
import Recast.Proofs.Component.EntryCuts
import Recast.Proofs.Component.PropNames

/-!
# Props assigned to a name

The name of a component selects the blocks of prop types and default props that are assigned to
it. What a prop becomes in the table depends on the blocks that name the prop, and on whether
there are prop types at all.
-/

namespace Recast

open Text Pattern.Component

namespace FoundProp

/-- A prop with what is found of it later. -/
def merged (known? : Option FoundProp) (p : FoundProp) : FoundProp :=
  match known? with
  | none => p
  | some q => ⟨q.name, q.default?.or p.default?, max q.hits p.hits⟩

theorem find?_add (props : List FoundProp) (p : FoundProp) (x : List Char) :
    (add props p).find? (·.name == x) =
      if p.name == x then some (merged (props.find? (·.name == x)) p) else props.find? (·.name == x) := by
  unfold add
  split
  · rename_i hknown
    let grown (q : FoundProp) : FoundProp :=
      if q.name == p.name then ⟨q.name, q.default?.or p.default?, max q.hits p.hits⟩ else q
    have hname (q : FoundProp) : (grown q).name = q.name := by
      dsimp only [grown]
      split <;> rfl
    have hfind : (props.map grown).find? (·.name == x) = (props.find? (·.name == x)).map grown := by
      rw [List.find?_map]
      exact congrArg (Option.map grown) (congrArg (props.find? ·) (funext fun q => by
        rw [Function.comp_apply, hname]))
    rw [hfind]
    by_cases hp : p.name = x
    · subst hp
      obtain ⟨q, hq, hname⟩ := List.any_eq_true.1 hknown
      obtain ⟨found, hfound⟩ := Option.isSome_iff_exists.1
        (List.find?_isSome.2 ⟨q, hq, hname⟩ : (props.find? (·.name == p.name)).isSome = true)
      have hsame : (found.name == p.name) = true := by simpa using List.find?_some hfound
      rw [hfound]
      simp only [beq_self_eq_true, if_true, Option.map_some, merged, grown, hsame]
    · rw [if_neg (by simpa using hp)]
      cases hfound : props.find? (·.name == x) with
      | none => rfl
      | some q =>
        have hq : q.name = x := by simpa using List.find?_some hfound
        have hne : (q.name == p.name) = false := by simpa [hq] using Ne.symm hp
        simp only [Option.map_some, grown, hne, Bool.false_eq_true, if_false]
  · rename_i hunknown
    rw [List.find?_append]
    by_cases hp : p.name = x
    · subst hp
      have hnone : props.find? (·.name == p.name) = none := by
        rw [List.find?_eq_none]
        intro q hq hname
        exact hunknown (List.any_eq_true.2 ⟨q, hq, hname⟩)
      simp [hnone, merged]
    · simp [hp]

theorem find?_addAll (props found : List FoundProp) (x : List Char) :
    (addAll props found).find? (·.name == x) =
      (found.filter (·.name == x)).foldl (fun known? p => some (merged known? p))
        (props.find? (·.name == x)) := by
  unfold addAll
  induction found generalizing props with
  | nil => rfl
  | cons p found ih =>
    rw [List.foldl_cons, ih, find?_add, List.filter_cons]
    split <;> rfl

end FoundProp

namespace DeclaredProp

/-- The entries of the block that a match begins. -/
def entriesAt (text : List Char) (m : Match) : List (List Char) :=
  match enclosed? (text.drop (m.stop - 1)) with
  | none => []
  | some (inside, _) => splitTopLevel ',' inside

/-- The entries of the blocks that are assigned to a name. -/
def assigned (p : Pattern) (text owner : List Char) : List (List Char) :=
  (p.matchesOf text).flatMap fun m => if m.groupText? text 1 = some owner then entriesAt text m else []

theorem blockEntries_eq (p : Pattern) (text component : List Char) : blockEntries p text component =
    (p.matchesOf text).flatMap fun m =>
      if (m.groupText? text 1).any (· != component) then [] else entriesAt text m := rfl

/-- What takes nothing from the blocks assigned to the component takes it from those of classes. -/
theorem flatMap_blockEntries {β : Type} {p : Pattern} {text component : List Char} {g : List Char → List β}
    (h : ∀ e ∈ assigned p text component, g e = []) :
    (blockEntries p text component).flatMap g = (p.matchesOf text).flatMap fun m =>
      if (m.groupText? text 1).isNone then (entriesAt text m).flatMap g else [] := by
  rw [blockEntries_eq, List.flatMap_assoc]
  refine List.flatMap_congr fun m hm => ?_
  cases howner : m.groupText? text 1 with
  | none => rfl
  | some owner =>
    by_cases hown : owner = component
    · have hnil : (entriesAt text m).flatMap g = [] := by
        rw [List.flatMap_eq_nil_iff]
        intro e he
        refine h e (List.mem_flatMap.2 ⟨m, hm, ?_⟩)
        rwa [howner, hown, if_pos rfl]
      simp [hown, hnil]
    · simp [hown]

end DeclaredProp

/-- The prop without what is said of its requiredness. -/
def PropSpec.unforced (p : PropSpec) : PropSpec := { p with required := false }

namespace PropTable

open DeclaredProp

/-- The declared types of the entries. -/
def declaredIn (typeEntries : List (List Char)) : List DeclaredProp := typeEntries.filterMap ofEntry?

/-- A prop that the router hands in and no prop types declare. -/
def handedIn (navigation : Bool) (declared : List DeclaredProp) (x : List Char) : Bool :=
  navigation && (routerProps.contains x && !declared.any (·.name == x))

/-- The props that are listed in the table. -/
def listed (navigation : Bool) (found : List FoundProp) (declared : List DeclaredProp)
    (defaults : List Entry) : List FoundProp :=
  (FoundProp.addAll (FoundProp.addAll found (declared.map fun d => ⟨d.name, none, 0⟩))
    (FoundProp.ofEntries 0 defaults)).filter fun p => !handedIn navigation declared p.name

/-- The table for given entries of prop types and default props. -/
def ofBlocks (navigation : Bool) (found : List FoundProp) (typeEntries : List (List Char))
    (defaults : List Entry) : PropTable :=
  let props := listed navigation found (declaredIn typeEntries) defaults
  ⟨props.map (specOf (!typeEntries.isEmpty) (declaredIn typeEntries)), props.map (·.hits)⟩

theorem complete_eq_ok_iff {text component : List Char} {navigation : Bool} {found : List FoundProp}
    {table : PropTable} : complete text component navigation found = .ok table ↔
      ∃ defaults, (blockEntries defaultPropsBlock text component).mapM Entry.all = .ok defaults ∧
        table = ofBlocks navigation found (blockEntries propTypesBlock text component) defaults.flatten := by
  unfold complete ofBlocks listed handedIn declaredIn
  cases (blockEntries defaultPropsBlock text component).mapM Entry.all with
  | error e => simp [bind, Except.bind]
  | ok defaults =>
    cases navigation with
    | false => simp [bind, Except.bind, pure, Except.pure, eq_comm]
    | true => simp [bind, Except.bind, pure, Except.pure, eq_comm]

/-! ### One prop of the table -/

theorem find?_listed (navigation : Bool) (found : List FoundProp) (declared : List DeclaredProp)
    (defaults : List Entry) (x : List Char) :
    (listed navigation found declared defaults).find? (·.name == x) =
      if handedIn navigation declared x then none
      else ((FoundProp.ofEntries 0 defaults).filter (·.name == x)).foldl
        (fun known? p => some (FoundProp.merged known? p))
        (((declared.map fun d => (⟨d.name, none, 0⟩ : FoundProp)).filter (·.name == x)).foldl
          (fun known? p => some (FoundProp.merged known? p)) (found.find? (·.name == x))) := by
  rw [listed, List.find?_filter, ← FoundProp.find?_addAll, ← FoundProp.find?_addAll]
  have hsplit : (fun p : FoundProp => decide ((!handedIn navigation declared p.name) = true ∧ (p.name == x) = true)) =
      fun p => !handedIn navigation declared x && p.name == x := by
    funext p
    by_cases hp : p.name = x
    · simp [hp]
    · simp [hp]
  rw [hsplit]
  cases handedIn navigation declared x <;> simp

theorem find?_props (navigation : Bool) (found : List FoundProp) (typeEntries : List (List Char))
    (defaults : List Entry) (x : List Char) :
    (ofBlocks navigation found typeEntries defaults).props.find? (·.name == String.ofList x) =
      ((listed navigation found (declaredIn typeEntries) defaults).find? (·.name == x)).map
        (specOf (!typeEntries.isEmpty) (declaredIn typeEntries)) := by
  have hname : (fun p : PropSpec => p.name == String.ofList x) ∘
      specOf (!typeEntries.isEmpty) (declaredIn typeEntries) = fun p => p.name == x := by
    funext p
    rw [Function.comp_apply, Bool.eq_iff_iff, beq_iff_eq, beq_iff_eq]
    exact ⟨fun h => String.ofList_injective h, fun h => congrArg String.ofList h⟩
  rw [ofBlocks, List.find?_map, hname]

variable {navigation : Bool} {found : List FoundProp} {typeEntries typeEntries' : List (List Char)}
  {defaults defaults' : List Entry} {x : List Char}

/-- A prop of which two sets of blocks say the same is the same in both tables, and it is required in
both or in none if both sets hold prop types or none does. -/
theorem find?_props_congr
    (htypes : (declaredIn typeEntries).filter (·.name == x) = (declaredIn typeEntries').filter (·.name == x))
    (hdefaults : defaults.filter (·.key == x) = defaults'.filter (·.key == x)) :
    let p? := (ofBlocks navigation found typeEntries defaults).props.find? (·.name == String.ofList x)
    let q? := (ofBlocks navigation found typeEntries' defaults').props.find? (·.name == String.ofList x)
    p?.map (·.unforced) = q?.map (·.unforced) ∧ (typeEntries.isEmpty = typeEntries'.isEmpty → p? = q?) := by
  have hdeclared : (declaredIn typeEntries).find? (·.name == x) = (declaredIn typeEntries').find? (·.name == x) := by
    rw [← List.head?_filter, htypes, List.head?_filter]
  have hany : (declaredIn typeEntries).any (·.name == x) = (declaredIn typeEntries').any (·.name == x) := by
    have hfind (ds : List DeclaredProp) : ds.any (·.name == x) = (ds.find? (·.name == x)).isSome := by
      rw [Bool.eq_iff_iff, List.any_eq_true, List.find?_isSome]
    rw [hfind, hfind, hdeclared]
  have hnames (ds : List DeclaredProp) : (ds.map fun d => (⟨d.name, none, 0⟩ : FoundProp)).filter (·.name == x) =
      (ds.filter (·.name == x)).map fun d => ⟨d.name, none, 0⟩ := List.filter_map
  have hkeys (es : List Entry) : (FoundProp.ofEntries 0 es).filter (·.name == x) =
      FoundProp.ofEntries 0 (es.filter (·.key == x)) := List.filter_map
  have hlisted : (listed navigation found (declaredIn typeEntries) defaults).find? (·.name == x) =
      (listed navigation found (declaredIn typeEntries') defaults').find? (·.name == x) := by
    have hhanded :
        handedIn navigation (declaredIn typeEntries) x = handedIn navigation (declaredIn typeEntries') x := by
      rw [handedIn, handedIn, hany]
    rw [find?_listed, find?_listed, hhanded, hnames, hnames, hkeys, hkeys, htypes, hdefaults]
  intro p? q?
  have hp : p? = _ := find?_props navigation found typeEntries defaults x
  have hq : q? = _ := find?_props navigation found typeEntries' defaults' x
  rw [← hlisted] at hq
  rw [hp, hq]
  cases hfound : (listed navigation found (declaredIn typeEntries) defaults).find? (·.name == x) with
  | none => exact ⟨rfl, fun _ => rfl⟩
  | some p =>
    have hname : p.name = x := by simpa using List.find?_some hfound
    have hspec : specOf (!typeEntries.isEmpty) (declaredIn typeEntries') p =
        specOf (!typeEntries.isEmpty) (declaredIn typeEntries) p := by
      rw [specOf, specOf, hname, hdeclared]
    simp only [Option.map_some, Option.some.injEq]
    constructor
    · rw [← hspec]
      rfl
    · intro htyped
      rw [← hspec, htyped]

/-! ### Two names -/

/-- The blocks assigned to `owner` name the prop `x`. -/
def Assigns (text owner x : List Char) : Prop :=
  (∃ e ∈ assigned propTypesBlock text owner, ∃ d, ofEntry? e = some d ∧ d.name = x) ∨
    ∃ e ∈ assigned defaultPropsBlock text owner, ∃ read, Entry.all e = .ok read ∧ ∃ d ∈ read, d.key = x

theorem flatten_of_mapM {α β ε : Type} {f : α → Except ε (List β)} {xs : List α} {yss : List (List β)}
    (h : xs.mapM f = .ok yss) : yss.flatten = xs.flatMap fun x => (f x).toOption.getD [] := by
  induction xs generalizing yss with
  | nil =>
    cases h
    rfl
  | cons x xs ih =>
    rw [List.mapM_cons] at h
    obtain ⟨ys, hx, h⟩ := bind_eq_ok.1 h
    obtain ⟨yss, hxs, h⟩ := bind_eq_ok.1 h
    cases h
    rw [List.flatten_cons, ih hxs, List.flatMap_cons, hx]
    rfl

variable {text component component' : List Char} {table table' : PropTable}

theorem filter_declaredIn (typeEntries : List (List Char)) (x : List Char) :
    (declaredIn typeEntries).filter (·.name == x) =
      typeEntries.flatMap fun e => (( ofEntry? e).filter (·.name == x)).toList := by
  rw [declaredIn, List.filter_filterMap, List.filterMap_eq_flatMap_toList]

theorem filter_defaults {entries : List (List Char)} {defaults : List (List Entry)}
    (h : entries.mapM Entry.all = .ok defaults) (x : List Char) : defaults.flatten.filter (·.key == x) =
      entries.flatMap fun e => ((Entry.all e).toOption.getD []).filter (·.key == x) := by
  rw [flatten_of_mapM h, List.filter_flatMap]

/-- A prop that no block assigned to either name names is the same under both. -/
theorem find?_props_of_not_assigns (h : complete text component navigation found = .ok table)
    (h' : complete text component' navigation found = .ok table')
    (hx : ¬ Assigns text component x) (hx' : ¬ Assigns text component' x) :
    let p? := table.props.find? (·.name == String.ofList x)
    let q? := table'.props.find? (·.name == String.ofList x)
    p?.map (·.unforced) = q?.map (·.unforced) ∧
      ((blockEntries propTypesBlock text component).isEmpty = (blockEntries propTypesBlock text component').isEmpty →
        p? = q?) := by
  have htypes {owner : List Char} (hx : ¬ Assigns text owner x) :
      ∀ e ∈ assigned propTypesBlock text owner, (( ofEntry? e).filter (·.name == x)).toList = [] := by
    intro e he
    cases hd : ofEntry? e with
    | none => rfl
    | some d =>
      have hne : (d.name == x) = false := by
        simpa using fun hname : d.name = x => hx (.inl ⟨e, he, d, hd, hname⟩)
      simp [Option.filter, hne]
  have hdefaults {owner : List Char} (hx : ¬ Assigns text owner x) :
      ∀ e ∈ assigned defaultPropsBlock text owner, ((Entry.all e).toOption.getD []).filter (·.key == x) = [] := by
    intro e he
    rw [List.filter_eq_nil_iff]
    intro d hd hkey
    cases hread : Entry.all e with
    | error _ =>
      rw [hread] at hd
      cases hd
    | ok read =>
      rw [hread] at hd
      exact hx (.inr ⟨e, he, read, hread, d, hd, by simpa using hkey⟩)
  obtain ⟨defaults, hread, rfl⟩ := complete_eq_ok_iff.1 h
  obtain ⟨defaults', hread', rfl⟩ := complete_eq_ok_iff.1 h'
  refine find?_props_congr ?_ ?_
  · rw [filter_declaredIn, filter_declaredIn, flatMap_blockEntries (htypes hx),
      flatMap_blockEntries (htypes hx')]
  · rw [filter_defaults hread, filter_defaults hread', flatMap_blockEntries (hdefaults hx),
      flatMap_blockEntries (hdefaults hx')]

/-- No block is assigned to the name. -/
def Unassigned (p : Pattern) (text owner : List Char) : Prop :=
  ∀ m ∈ p.matchesOf text, m.groupText? text 1 ≠ some owner

theorem blockEntries_of_unassigned {p : Pattern} (h : Unassigned p text component) :
    blockEntries p text component =
      (p.matchesOf text).flatMap fun m => if (m.groupText? text 1).isNone then entriesAt text m else [] := by
  rw [blockEntries_eq]
  refine List.flatMap_congr fun m hm => ?_
  have hother := h m hm
  cases howner : m.groupText? text 1 with
  | none => rfl
  | some owner =>
    rw [howner] at hother
    simp [show owner ≠ component from fun heq => hother (congrArg some heq)]

/-- Names to which no block is assigned have one table. -/
theorem complete_of_unassigned (h : ∀ p ∈ [propTypesBlock, defaultPropsBlock], Unassigned p text component)
    (h' : ∀ p ∈ [propTypesBlock, defaultPropsBlock], Unassigned p text component') :
    complete text component navigation found = complete text component' navigation found := by
  have hsame {p : Pattern} (hp : p ∈ [propTypesBlock, defaultPropsBlock]) :
      blockEntries p text component = blockEntries p text component' := by
    rw [blockEntries_of_unassigned (h p hp), blockEntries_of_unassigned (h' p hp)]
  rw [complete, complete, hsame (by simp), hsame (by simp)]

/-- Default props that are assigned to no name of the two can be read under both or under none. -/
theorem exists_complete_eq_ok (h : complete text component navigation found = .ok table)
    (hnone : Unassigned defaultPropsBlock text component') :
    ∃ table', complete text component' navigation found = .ok table' := by
  cases hcomplete : complete text component' navigation found with
  | ok table' => exact ⟨table', rfl⟩
  | error e =>
    exfalso
    rw [Fault.eq_noBoundary e] at hcomplete
    obtain ⟨inside, hmem, hfault⟩ := complete_eq_error_iff.1 hcomplete
    have herror : complete text component navigation found = .error .noBoundary := by
      refine complete_eq_error_iff.2 ⟨inside, ?_, hfault⟩
      rw [blockEntries_of_unassigned hnone] at hmem
      obtain ⟨m, hm, hmem⟩ := List.mem_flatMap.1 hmem
      rw [blockEntries_eq]
      refine List.mem_flatMap.2 ⟨m, hm, ?_⟩
      split at hmem
      · rename_i howner
        simpa [Option.isNone_iff_eq_none.1 howner] using hmem
      · cases hmem
    rw [h] at herror
    cases herror

end PropTable

end Recast
