import Mathlib.Data.List.Nodup
import Recast.Proofs.Component.RequiredProps
import Recast.Proofs.Text.Once

/-!
# Props and their sources

Five sources name props: the first parameter, what the body takes out of the props object, what it
reaches through it, the prop types and the default props. The analysis lists each name once, where it
first comes in this order, with the first default that is found for it, and it leaves out only the props
of a router that no prop types declare (`props_collected_once`).
-/

namespace Recast

open Text Pattern.Component

namespace FoundProp

/-- The first default that is found for the name. -/
def firstDefault? (mentions : List FoundProp) (x : List Char) : Option (List Char) :=
  mentions.findSome? fun p => if p.name = x then p.default? else none

theorem addAll_append (props a b : List FoundProp) : addAll (addAll props a) b = addAll props (a ++ b) :=
  List.foldl_append.symm

theorem addAll_concat (props mentions : List FoundProp) (p : FoundProp) :
    addAll props (mentions ++ [p]) = add (addAll props mentions) p :=
  List.foldl_concat ..

/-- The names are listed in the order in which they first come. -/
theorem names_addAll (mentions : List FoundProp) : names (addAll [] mentions) = (names mentions).eraseDups := by
  induction mentions using List.reverseRecOn with
  | nil => rfl
  | append_singleton mentions p ih =>
    have hnames : names (mentions ++ [p]) = names mentions ++ [p.name] := List.map_append
    rw [addAll_concat, names_add, ih, hnames, eraseDups_append_singleton]
    simp only [List.mem_eraseDups]

theorem firstDefault?_concat (mentions : List FoundProp) (p : FoundProp) (x : List Char) :
    firstDefault? (mentions ++ [p]) x =
      (firstDefault? mentions x).or (if p.name = x then p.default? else none) := by
  rw [firstDefault?, List.findSome?_append, List.findSome?_singleton]
  rfl

theorem firstDefault?_of_notMem {mentions : List FoundProp} {x : List Char} (h : x ∉ names mentions) :
    firstDefault? mentions x = none := by
  refine List.findSome?_eq_none_iff.2 fun p hp => if_neg ?_
  rintro rfl
  exact h (List.mem_map_of_mem hp)

/-- A later mention gives a prop its default only if no earlier one did. -/
theorem default?_of_mem_addAll {mentions : List FoundProp} {q : FoundProp} (h : q ∈ addAll [] mentions) :
    q.default? = firstDefault? mentions q.name := by
  induction mentions using List.reverseRecOn generalizing q with
  | nil => cases h
  | append_singleton mentions p ih =>
    rw [addAll_concat, add] at h
    rw [firstDefault?_concat]
    split at h
    · obtain ⟨q', hq', rfl⟩ := List.mem_map.1 h
      by_cases hname : q'.name = p.name
      · have hfirst := ih hq'
        simp [hname] at hfirst ⊢
        rw [hfirst]
      · simp [hname, Ne.symm hname, ih hq']
    · rename_i hknown
      have hnew : ∀ q ∈ addAll [] mentions, q.name ≠ p.name := by simpa using hknown
      rcases List.mem_append.1 h with h | h
      · rw [if_neg (hnew q h).symm, Option.or_none, ih h]
      · rw [List.mem_singleton] at h
        subst h
        have hnot : q.name ∉ names mentions := by
          rw [← List.mem_eraseDups, ← names_addAll]
          rintro hmem
          obtain ⟨q', hq', hname⟩ := List.mem_map.1 hmem
          exact hnew q' hq' hname
        rw [firstDefault?_of_notMem hnot, if_pos rfl, Option.none_or]

end FoundProp

/-- Where the props of a component are named: its parameters, and the text that uses the props object. -/
structure PropPlace where
  params? : Option (List Char)
  body : List Char

/-- The name under which the first parameter holds all props, and the props it takes out of them. -/
def PropPlace.parameters (place : PropPlace) : Except Fault (Option (List Char) × List FoundProp) :=
  match place.params? with
  | none => .ok (none, [])
  | some params => FoundProp.ofParams params

/-- What the sources say of the props. -/
structure PropSources where
  parameters : List FoundProp
  destructured : List FoundProp
  reached : List FoundProp
  declared : List DeclaredProp
  defaults : List Entry

namespace PropSources

open FoundProp DeclaredProp

/-- The mentions of props, source after source. -/
def mentions (s : PropSources) : List FoundProp :=
  s.parameters ++ (s.destructured ++ s.reached) ++
    ((s.declared.map fun d => ⟨d.name, none, 0⟩) ++ ofEntries 0 s.defaults)

/-- Reads the five sources. -/
def read (text component : List Char) (place : PropPlace) : Except Fault PropSources := do
  let (object?, parameters) ← place.parameters
  let object := object?.getD "props".toList
  let destructured ← ((destructuringOf object).matchesOf place.body).mapM fun m =>
    return ofEntries 1 (← Entry.all (m.groupText place.body 1))
  let defaults ← (blockEntries defaultPropsBlock text component).mapM Entry.all
  return { parameters
           destructured := destructured.flatten
           reached := ((accessTo object).matchesOf place.body).map fun m => ⟨m.groupText place.body 1, none, 0⟩
           declared := (blockEntries propTypesBlock text component).filterMap ofEntry?
           defaults := defaults.flatten }

/-- The router hands the prop in, and no prop types declare it. -/
def HandedIn (s : PropSources) (navigation : Bool) (x : List Char) : Prop :=
  navigation = true ∧ x ∈ routerProps ∧ x ∉ s.declared.map (·.name)

instance (s : PropSources) (navigation : Bool) (x : List Char) : Decidable (s.HandedIn navigation x) :=
  inferInstanceAs (Decidable (_ ∧ _ ∧ _))

/-- The props are what the sources name. -/
structure ListedAs (s : PropSources) (navigation : Bool) (props : List PropSpec) : Prop where
  /-- Each name is listed where it first comes, unless a router hands it in. -/
  names : props.map (·.name) =
    ((names s.mentions).eraseDups.filter fun x => ¬ s.HandedIn navigation x).map String.ofList
  /-- A prop has the first default that is found for it. -/
  default : ∀ q ∈ props, q.default? = (firstDefault? s.mentions q.name.toList).map String.ofList

variable {text component : List Char} {place : PropPlace} {navigation : Bool} {table : PropTable}

theorem not_handedIn_eq (s : PropSources) (navigation : Bool) (x : List Char) :
    (!PropTable.handedIn navigation s.declared x) = decide (¬ s.HandedIn navigation x) := by
  rw [Bool.eq_iff_iff, Bool.not_eq_true', decide_eq_true_iff, ← Bool.not_eq_true, HandedIn, PropTable.handedIn]
  simp

/-- What is collected is listed, but for the props that a router hands in. -/
theorem listed_eq (s : PropSources) (navigation : Bool) :
    PropTable.listed navigation (addAll [] (s.parameters ++ (s.destructured ++ s.reached))) s.declared s.defaults =
      (addAll [] s.mentions).filter fun p => ¬ s.HandedIn navigation p.name := by
  rw [PropTable.listed, addAll_append, addAll_append]
  exact List.filter_congr fun p _ => not_handedIn_eq s navigation p.name

theorem listedAs_ofBlocks (s : PropSources) (navigation : Bool) {typeEntries : List (List Char)}
    (h : PropTable.declaredIn typeEntries = s.declared) :
    s.ListedAs navigation (PropTable.ofBlocks navigation
      (addAll [] (s.parameters ++ (s.destructured ++ s.reached))) typeEntries s.defaults).props := by
  have hprops : (PropTable.ofBlocks navigation (addAll [] (s.parameters ++ (s.destructured ++ s.reached)))
      typeEntries s.defaults).props = ((addAll [] s.mentions).filter fun p => ¬ s.HandedIn navigation p.name).map
        (PropTable.specOf (!typeEntries.isEmpty) s.declared) := by
    rw [PropTable.ofBlocks, h, listed_eq]
  rw [hprops]
  constructor
  case names =>
    have hfilter : FoundProp.names ((addAll [] s.mentions).filter fun p => ¬ s.HandedIn navigation p.name) =
        (FoundProp.names (addAll [] s.mentions)).filter fun x => ¬ s.HandedIn navigation x := by
      rw [FoundProp.names, FoundProp.names, List.filter_map]
      rfl
    rw [← names_addAll, ← hfilter, FoundProp.names, List.map_map, List.map_map]
    rfl
  case default =>
    intro q hq
    obtain ⟨p, hp, rfl⟩ := List.mem_map.1 hq
    have hname : (String.ofList p.name).toList = p.name := String.toList_ofList
    have hdefault := default?_of_mem_addAll (List.mem_filter.1 hp).1
    simp only [PropTable.specOf, hname, hdefault]

/-- The table of what is found at a place lists what the sources name. -/
theorem exists_listedAs {object? : Option (List Char)} {parameters through : List FoundProp}
    (hparameters : place.parameters = .ok (object?, parameters))
    (hthrough : throughAlias place.body (object?.getD "props".toList) = .ok through)
    (h : PropTable.complete text component navigation (addAll [] (parameters ++ through)) = .ok table) :
    ∃ s, read text component place = .ok s ∧ s.ListedAs navigation table.props := by
  obtain ⟨destructured, htaken, hthrough⟩ := bind_eq_ok.1 hthrough
  cases hthrough
  obtain ⟨defaults, hdefaults, rfl⟩ := PropTable.complete_eq_ok_iff.1 h
  exact ⟨_, bind_eq_ok.2 ⟨_, hparameters, bind_eq_ok.2 ⟨_, htaken, bind_eq_ok.2 ⟨_, hdefaults, rfl⟩⟩⟩,
    listedAs_ofBlocks _ navigation rfl⟩

/-- A name is left out exactly if a router hands the prop in. -/
theorem ListedAs.notMem_iff {s : PropSources} {props : List PropSpec} (h : s.ListedAs navigation props)
    {p : FoundProp} (hp : p ∈ s.mentions) :
    String.ofList p.name ∉ props.map (·.name) ↔ s.HandedIn navigation p.name := by
  have hmem : p.name ∈ FoundProp.names s.mentions := List.mem_map_of_mem hp
  have hinj : Function.Injective String.ofList := fun _ _ heq => String.ofList_injective heq
  rw [h.names, List.mem_map_of_injective hinj, List.mem_filter, List.mem_eraseDups]
  simp [hmem]

theorem ListedAs.nodup {s : PropSources} {props : List PropSpec} (h : s.ListedAs navigation props) :
    (props.map (·.name)).Nodup := by
  have hinj : Function.Injective String.ofList := fun _ _ heq => String.ofList_injective heq
  rw [h.names]
  exact List.Nodup.map hinj ((nodup_eraseDups _).filter _)

end PropSources

namespace Facts

open PropSources

/-- The text of a class between its braces. -/
def classBody (text : List Char) (d : Declaration) : List Char :=
  match indexOf? (text.drop d.resume) ['{'] with
  | none => []
  | some i => (Callable.enclosedOrRest (text.drop (d.resume + i))).1

/-- Where the analysis looks for props. -/
def placeOf (text : List Char) (d? : Option Declaration) : PropPlace :=
  match d? with
  | none => ⟨none, text⟩
  | some d =>
    if d.kind == .classBody then ⟨none, classBody text d⟩
    else
      let scope := (Scope.of? text d).getD (Scope.ofText text)
      ⟨scope.params?, scope.bodyText⟩

/-- What is found of the props is what the parameters and the body at the place say. -/
def Reading.FoundAt (r : Reading) (place : PropPlace) : Prop :=
  ∃ object? parameters through, place.parameters = .ok (object?, parameters) ∧
    FoundProp.throughAlias place.body (object?.getD "props".toList) = .ok through ∧
    r.found? = some (FoundProp.addAll [] (parameters ++ through))

theorem Reading.foundAt_ofScope {scope : Scope} {r : Reading} (h : Reading.ofScope scope = .ok r) :
    r.FoundAt ⟨scope.params?, scope.bodyText⟩ := by
  have hfound {object? : Option (List Char)} {parameters : List FoundProp}
      (hparameters : (⟨scope.params?, scope.bodyText⟩ : PropPlace).parameters = .ok (object?, parameters))
      (h : Reading.ofFunction scope object? parameters = .ok r) : r.FoundAt ⟨scope.params?, scope.bodyText⟩ := by
    obtain ⟨through, hthrough, h⟩ := bind_eq_ok.1 h
    cases h
    exact ⟨object?, parameters, through, hparameters, hthrough, by rw [FoundProp.addAll_append]⟩
  unfold Reading.ofScope at h
  split at h
  · rename_i hnone
    exact hfound (by rw [PropPlace.parameters, hnone]) h
  · rename_i params hsome
    obtain ⟨⟨object?, parameters⟩, hparameters, h⟩ := bind_eq_ok.1 h
    exact hfound (by simpa only [PropPlace.parameters, hsome] using hparameters) h

theorem Reading.foundAt_ofClass {text : List Char} {d : Declaration} {r : Reading}
    (h : Reading.ofClass text d = .ok r) :
    if '{' ∈ text.drop d.resume then r.FoundAt ⟨none, classBody text d⟩ else r.found? = none := by
  have hbrace : '{' ∈ text.drop d.resume ↔ (indexOf? (text.drop d.resume) ['{']).isSome = true := by
    rw [← contains, contains_iff, List.singleton_infix_iff]
  unfold Reading.ofClass at h
  split at h
  · rename_i hnone
    rw [if_neg (by rw [hbrace, hnone]; exact Bool.false_ne_true)]
    cases h
    rfl
  · rename_i i hi
    rw [if_pos (by rw [hbrace, hi]; rfl)]
    obtain ⟨found, hfound, h⟩ := bind_eq_ok.1 h
    obtain ⟨state, -, h⟩ := bind_eq_ok.1 h
    cases h
    have hbody : classBody text d = (Callable.enclosedOrRest (text.drop (d.resume + i))).1 := by
      rw [classBody, hi]
    exact ⟨none, [], found, rfl, by rw [hbody]; exact hfound, rfl⟩

/-- The props of the facts are what the sources at the place name. -/
def Sourced (text : List Char) (place : PropPlace) (f : Facts) : Prop :=
  ∃ s, PropSources.read text f.name.toList place = .ok s ∧ s.ListedAs f.features.navigation f.props

variable {text : List Char} {place : PropPlace} {f g : Facts} {r : Reading} {d : Declaration}

theorem Reading.FoundAt.sourced (h : r.FoundAt place)
    (hg : (do return r.apply (← r.table text f.name.toList f.features.navigation) f) = Except.ok g) :
    Sourced text place g := by
  obtain ⟨object?, parameters, through, hparameters, hthrough, hfound⟩ := h
  obtain ⟨table, htable, hg⟩ := bind_eq_ok.1 hg
  cases hg
  rw [Reading.table, hfound] at htable
  exact exists_listedAs hparameters hthrough htable

/-- The props are collected where the declaration is; a class without a body has none. -/
theorem sourced_of_ofDeclaration {d? : Option Declaration} (hf : f.Unread) (h : ofDeclaration text d? f = .ok g) :
    if ∀ d, d? = some d → d.kind = .classBody → '{' ∈ text.drop d.resume then Sourced text (placeOf text d?) g
    else g.props = [] := by
  cases d? with
  | none =>
    rw [if_pos (by simp)]
    unfold ofDeclaration at h
    rw [ofFunction_eq hf] at h
    obtain ⟨r, hr, h⟩ := bind_eq_ok.1 h
    exact (Reading.foundAt_ofScope hr).sourced h
  | some d =>
    rw [ofDeclaration_eq hf] at h
    obtain ⟨r, hr, h⟩ := bind_eq_ok.1 h
    rw [Reading.ofDeclaration] at hr
    simp only [Option.some.injEq, forall_eq', placeOf]
    split at hr
    · rename_i hclass
      have hbody := Reading.foundAt_ofClass hr
      simp only [beq_iff_eq.1 hclass, forall_const, beq_self_eq_true, if_true]
      split
      · rename_i hbrace
        rw [if_pos hbrace] at hbody
        exact hbody.sourced h
      · rename_i hbrace
        rw [if_neg hbrace] at hbody
        obtain ⟨table, htable, h⟩ := bind_eq_ok.1 h
        cases h
        rw [Reading.table, hbody] at htable
        cases htable
        rfl
    · rename_i hfunction
      rw [if_pos fun hkind => absurd hkind (by simpa using hfunction), if_neg hfunction]
      exact (Reading.foundAt_ofScope hr).sourced h

theorem unread_begun (text : List Char) (name : String) (nameSource : NameSource) :
    (begun text name nameSource).Unread := by
  unfold begun warnings
  split <;> split <;> exact ⟨rfl, rfl, rfl, rfl, rfl, rfl, rfl⟩

theorem sourced_of_analyze {source : String} {declared? : Option String} (h : analyze source declared? = .ok f) :
    if Collects source declared? then
      Sourced (blankComments source.toList)
        (placeOf (blankComments source.toList) (declaration? source declared?)) f
    else f.props = [] := by
  dsimp only [analyze] at h
  split at h
  · rename_i hnothing
    cases h
    rw [if_neg fun hcollects => (collects_iff.1 hcollects).1 hnothing]
    rfl
  · rename_i hsomething
    obtain ⟨g, hg, h⟩ := bind_eq_ok.1 h
    have hg := sourced_of_ofDeclaration (unread_begun (blankComments source.toList) _ _) hg
    have hf : f.props = g.props ∧ f.name = g.name ∧ f.features = g.features := by
      split at h <;> cases h <;> exact ⟨rfl, rfl, rfl⟩
    have hbody := collects_iff.trans (and_iff_right hsomething)
    simp only [hbody, Sourced, hf]
    exact hg

/-- Props are listed once, in the order in which the sources first name them, each with the first default
that is found for it; a prop is left out exactly if the navigation is used, a router hands it in and no
prop types declare it. Nothing is collected where there is no component, or a class without a body. -/
theorem props_collected_once {source : String} {declared? : Option String}
    (h : analyze source declared? = .ok f) :
    f.propNames.Nodup ∧
      (Collects source declared? → ∃ s,
        PropSources.read (blankComments source.toList) f.name.toList
            (placeOf (blankComments source.toList) (declaration? source declared?)) = .ok s ∧
          f.propNames = ((FoundProp.names s.mentions).eraseDups.filter fun x =>
            ¬ s.HandedIn f.features.navigation x).map String.ofList ∧
          (∀ q ∈ f.props, q.default? = (FoundProp.firstDefault? s.mentions q.name.toList).map String.ofList) ∧
          ∀ p ∈ s.mentions, String.ofList p.name ∉ f.propNames ↔
            f.features.navigation = true ∧ p.name ∈ routerProps ∧ p.name ∉ s.declared.map (·.name)) ∧
      (¬ Collects source declared? → f.props = []) := by
  have hsourced := sourced_of_analyze h
  split at hsourced
  · rename_i hcollects
    obtain ⟨s, hread, hlisted⟩ := hsourced
    exact ⟨hlisted.nodup, fun _ => ⟨s, hread, hlisted.names, hlisted.default, fun p hp => hlisted.notMem_iff hp⟩,
      absurd hcollects⟩
  · rename_i hnothing
    refine ⟨?_, fun hcollects => absurd hcollects hnothing, fun _ => hsourced⟩
    rw [propNames, hsourced]
    exact List.nodup_nil

/-- A component whose props are named by all five sources. -/
def card : String :=
  "function C(\x7b a = 1, match \x7d) \x7b useHistory(); let \x7b b, a = 2 \x7d = props; props.c; \x7d " ++
    "C.propTypes = \x7b c: PropTypes.any \x7d; C.defaultProps = \x7b b: 3, d: 4 \x7d;"

/-- The prop of the router is left out, and the first default of `a` is kept. -/
theorem card_props : ∃ f s, analyze card none = .ok f ∧
    PropSources.read (blankComments card.toList) f.name.toList
      (placeOf (blankComments card.toList) (declaration? card none)) = .ok s ∧
    f.propNames = ["a", "b", "c", "d"] ∧
    f.propNames = ((FoundProp.names s.mentions).eraseDups.filter fun x =>
      ¬ s.HandedIn f.features.navigation x).map String.ofList ∧
    f.props.map (·.default?) = [some "1", some "3", none, some "4"] := by
  have hprops : (analyze card none).toOption.map (fun f => (f.propNames, f.props.map (·.default?))) =
      some (["a", "b", "c", "d"], [some "1", some "3", none, some "4"]) := by decide +kernel
  generalize hf : analyze card none = result at hprops
  cases result with
  | error err => cases hprops
  | ok f =>
    simp only [Except.toOption, Option.map_some, Option.some.injEq, Prod.mk.injEq] at hprops
    obtain ⟨-, hlisted, hnone⟩ := props_collected_once hf
    have hcollects : Collects card none := by
      by_contra hnot
      have hnames := hprops.1
      rw [propNames, hnone hnot] at hnames
      cases hnames
    obtain ⟨s, hread, hnames, -⟩ := hlisted hcollects
    exact ⟨f, s, rfl, hread, hprops.1, hnames, hprops.2⟩

end Facts

end Recast
