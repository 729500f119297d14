import Mathlib.Data.List.Flatten
import Mathlib.Data.List.Nodup
import Mathlib.Data.List.Pairwise
import Recast.Artifact.Synthesis
import Recast.Proofs.Component.PropNames

/-!
# Declared names

The names that the emitted component declares at the top of its function: its
parameters, the helpers `navigate` and `query`, the members it takes from the store,
the constants derived from the query, and its state hooks.

Props are distinct among themselves, hooks and store members never stand together, and
a derived name is no store member. Nothing else keeps the names apart
(`declared_nodup_iff`).
-/

namespace Recast.Template

/-- The line declares the names. -/
inductive Declares : String → List String → Prop
  | constant (name value : String) : Declares ("const " ++ name ++ " = " ++ value ++ ";") [name]
  | members (names : List String) (value : String) :
      Declares ("const \x7b " ++ String.intercalate ", " names ++ " \x7d = " ++ value ++ ";") names

inductive DeclaresParameter : String → String → Prop
  | plain (name : String) : DeclaresParameter name name
  | withDefault (name value : String) : DeclaresParameter (name ++ " = " ++ value) name
  | rest (name : String) : DeclaresParameter ("..." ++ name) name

def BodyUnit.hookNames (u : BodyUnit) : List String :=
  if u.isState then
    match Pattern.Component.stateHook.find? u.code.toList with
    | some m => .ofList (m.groupText u.code.toList 1) ::
        ((m.groupText? u.code.toList 2).map String.ofList).toList
    | none => []
  else []

/-- The props object, where the body still names it. -/
def keptObject? (f : Facts) (body : String) : Option String := f.propsAlias?.filter (Str.hasWord body ·)

def parameterNames (f : Facts) (body : String) : List String :=
  if f.props.isEmpty then [] else f.propNames ++ (keptObject? f body).toList

theorem parameters_declare (f : Facts) (body : String) :
    List.Forall₂ DeclaresParameter (parameters f body) (f.propNames ++ (keptObject? f body).toList) := by
  have hprops : List.Forall₂ DeclaresParameter (f.props.map parameter) f.propNames := by
    unfold Facts.propNames
    induction f.props with
    | nil => exact .nil
    | cons p ps ih =>
      refine .cons ?_ ih
      unfold parameter
      split
      · exact .withDefault ..
      · exact .plain ..
  unfold parameters keptObject?
  refine List.rel_append hprops ?_
  cases f.propsAlias? with
  | none => exact .nil
  | some object =>
    by_cases h : Str.hasWord body object = true
    · simpa [h, Option.filter] using DeclaresParameter.rest object
    · simp [h, Option.filter]

namespace Derived

/-- What holds of a derivation at any point: every derived binding is one of the state
bindings gone through, in their order, and its line declares it. -/
structure Sound (gone : List StateBinding) (d : Derivation) : Prop where
  sublist : (d.derived.map (·.name)).Sublist (gone.map (·.name))
  declares : ∀ e ∈ d.derived, Declares e.declaration [e.name]
  dropped : ∀ e ∈ d.derived, ∀ u ∈ d.units, u.declares e.name = false

theorem sound_step {gone : List StateBinding} {d : Derivation} (h : Sound gone d)
    (removedCode markup : String) (s : StateBinding) :
    Sound (gone ++ [s]) (step removedCode markup d s) := by
  have hkeep : Sound (gone ++ [s]) d :=
    ⟨by simpa using h.sublist.trans (List.sublist_append_left _ _), h.declares, h.dropped⟩
  unfold step
  split
  · exact hkeep
  · cases expression? d.dataTaken s with
    | none => exact hkeep
    | some x =>
      obtain ⟨e, taken⟩ := x
      refine ⟨?_, ?_, ?_⟩
      · simpa using h.sublist.append (List.Sublist.refl [s.name])
      · intro e' he
        rcases List.mem_append.1 he with he | he
        · exact h.declares e' he
        · obtain rfl := List.mem_singleton.1 he
          exact .constant s.name e
      · intro e' he u hu
        simp only [List.mem_filter, Bool.not_eq_true'] at hu
        rcases List.mem_append.1 he with he | he
        · exact h.dropped e' he u hu.1
        · obtain rfl := List.mem_singleton.1 he
          exact hu.2

theorem sound_foldl {gone : List StateBinding} {d : Derivation} (h : Sound gone d)
    (removedCode markup : String) (states : List StateBinding) :
    Sound (gone ++ states) (states.foldl (step removedCode markup) d) := by
  induction states generalizing gone d with
  | nil => simpa using h
  | cons s ss ih => simpa using ih (sound_step h removedCode markup s)

end Derived

/-- The state of the query is derived from bindings of the component, each by a line that
declares it, and no hook of a derived binding is kept. -/
theorem Derived.sound_replaceFetching (f : Facts) (markup : String) (units : List BodyUnit) :
    let r := Derived.replaceFetching f markup units
    (r.2.map (·.name)).Sublist (f.state.map (·.name)) ∧
      (∀ e ∈ r.2, Declares e.declaration [e.name]) ∧
      ∀ e ∈ r.2, ∀ u ∈ r.1, u.declares e.name = false := by
  have hstart : Derived.Sound [] ⟨units.filter (!Derived.fetches ·), [], false⟩ :=
    ⟨List.Sublist.refl [], by simp, by simp⟩
  have hs := Derived.sound_foldl hstart (BodyUnit.joinCode (units.filter Derived.fetches)) markup
    f.state
  exact ⟨hs.sublist, hs.declares, hs.dropped⟩

namespace ComponentBody

variable (c : RenderContext)

def helperNames (b : ComponentBody) : List String :=
  (if b.needsNavigate then ["navigate"] else []) ++ if b.usesQuery then ["query"] else []

def derivedNames (b : ComponentBody) : List String := b.derived.map (·.name)

def hookNames (b : ComponentBody) : List String := b.units.flatMap (·.hookNames)

def stateNames (b : ComponentBody) : List String := b.storeNames ++ b.derivedNames ++ b.hookNames

def stored : List StateBinding :=
  if c.plan.store then
    c.facts.state.filter fun s => !(ofContext c).derived.any (·.name == s.name)
  else []

theorem storeNames_ofContext :
    (ofContext c).storeNames = (stored c).flatMap fun s => [s.name, s.setter] := by
  unfold stored
  cases h : c.plan.store <;> simp [ofContext, h]

theorem not_mem_derivedNames_of_stored {s : StateBinding} (hs : s ∈ stored c) :
    s.name ∉ (ofContext c).derivedNames := by
  unfold stored at hs
  split at hs
  · simp only [List.mem_filter, Bool.not_eq_true', List.any_eq_false, beq_iff_eq] at hs
    rintro hm
    obtain ⟨d, hd, hn⟩ := List.mem_map.1 hm
    exact hs.2 d hd hn
  · cases hs

theorem hookNames_ofContext (h : stored c ≠ []) : (ofContext c).hookNames = [] := by
  have hstore : c.plan.store = true := by
    unfold stored at h
    split at h
    · assumption
    · exact absurd rfl h
  simp only [hookNames, List.flatMap_eq_nil_iff]
  intro u hu
  simp only [ofContext, hstore, if_true, List.mem_filter, Bool.not_eq_true'] at hu
  simp [BodyUnit.hookNames, hu.2]

theorem sublist_derivedNames :
    (ofContext c).derivedNames.Sublist (c.facts.state.map (·.name)) := by
  have hs := Derived.sound_replaceFetching c.facts (markupOf c) (BodyUnit.all c.facts)
  cases h : c.plan.hook && c.facts.features.remoteData
  · simp [derivedNames, ofContext, h]
  · simpa [derivedNames, ofContext, h] using hs.1

theorem derived_declares : ∀ e ∈ (ofContext c).derived, Declares e.declaration [e.name] := by
  have hs := Derived.sound_replaceFetching c.facts (markupOf c) (BodyUnit.all c.facts)
  cases h : c.plan.hook && c.facts.features.remoteData
  · simp [ofContext, h]
  · simpa [ofContext, h] using hs.2.1

/-- The lines with which the body begins, each with the names it declares. -/
def head (b : ComponentBody) : List (String × List String) :=
  (if b.needsNavigate then [("const navigate = useNavigate();", ["navigate"])] else []) ++
    (if b.usesQuery then [("const query = " ++ c.layout.hookName ++ "();", ["query"])] else []) ++
    (if b.storeNames.isEmpty then [] else
      [("const \x7b " ++ String.intercalate ", " b.storeNames ++ " \x7d = " ++ c.layout.storeHook ++
        "();", b.storeNames)]) ++
    b.derived.map fun d => (d.declaration, [d.name])

/-- The units of the body, the states of the query and the markup. -/
def writeRest (b : ComponentBody) (code : CodeBuilder) : CodeBuilder :=
  ((writeUnits false b.units code).when b.usesQuery writeQueryStates).blank.block "return (" ");"
    (·.lines b.markup)

theorem build_eq (b : ComponentBody) :
    b.build c = (b.writeRest (CodeBuilder.lineEach {} ((head c b).map (·.1)))).build := by
  unfold build writeRest head CodeBuilder.when CodeBuilder.lineEach
  cases b.needsNavigate <;> cases b.usesQuery <;> cases b.storeNames.isEmpty <;>
    simp [Function.comp_def]

theorem head_names (b : ComponentBody) :
    (head c b).flatMap (·.2) = b.helperNames ++ b.storeNames ++ b.derivedNames := by
  have hstore : (if b.storeNames.isEmpty then [] else [b.storeNames]).flatten = b.storeNames := by
    cases b.storeNames <;> simp
  have hderived : ((b.derived.map fun d => (d.declaration, [d.name])).flatMap (·.2)) =
      b.derivedNames := by
    unfold derivedNames
    induction b.derived with
    | nil => rfl
    | cons d ds ih => simpa using ih
  unfold head helperNames
  cases b.needsNavigate <;> cases b.usesQuery <;> cases hs : b.storeNames.isEmpty <;>
    simp_all

theorem head_declares : ∀ x ∈ head c (ofContext c), Declares x.1 x.2 := by
  intro x hx
  simp only [head, List.mem_append, List.mem_map] at hx
  rcases hx with ((hx | hx) | hx) | ⟨d, hd, rfl⟩
  · split at hx
    · obtain rfl := List.mem_singleton.1 hx
      exact .constant "navigate" "useNavigate()"
    · cases hx
  · split at hx
    · obtain rfl := List.mem_singleton.1 hx
      simpa [String.append_assoc] using Declares.constant "query" (c.layout.hookName ++ "()")
    · cases hx
  · split at hx
    · cases hx
    · obtain rfl := List.mem_singleton.1 hx
      simpa [String.append_assoc] using
        Declares.members (ofContext c).storeNames (c.layout.storeHook ++ "()")
  · exact derived_declares c d hd

end ComponentBody

/-- The names that the function of the component declares: its parameters, and at the top
of its body the helpers and the state. -/
def declared (c : RenderContext) : List String :=
  let body := ComponentBody.ofContext c
  parameterNames c.facts (body.build c) ++ body.helperNames ++ body.stateNames

namespace ComponentBody

variable (c : RenderContext)

theorem stateNames_nodup_iff : (ofContext c).stateNames.Nodup ↔
    ((stored c).flatMap fun s => [s.name, s.setter]).Nodup ∧ (ofContext c).derivedNames.Nodup ∧
      (∀ s ∈ stored c, s.setter ∉ (ofContext c).derivedNames) ∧ (ofContext c).hookNames.Nodup ∧
      ∀ n ∈ (ofContext c).derivedNames, n ∉ (ofContext c).hookNames := by
  -- Only the setters of the store can meet a derived name, and with a store there are no hooks.
  have hapart : (∀ n ∈ (ofContext c).storeNames, n ∉ (ofContext c).derivedNames) ↔
      ∀ s ∈ stored c, s.setter ∉ (ofContext c).derivedNames := by
    simp only [storeNames_ofContext, List.mem_flatMap, List.mem_cons, List.not_mem_nil, or_false]
    constructor
    · exact fun h s hs => h s.setter ⟨s, hs, .inr rfl⟩
    · rintro h n ⟨s, hs, rfl | rfl⟩
      · exact not_mem_derivedNames_of_stored c hs
      · exact h s hs
  have hhooks : ∀ n ∈ (ofContext c).storeNames, n ∉ (ofContext c).hookNames := by
    intro n hn
    have hs : stored c ≠ [] := by
      rintro hs
      simp [storeNames_ofContext, hs] at hn
    simp [hookNames_ofContext c hs]
  unfold stateNames
  rw [List.nodup_append', List.nodup_append', ← storeNames_ofContext, ← hapart]
  simp only [List.disjoint_left, List.mem_append]
  constructor
  · rintro ⟨⟨hs, hd, ha⟩, hh, hx⟩
    exact ⟨hs, hd, ha, hh, fun n hn => hx (.inr hn)⟩
  · rintro ⟨hs, hd, ha, hh, hx⟩
    refine ⟨⟨hs, hd, ha⟩, hh, ?_⟩
    rintro n (hn | hn)
    · exact hhooks n hn
    · exact hx n hn

theorem stateNames_nodup_iff_of_distinct
    (h : (c.facts.state.flatMap fun s => [s.name, s.setter]).Nodup) :
    (ofContext c).stateNames.Nodup ↔ (ofContext c).hookNames.Nodup ∧
      ∀ n ∈ (ofContext c).derivedNames, n ∉ (ofContext c).hookNames := by
  have hsub : (stored c).Sublist c.facts.state := by
    unfold stored
    split
    · exact List.filter_sublist
    · exact List.nil_sublist _
  have hnames : (c.facts.state.map (·.name)).Sublist
      (c.facts.state.flatMap fun s => [s.name, s.setter]) := by
    induction c.facts.state with
    | nil => exact .slnil
    | cons s ss ih => simpa using (ih.cons s.setter).cons_cons s.name
  have hstored : ((stored c).flatMap fun s => [s.name, s.setter]).Nodup :=
    (hsub.flatMap _).nodup h
  have hderived : (ofContext c).derivedNames.Nodup :=
    ((sublist_derivedNames c).trans hnames).nodup h
  have hsetters : ∀ s ∈ stored c, s.setter ∉ (ofContext c).derivedNames := by
    intro s hs hm
    obtain ⟨t, ht, hn⟩ := List.mem_map.1 ((sublist_derivedNames c).subset hm)
    obtain ⟨hown, hpair⟩ := List.nodup_flatMap.1 h
    by_cases he : t = s
    · subst he
      simpa [hn] using hown t ht
    · have hsymm : Std.Symm (Function.onFun List.Disjoint fun s : StateBinding => [s.name, s.setter]) :=
        ⟨fun _ _ hd _ h₁ h₂ => hd h₂ h₁⟩
      have hd : List.Disjoint [t.name, t.setter] [s.name, s.setter] :=
        hpair.forall ht (hsub.subset hs) he
      exact hd (a := s.setter) (by simp [hn]) (by simp)
  rw [stateNames_nodup_iff]
  exact ⟨fun hx => hx.2.2.2, fun hx => ⟨hstored, hderived, hsetters, hx⟩⟩

end ComponentBody

/-- The context in which the built-in templates render the facts. -/
def contextOf (config : Config) (f : Facts) : RenderContext :=
  ⟨f, .ofName f.name f.tier, Synthesizer.plan { config } f⟩

end Recast.Template
