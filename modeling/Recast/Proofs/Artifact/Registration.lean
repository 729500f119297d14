import Recast.Proofs.Artifact.Generated

/-!
# Templates registered again

Generation fails exactly where the name of the component is not usable. Otherwise it makes the
component and then, in a fixed order, the artifacts that are wanted. A built-in template that is
registered a second time changes nothing while it does not apply, and the first one that does
finds its path taken (`generate_withTemplates`).
-/

namespace Recast.Synthesizer

open Text
open Template (contextOf)

variable {config : Config} {f : Facts}

/-- What a component must have for an artifact to be made, and the setting that allows it. -/
def Wanted (config : Config) (f : Facts) : ArtifactKind → Prop
  | .component => True
  | .types =>
    config.generateTypes = true ∧ (f.props ≠ [] ∨ f.state ≠ [] ∨ f.features.remoteData = true)
  | .hook => config.generateHooks = true ∧ f.complexityClass ≠ .low
  | .service => config.generateServices = true ∧ f.features.remoteData = true
  | .store => config.generateStore = true ∧ 3 ≤ f.state.length
  | .test => False

theorem appliesTo_eq_true_iff {kind : ArtifactKind} : appliesTo config f kind = true ↔ Wanted config f kind := by
  cases kind with
  | component => simp [appliesTo, Wanted]
  | types => simp [appliesTo, Wanted, Template.types, or_assoc]
  | hook => simp [appliesTo, Wanted, Template.hook]
  | service => simp [appliesTo, Wanted, Template.service]
  | store =>
    rw [appliesTo, Template.store, Bool.and_eq_true, decide_eq_true_iff]
    rfl
  | test => simp [appliesTo, Wanted]

instance : DecidablePred (Wanted config f) := fun _ => decidable_of_iff _ appliesTo_eq_true_iff

theorem appliesTo_eq (kind : ArtifactKind) : appliesTo config f kind = decide (Wanted config f kind) :=
  Bool.eq_iff_iff.2 (appliesTo_eq_true_iff.trans decide_eq_true_iff.symm)

theorem templates_foldl (further : List Template) (s : Synthesizer) :
    further.foldl withTemplate s = { s with templates := s.templates ++ further } := by
  induction further generalizing s with
  | nil => simp
  | cons t ts ih => simp [ih, withTemplate]

theorem applying_foldl (further : List Template) :
    (further.foldl withTemplate { config }).applying f =
      ({ config } : Synthesizer).applying f ++ further.filter fun t => t.applies f config := by
  rw [templates_foldl]
  exact List.filter_append ..

/-- A template that applies a second time is in the plan already. -/
theorem plan_foldl {further : List Template} (h : ∀ t ∈ further, t ∈ Template.builtIn) :
    (further.foldl withTemplate { config }).plan f = ({ config } : Synthesizer).plan f := by
  have hplan : (further.foldl withTemplate { config }).plan f =
      ((further.filter fun t => t.applies f config).map (·.kind)).foldl ArtifactPlan.add
        (({ config } : Synthesizer).plan f) := by
    rw [List.foldl_map, plan, applying_foldl, List.foldl_append]
    rfl
  rw [hplan]
  refine ArtifactPlan.ext_includes fun kind hkind => ?_
  rw [ArtifactPlan.includes_foldl_add hkind, includes_plan, Bool.or_eq_left_iff_imp]
  intro hmem
  obtain ⟨t, ht, rfl⟩ := List.mem_map.1 (List.contains_iff_mem.1 hmem)
  obtain ⟨hfurther, happlies⟩ := List.mem_filter.1 ht
  rwa [applies_of_mem_builtIn (h t hfurther)] at happlies

theorem find?_applies {further : List Template} (h : ∀ t ∈ further, t ∈ Template.builtIn) :
    (further.filter fun t => t.applies f config).head? = further.find? fun t => decide (Wanted config f t.kind) := by
  have hfilter : (further.filter fun t => t.applies f config) =
      further.filter fun t => decide (Wanted config f t.kind) := by
    refine List.filter_congr fun t ht => ?_
    rw [applies_of_mem_builtIn (h t ht), appliesTo_eq]
  rw [hfilter, List.head?_filter]

/-- The first of the templates registered again that applies ends the generation. -/
theorem generate_foldl {further : List Template} (h : ∀ t ∈ further, t ∈ Template.builtIn) :
    (further.foldl withTemplate { config }).generate f =
      (({ config } : Synthesizer).generate f).bind fun files =>
        match further.find? fun t => decide (Wanted config f t.kind) with
        | some t => .error (.duplicatePath ((ArtifactLayout.ofName f.name f.tier).pathFor t.kind))
        | none => .ok files := by
  rw [generate_eq, generate, plan_foldl h, applying_foldl]
  change (if !isIdentifier (contextOf config f).layout.name.toList then _ else
    renderAll (contextOf config f) [] _) = _
  by_cases hname : isIdentifier (contextOf config f).layout.name.toList = true
  · rw [renderAll_append (fun t ht => render_of_mem_applying ht) (nodup_paths_applying hname) (by simp),
      ← find?_applies h, hname, if_pos rfl, Bool.not_true, if_neg Bool.false_ne_true]
    cases hfurther : further.filter fun t => t.applies f config with
    | nil =>
      rw [artifacts_contextOf]
      exact congrArg Except.ok (List.append_nil _)
    | cons t ts =>
      have ht : t ∈ further.filter fun t => t.applies f config := hfurther ▸ List.mem_cons_self
      obtain ⟨hmem, happlies⟩ := List.mem_filter.1 ht
      -- The template is among those that were rendered before.
      have htaken : (contextOf config f).layout.pathFor t.kind ∈
          ((({ config } : Synthesizer).applying f).map fun t =>
            (contextOf config f).layout.pathFor t.kind).reverse ++ [] := by
        rw [List.append_nil, List.mem_reverse]
        exact List.mem_map.2 ⟨t, List.mem_filter.2 ⟨h t hmem, happlies⟩, rfl⟩
      simp only [renderAll]
      rw [if_pos (List.contains_iff_mem.2 htaken)]
      rfl
  · simp [hname, Except.bind]

theorem kinds_wanted : (contextOf config f).kinds =
    .component :: [.types, .hook, .service, .store].filter fun kind => decide (Wanted config f kind) := by
  have hkinds : (contextOf config f).kinds =
      ArtifactKind.generated.filter fun kind => decide (Wanted config f kind) :=
    List.filter_congr fun kind _ => (includes_plan kind).trans (appliesTo_eq kind)
  exact hkinds

/-- Generation fails exactly if the name is not usable. Otherwise it makes the component and the
artifacts that are wanted, each at its own path, and if built-in templates are registered again,
the first of them that applies finds its path taken. -/
theorem generate_withTemplates (config : Config) (f : Facts) {further : List Template}
    (h : ∀ t ∈ further, t ∈ Template.builtIn) :
    let layout := ArtifactLayout.ofName f.name f.tier
    let once := ({ config } : Synthesizer).generate f
    let again := (further.foldl withTemplate { config }).generate f
    (∀ name, once = .error (.invalidName name) ↔
      isIdentifier (pascalCase f.name.toList) = false ∧ f.name = name) ∧
    (isIdentifier (pascalCase f.name.toList) = true → ∃ files, once = .ok files ∧
      files.map (·.kind) = .component ::
        [.types, .hook, .service, .store].filter (fun kind => decide (Wanted config f kind)) ∧
      files.map (·.path) = (files.map (·.kind)).map layout.pathFor ∧ (files.map (·.path)).Nodup) ∧
    (again = once.bind fun files =>
      match further.find? fun t => decide (Wanted config f t.kind) with
      | some t => .error (.duplicatePath (layout.pathFor t.kind))
      | none => .ok files) ∧
    ∀ what, once ≠ .error (.missingInput what) ∧ again ≠ .error (.missingInput what) := by
  intro layout once again
  have honce : once = if isIdentifier (contextOf config f).layout.name.toList then
      .ok (contextOf config f).artifacts else .error (.invalidName f.name) := generate_eq config f
  have hagain : again = _ := generate_foldl h
  have hlayout : (contextOf config f).layout.name.toList = pascalCase f.name.toList := String.toList_ofList
  rw [hlayout] at honce
  refine ⟨?_, ?_, hagain, ?_⟩
  · intro name
    cases hname : isIdentifier (pascalCase f.name.toList) <;> simp [honce, hname]
  · intro hname
    have hpaths := nodup_paths_applying (show isIdentifier (contextOf config f).layout.name.toList = true by
      rw [hlayout, hname])
    have hkinds : (contextOf config f).artifacts.map (·.kind) = (contextOf config f).kinds := by
      rw [RenderContext.artifacts, List.map_map]
      exact List.map_id _
    refine ⟨(contextOf config f).artifacts, by rw [honce, hname, if_pos rfl], ?_, ?_, ?_⟩
    · rw [hkinds, kinds_wanted]
    · rw [hkinds, RenderContext.artifacts, List.map_map]
      rfl
    · rw [artifacts_contextOf, List.map_map]
      exact hpaths
  · intro what
    rw [hagain]
    change once ≠ _ ∧ once.bind _ ≠ _
    rw [honce]
    split
    · split <;> simp [Except.bind]
    · simp [Except.bind]

/-- A component with one prop, for which types are made and no store. -/
def titled : Facts :=
  { name := "titled", tier := .leaf, props := [⟨"title", "string", true, none⟩] }

theorem types_registered_again : (∀ t ∈ [Template.store, Template.types], t ∈ Template.builtIn) ∧
    ([Template.store, Template.types].foldl withTemplate {}).generate titled =
      .error (.duplicatePath "components/leaf/Titled/Titled.types.ts") := by
  have hbuilt : ∀ t ∈ [Template.store, Template.types], t ∈ Template.builtIn := by
    simp [Template.builtIn]
  obtain ⟨-, honce, hagain, -⟩ := generate_withTemplates {} titled hbuilt
  obtain ⟨files, hfiles, -⟩ := honce (by decide)
  refine ⟨hbuilt, ?_⟩
  rw [hagain, hfiles]
  rfl

end Recast.Synthesizer
