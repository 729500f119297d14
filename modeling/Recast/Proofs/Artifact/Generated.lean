import Recast.Proofs.Artifact.DeclaredNames
import Recast.Proofs.Artifact.Paths

/-!
# What is generated

Generation makes one file for each artifact of the plan, the component first, and fails
only where the name of the component is not usable (`generate_eq`). The plan holds the
artifacts whose template applies, and can be read off the files again.
-/

namespace Recast

open Text Template

/-- The artifacts besides tests, in the order in which they are generated. -/
def ArtifactKind.generated : List ArtifactKind := [.component, .types, .hook, .service, .store]

namespace ArtifactPlan

theorem includes_add {kind : ArtifactKind} (h : kind ≠ .test) (p : ArtifactPlan) (new : ArtifactKind) :
    (p.add new).includes kind = (p.includes kind || new == kind) := by
  cases kind <;> cases new <;> simp [add, includes] at h ⊢

theorem includes_foldl_add {kind : ArtifactKind} (h : kind ≠ .test) (new : List ArtifactKind)
    (p : ArtifactPlan) : (new.foldl add p).includes kind = (p.includes kind || new.contains kind) := by
  induction new generalizing p with
  | nil => simp
  | cons k ks ih =>
    rw [List.foldl_cons, ih, includes_add h, List.contains_cons, Bool.or_assoc, Bool.beq_comm]

theorem ext_includes {p q : ArtifactPlan}
    (h : ∀ kind, kind ≠ .test → p.includes kind = q.includes kind) : p = q := by
  obtain ⟨types, hook, service, store⟩ := p
  obtain ⟨types', hook', service', store'⟩ := q
  have ht : types = types' := h .types (by decide)
  have hh : hook = hook' := h .hook (by decide)
  have hs : service = service' := h .service (by decide)
  have hst : store = store' := h .store (by decide)
  subst ht hh hs hst
  rfl

end ArtifactPlan

namespace RenderContext

/-- The code of an artifact. -/
def contentOf (c : RenderContext) : ArtifactKind → String
  | .component => Template.renderComponent c
  | .types => Template.renderTypes c
  | .hook => Template.renderHook c
  | .service => Template.renderService c
  | .store => Template.renderStore c
  | .test => ""

def artifact (c : RenderContext) (kind : ArtifactKind) : GeneratedFile :=
  ⟨c.layout.pathFor kind, c.contentOf kind, kind, Synthesizer.tierOf c.layout kind⟩

/-- The artifacts of the plan. -/
def kinds (c : RenderContext) : List ArtifactKind := ArtifactKind.generated.filter c.plan.includes

def artifacts (c : RenderContext) : List GeneratedFile := c.kinds.map c.artifact

theorem nodup_kinds (c : RenderContext) : c.kinds.Nodup :=
  List.filter_sublist.nodup (by decide : ArtifactKind.generated.Nodup)

theorem test_not_mem_kinds (c : RenderContext) : ArtifactKind.test ∉ c.kinds := by
  intro h
  exact absurd (List.mem_of_mem_filter h) (by decide)

theorem mem_kinds_iff {c : RenderContext} {kind : ArtifactKind} :
    kind ∈ c.kinds ↔ c.plan.includes kind = true := by
  unfold kinds
  rw [List.mem_filter]
  refine and_iff_right_of_imp fun h => ?_
  cases kind with
  | test => cases h
  | _ => decide

end RenderContext

namespace Synthesizer

variable {config : Config} {f : Facts}

/-- Which template makes an artifact, and whether it applies. -/
def appliesTo (config : Config) (f : Facts) : ArtifactKind → Bool
  | .component => true
  | .types => Template.types.applies f config
  | .hook => Template.hook.applies f config
  | .service => Template.service.applies f config
  | .store => Template.store.applies f config
  | .test => false

theorem applies_of_mem_builtIn {t : Template} (h : t ∈ Template.builtIn) :
    t.applies f config = appliesTo config f t.kind := by
  simp only [Template.builtIn, List.mem_cons, List.not_mem_nil, or_false] at h
  rcases h with rfl | rfl | rfl | rfl | rfl <;> rfl

theorem kinds_applying : (({ config } : Synthesizer).applying f).map (·.kind) =
    ArtifactKind.generated.filter (appliesTo config f) := by
  have hfilter : ({ config } : Synthesizer).applying f =
      Template.builtIn.filter fun t => appliesTo config f t.kind :=
    List.filter_congr fun t ht => applies_of_mem_builtIn ht
  rw [hfilter]
  exact (List.filter_map (l := Template.builtIn) (f := (·.kind)) (p := appliesTo config f)).symm

theorem includes_plan (kind : ArtifactKind) :
    (({ config } : Synthesizer).plan f).includes kind = appliesTo config f kind := by
  have hplan : ({ config } : Synthesizer).plan f =
      (ArtifactKind.generated.filter (appliesTo config f)).foldl ArtifactPlan.add {} := by
    rw [← kinds_applying, List.foldl_map]
    rfl
  by_cases htest : kind = .test
  · subst htest
    rfl
  · rw [hplan, ArtifactPlan.includes_foldl_add htest]
    cases kind with
    | test => exact absurd rfl htest
    | component => rfl
    | _ =>
      simp only [ArtifactPlan.includes, Bool.false_or]
      rw [Bool.eq_iff_iff, List.contains_iff_mem, List.mem_filter]
      exact and_iff_right (by decide)

theorem kinds_contextOf : (contextOf config f).kinds =
    (({ config } : Synthesizer).applying f).map (·.kind) := by
  rw [kinds_applying]
  exact List.filter_congr fun kind _ => includes_plan kind

/-- Templates that render to paths of their own come before what the others give. -/
theorem renderAll_append {c : RenderContext} {ts us : List Template} {taken : List String}
    (hok : ∀ t ∈ ts, t.render c = .ok (c.contentOf t.kind))
    (hnodup : (ts.map fun t => c.layout.pathFor t.kind).Nodup)
    (hfresh : ∀ t ∈ ts, c.layout.pathFor t.kind ∉ taken) :
    renderAll c taken (ts ++ us) =
      (renderAll c ((ts.map fun t => c.layout.pathFor t.kind).reverse ++ taken) us).map
        ((ts.map fun t => c.artifact t.kind) ++ ·) := by
  induction ts generalizing taken with
  | nil => cases hus : renderAll c taken us <;> simp [hus, Except.map]
  | cons t ts ih =>
    obtain ⟨ht, hts⟩ := List.forall_mem_cons.1 hok
    obtain ⟨hnew, hold⟩ := List.forall_mem_cons.1 hfresh
    rw [List.map_cons, List.nodup_cons] at hnodup
    have hpaths : ∀ u ∈ ts, c.layout.pathFor u.kind ∉ c.layout.pathFor t.kind :: taken := by
      intro u hu hmem
      rcases List.mem_cons.1 hmem with heq | hmem
      · exact hnodup.1 (List.mem_map.2 ⟨u, hu, heq⟩)
      · exact hold u hu hmem
    have hrest := ih hts hnodup.2 hpaths
    have hcontains : ¬ taken.contains (c.layout.pathFor t.kind) = true := by simpa using hnew
    rw [List.cons_append]
    simp only [renderAll]
    rw [if_neg hcontains, ht, hrest, List.map_cons, List.map_cons, List.reverse_cons, List.append_assoc,
      List.singleton_append]
    cases renderAll c ((ts.map fun t => c.layout.pathFor t.kind).reverse ++
      c.layout.pathFor t.kind :: taken) us <;> rfl

theorem renderAll_eq {c : RenderContext} {ts : List Template} {taken : List String}
    (hok : ∀ t ∈ ts, t.render c = .ok (c.contentOf t.kind))
    (hnodup : (ts.map fun t => c.layout.pathFor t.kind).Nodup)
    (hfresh : ∀ t ∈ ts, c.layout.pathFor t.kind ∉ taken) :
    renderAll c taken ts = .ok (ts.map fun t => c.artifact t.kind) := by
  rw [← List.append_nil ts, renderAll_append hok hnodup hfresh, List.append_nil]
  exact congrArg Except.ok (List.append_nil _)

/-- A template that applies renders. -/
theorem render_of_mem_applying {t : Template} (h : t ∈ ({ config } : Synthesizer).applying f) :
    t.render (contextOf config f) = .ok ((contextOf config f).contentOf t.kind) := by
  obtain ⟨hbuilt, happlies⟩ := List.mem_filter.1 h
  simp only [Template.builtIn, List.mem_cons, List.not_mem_nil, or_false] at hbuilt
  rcases hbuilt with rfl | rfl | rfl | rfl | rfl
  case inr.inr.inr.inr =>
    have hstate : ¬ f.state.isEmpty = true := by
      simp only [Template.store, Bool.and_eq_true, decide_eq_true_eq] at happlies
      intro hempty
      rw [List.isEmpty_iff.1 hempty] at happlies
      exact absurd happlies.2 (by decide)
    exact if_neg hstate
  all_goals rfl

theorem nodup_paths_applying (hname : isIdentifier (contextOf config f).layout.name.toList = true) :
    ((({ config } : Synthesizer).applying f).map fun t =>
      (contextOf config f).layout.pathFor t.kind).Nodup := by
  have hclean : (contextOf config f).layout.Clean := ArtifactLayout.clean_ofName hname
  have hpaths := (List.nodup_append.1 (hclean.nodup_paths (RenderContext.nodup_kinds _)
    (RenderContext.test_not_mem_kinds (contextOf config f)))).1
  rwa [kinds_contextOf, List.map_map] at hpaths

theorem artifacts_contextOf : (contextOf config f).artifacts =
    (({ config } : Synthesizer).applying f).map fun t => (contextOf config f).artifact t.kind := by
  rw [RenderContext.artifacts, kinds_contextOf, List.map_map]
  rfl

/-- Generation gives the artifacts of the plan unless the name is not usable. -/
theorem generate_eq (config : Config) (f : Facts) :
    ({ config } : Synthesizer).generate f =
      if isIdentifier (contextOf config f).layout.name.toList then
        .ok (contextOf config f).artifacts
      else .error (.invalidName f.name) := by
  have hlayout : ArtifactLayout.ofName f.name f.tier = (contextOf config f).layout := rfl
  unfold generate
  rw [hlayout]
  by_cases hname : isIdentifier (contextOf config f).layout.name.toList = true
  · simp only [hname, Bool.not_true, if_true, Bool.false_eq_true, if_false]
    rw [artifacts_contextOf]
    exact renderAll_eq (fun t ht => render_of_mem_applying ht) (nodup_paths_applying hname) (by simp)
  · simp [hname]

theorem generate_eq_ok_iff {files : List GeneratedFile} : ({ config } : Synthesizer).generate f = .ok files ↔
    isIdentifier (contextOf config f).layout.name.toList = true ∧ (contextOf config f).artifacts = files := by
  rw [generate_eq]
  split
  · rename_i hname
    simp [hname]
  · rename_i hname
    simp [hname]

end Synthesizer

end Recast
