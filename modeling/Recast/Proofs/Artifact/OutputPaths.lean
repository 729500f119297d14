import Recast.Proofs.Artifact.Generated
import Recast.Proofs.Text.Words

/-!
# Where generated files go

The name of a component is any text, and what is left of it in a path is letters and digits.
So the paths of its artifacts and of their tests lead down from the output root, and all of
them differ (`paths_of_generate`). Two components of different names keep apart, but for their
services and stores, which are named in the spelling `userProfile` (`paths_shared_iff`).
-/

namespace Recast

open Text Segment

namespace ArtifactLayout

/-- The paths of the artifacts of a component and of their tests. -/
def paths (l : ArtifactLayout) : List String :=
  ArtifactKind.generated.map l.pathFor ++ ArtifactKind.generated.map l.testPathFor

variable {l l' : ArtifactLayout}

theorem pathFor_mem_paths (l : ArtifactLayout) (kind : ArtifactKind) : l.pathFor kind ∈ l.paths := by
  cases kind with
  | test => exact List.mem_append_right _ (List.mem_map.2 ⟨.component, by decide, rfl⟩)
  | _ => exact List.mem_append_left _ (List.mem_map.2 ⟨_, by decide, rfl⟩)

theorem Clean.exists_pieces (h : l.Clean) {path : String} (hpath : path ∈ l.paths) :
    ∃ pieces, path.toList = joinWith ['/'] pieces ∧ pieces ≠ [] ∧ ∀ p ∈ pieces, Plain p := by
  rcases List.mem_append.1 hpath with hpath | hpath
  · obtain ⟨kind, -, rfl⟩ := List.mem_map.1 hpath
    exact ⟨l.pieces kind, h.toList_pathFor kind, by simp [pieces], h.plain_pieces kind⟩
  · obtain ⟨kind, -, rfl⟩ := List.mem_map.1 hpath
    exact ⟨l.testPieces kind, h.toList_testPathFor kind, by simp [testPieces], h.plain_testPieces kind⟩

theorem Clean.fileName?_testPathFor (h : l.Clean) (kind : ArtifactKind) :
    fileName? (ofPath (l.testPathFor kind).toList) =
      some (stem (ofPath (l.pathFor kind).toList) ++ ".test".toList ++ (testExtension kind).toList) := by
  rw [h.ofPath_testPathFor, (h.segments_eq (h.toList_pathFor kind)).2.2]
  simp [fileName?, testPieces]

/-- A test stands in a directory beside its artifact, under the name of the artifact. -/
theorem Clean.testPathFor_beside (h : l.Clean) (kind : ArtifactKind) :
    parent (ofPath (l.testPathFor kind).toList) =
      parent (ofPath (l.pathFor kind).toList) ++ [.name "__tests__".toList] := by
  rw [h.parent_testPathFor, (h.segments_eq (h.toList_pathFor kind)).2.1, List.map_append]
  rfl

theorem Clean.nodup_allPaths (h : l.Clean) : l.paths.Nodup :=
  h.nodup_paths (by decide) (by decide)

/-- No piece of a path is empty or made of dots, so the path leads down. -/
theorem Clean.leads_down (h : l.Clean) {path : String} (hpath : path ∈ l.paths) :
    (∀ piece ∈ splitOn '/' path.toList, Plain piece) ∧
      ∀ root, root <+: follow root (ofPath path.toList) := by
  obtain ⟨pieces, hjoin, hne, hplain⟩ := h.exists_pieces hpath
  refine ⟨?_, fun root => ?_⟩
  · rw [hjoin, splitOn_joinWith hne fun p hp => (hplain p hp).no_slash]
    exact hplain
  · rw [hjoin, ofPath_joinWith_plain hne hplain, follow_names]
    exact List.prefix_append ..

theorem joinWith_inj {sep : Char} {a b : List (List Char)} (ha : a ≠ []) (hb : b ≠ [])
    (hsa : ∀ p ∈ a, sep ∉ p) (hsb : ∀ p ∈ b, sep ∉ p) :
    joinWith [sep] a = joinWith [sep] b ↔ a = b := by
  refine ⟨fun h => ?_, congrArg _⟩
  rw [← splitOn_joinWith ha hsa, h, splitOn_joinWith hb hsb]

/-- Artifacts of components whose names differ share a directory only within one kind. -/
theorem kind_eq_of_dirs (hname : l.name ≠ l'.name) {kind kind' : ArtifactKind} (hkind : kind ≠ .test)
    (hkind' : kind' ≠ .test) (h : l.dirs kind = l'.dirs kind') : kind = kind' := by
  cases kind <;> cases kind' <;> simp [dirs, String.toList_inj, hname] at hkind hkind' h ⊢

theorem dirs_eq_iff (hname : l.name ≠ l'.name) {kind : ArtifactKind} :
    l.dirs kind = l'.dirs kind ↔ kind = .hook ∨ kind = .service ∨ kind = .store := by
  cases kind <;> simp [dirs, String.toList_inj, hname]

theorem base_eq_iff (hname : l.name ≠ l'.name) {kind : ArtifactKind} :
    l.base kind = l'.base kind ↔ (kind = .service ∨ kind = .store) ∧ l.camel = l'.camel := by
  cases kind <;> simp [base, hookName, serviceInstance, String.toList_inj, hname]

/-- Where names differ, files share a place only if both belong to services or both to stores,
and the names agree in the spelling `userProfile`. -/
theorem place_eq_iff (hname : l.name ≠ l'.name) {kind kind' : ArtifactKind} (hkind : kind ≠ .test)
    (hkind' : kind' ≠ .test) (below : List (List Char)) (suffix : ArtifactKind → List Char) :
    l.dirs kind ++ (below ++ [l.base kind ++ suffix kind]) =
        l'.dirs kind' ++ (below ++ [l'.base kind' ++ suffix kind']) ↔
      kind = kind' ∧ (kind = .service ∨ kind = .store) ∧ l.camel = l'.camel := by
  constructor
  · intro h
    obtain ⟨hdirs, hfile⟩ := List.append_inj' h (by simp)
    obtain rfl := kind_eq_of_dirs hname hkind hkind' hdirs
    have hbase : l.base kind = l'.base kind := by simpa using hfile
    exact ⟨rfl, (base_eq_iff hname).1 hbase⟩
  · rintro ⟨rfl, hshared, hcamel⟩
    rw [(dirs_eq_iff hname).2 (.inr hshared), (base_eq_iff hname).2 ⟨hshared, hcamel⟩]

theorem toList_eq_iff {path path' : String} {pieces pieces' : List (List Char)}
    (hpath : path.toList = joinWith ['/'] pieces) (hpath' : path'.toList = joinWith ['/'] pieces')
    (hne : pieces ≠ []) (hne' : pieces' ≠ []) (hplain : ∀ p ∈ pieces, Plain p)
    (hplain' : ∀ p ∈ pieces', Plain p) : path = path' ↔ pieces = pieces' := by
  rw [← String.toList_inj, hpath, hpath']
  exact joinWith_inj hne hne' (fun p hp => (hplain p hp).no_slash) fun p hp => (hplain' p hp).no_slash

section

variable (h : l.Clean) (h' : l'.Clean) {kind kind' : ArtifactKind}

include h h'

theorem Clean.pathFor_eq_iff : l.pathFor kind = l'.pathFor kind' ↔ l.pieces kind = l'.pieces kind' :=
  toList_eq_iff (h.toList_pathFor kind) (h'.toList_pathFor kind') (by simp [pieces]) (by simp [pieces])
    (h.plain_pieces kind) (h'.plain_pieces kind')

theorem Clean.testPathFor_eq_iff :
    l.testPathFor kind = l'.testPathFor kind' ↔ l.testPieces kind = l'.testPieces kind' :=
  toList_eq_iff (h.toList_testPathFor kind) (h'.toList_testPathFor kind') (by simp [testPieces])
    (by simp [testPieces]) (h.plain_testPieces kind) (h'.plain_testPieces kind')

theorem Clean.pathFor_ne_testPathFor (hkind : kind ≠ .test) (hkind' : kind' ≠ .test) :
    l.pathFor kind ≠ l'.testPathFor kind' := by
  rw [ne_eq, toList_eq_iff (h.toList_pathFor kind) (h'.toList_testPathFor kind') (by simp [pieces])
    (by simp [testPieces]) (h.plain_pieces kind) (h'.plain_testPieces kind')]
  exact pieces_ne_testPieces l l' hkind hkind'

end

theorem ne_test_of_mem_generated {kind : ArtifactKind} (h : kind ∈ ArtifactKind.generated) :
    kind ≠ .test := by
  rintro rfl
  exact absurd h (by decide)

theorem camel_ofName_eq_iff {name name' : String} {tier tier' : Tier}
    (h : (ofName name tier).Clean) (h' : (ofName name' tier').Clean) :
    (ofName name tier).camel = (ofName name' tier').camel ↔
      AgreeAfterFirst (pascalCase name.toList) (pascalCase name'.toList) := by
  have hne : pascalCase name.toList ≠ [] := by simpa [ofName] using h.name_ne
  have hne' : pascalCase name'.toList ≠ [] := by simpa [ofName] using h'.name_ne
  rw [← camelCase_eq_iff hne (isAlphanum_pascalCase _) hne' (isAlphanum_pascalCase _),
    ← String.toList_inj]
  simp [ofName]

/-- Two components whose names differ write no file of the same path, but for their services,
for their stores, and for the tests of these, where the names fall into the same words and
differ in the case of letters of the first word only. -/
theorem paths_shared_iff {name name' : String} {tier tier' : Tier}
    (h : isIdentifier (pascalCase name.toList) = true)
    (h' : isIdentifier (pascalCase name'.toList) = true)
    (hne : pascalCase name.toList ≠ pascalCase name'.toList) {kind kind' : ArtifactKind}
    (hkind : kind ∈ ArtifactKind.generated) (hkind' : kind' ∈ ArtifactKind.generated) :
    let l := ofName name tier
    let l' := ofName name' tier'
    let Shared := kind = kind' ∧ (kind = .service ∨ kind = .store) ∧
      AgreeAfterFirst (pascalCase name.toList) (pascalCase name'.toList)
    (l.pathFor kind = l'.pathFor kind' ↔ Shared) ∧
    (l.testPathFor kind = l'.testPathFor kind' ↔ Shared) ∧
    l.pathFor kind ≠ l'.testPathFor kind' ∧ l.testPathFor kind ≠ l'.pathFor kind' := by
  intro l l' Shared
  have hclean : l.Clean := clean_ofName (by simpa [ofName] using h)
  have hclean' : l'.Clean := clean_ofName (by simpa [ofName] using h')
  have hname : l.name ≠ l'.name := fun heq => hne (by simpa [l, l', ofName] using congrArg String.toList heq)
  have htest := ne_test_of_mem_generated hkind
  have htest' := ne_test_of_mem_generated hkind'
  have hshared : (kind = kind' ∧ (kind = .service ∨ kind = .store) ∧ l.camel = l'.camel) ↔ Shared :=
    and_congr_right' (and_congr_right' (camel_ofName_eq_iff hclean hclean'))
  refine ⟨?_, ?_, hclean.pathFor_ne_testPathFor hclean' htest htest',
    (hclean'.pathFor_ne_testPathFor hclean htest' htest).symm⟩
  · rw [hclean.pathFor_eq_iff hclean', ← hshared]
    exact place_eq_iff hname htest htest' [] fun kind => '.' :: extension kind
  · rw [hclean.testPathFor_eq_iff hclean', ← hshared,
      ← place_eq_iff hname htest htest' ["__tests__".toList]
        fun kind => ".test".toList ++ (testExtension kind).toList]
    simp [testPieces]

/-- An acronym and the same letters spelled as a word begin one file name of a service. -/
theorem uiButton_shares_service :
    isIdentifier (pascalCase "UIButton".toList) = true ∧
      isIdentifier (pascalCase "ui button".toList) = true ∧
      pascalCase "UIButton".toList ≠ pascalCase "ui button".toList ∧
      (ofName "UIButton" .leaf).pathFor .service = (ofName "ui button" .assembly).pathFor .service := by
  have hid : isIdentifier (pascalCase "UIButton".toList) = true := by decide
  have hid' : isIdentifier (pascalCase "ui button".toList) = true := by decide
  have hne : pascalCase "UIButton".toList ≠ pascalCase "ui button".toList := by decide
  have hagree : AgreeAfterFirst (pascalCase "UIButton".toList) (pascalCase "ui button".toList) :=
    ⟨"UI".toList, "Ui".toList, ["Button".toList], by decide, by decide, by decide⟩
  have hservice : ArtifactKind.service ∈ ArtifactKind.generated := by decide
  exact ⟨hid, hid', hne, (paths_shared_iff hid hid' hne hservice hservice).1.2 ⟨rfl, .inl rfl, hagree⟩⟩

theorem names_do_not_keep_apart :
    ¬ ∀ (name name' : String) (tier tier' : Tier), isIdentifier (pascalCase name.toList) = true →
      isIdentifier (pascalCase name'.toList) = true → pascalCase name.toList ≠ pascalCase name'.toList →
      (ofName name tier).paths.Disjoint (ofName name' tier').paths := by
  intro h
  have hdisjoint := h "UIButton" "UiButton" .leaf .leaf (by decide) (by decide) (by decide)
  have hpath : "services/uiButtonService.ts" ∈ (ofName "UIButton" .leaf).paths :=
    pathFor_mem_paths (ofName "UIButton" .leaf) .service
  exact hdisjoint hpath (pathFor_mem_paths (ofName "UiButton" .leaf) .service)

end ArtifactLayout

namespace Synthesizer

open ArtifactLayout

theorem exists_kind_of_mem_renderAll {c : RenderContext} {ts : List Template} {taken : List String}
    {files : List GeneratedFile} (h : renderAll c taken ts = .ok files) :
    ∀ file ∈ files, ∃ kind, file.path = c.layout.pathFor kind := by
  induction ts generalizing taken files with
  | nil =>
    cases h
    simp
  | cons t ts ih =>
    simp only [renderAll] at h
    split at h
    · cases h
    · obtain ⟨content, -, h⟩ := bind_eq_ok.1 h
      obtain ⟨rest, hrest, h⟩ := bind_eq_ok.1 h
      cases h
      exact List.forall_mem_cons.2 ⟨⟨t.kind, rfl⟩, ih hrest⟩

theorem renderAll_of_generate {s : Synthesizer} {f : Facts} {files : List GeneratedFile}
    (h : s.generate f = .ok files) :
    isIdentifier (ofName f.name f.tier).name.toList = true ∧
      renderAll ⟨f, ofName f.name f.tier, s.plan f⟩ [] (s.applying f) = .ok files := by
  unfold generate at h
  dsimp only at h
  split at h
  · cases h
  · rename_i hname
    exact ⟨by simpa using hname, h⟩

theorem path_mem_of_generate {s : Synthesizer} {f : Facts} {files : List GeneratedFile}
    (h : s.generate f = .ok files) : ∀ file ∈ files, file.path ∈ (ofName f.name f.tier).paths := by
  intro file hfile
  obtain ⟨kind, hkind⟩ := exists_kind_of_mem_renderAll (renderAll_of_generate h).2 file hfile
  exact hkind ▸ pathFor_mem_paths _ kind

/-- Whatever the name of the component is, if something is generated then the paths of its
artifacts and tests lead down from the output root, no two are equal, and each test stands in
a directory beside its artifact. -/
theorem paths_of_generate {s : Synthesizer} {f : Facts} {files : List GeneratedFile}
    (h : s.generate f = .ok files) :
    let l := ofName f.name f.tier
    (∀ file ∈ files, file.path ∈ l.paths) ∧
    (∀ path ∈ l.paths, (∀ piece ∈ splitOn '/' path.toList, Plain piece) ∧
      ∀ root, root <+: follow root (ofPath path.toList)) ∧
    l.paths.Nodup ∧
    ∀ kind, parent (ofPath (l.testPathFor kind).toList) =
        parent (ofPath (l.pathFor kind).toList) ++ [.name "__tests__".toList] ∧
      fileName? (ofPath (l.testPathFor kind).toList) =
        some (stem (ofPath (l.pathFor kind).toList) ++ ".test".toList ++ (testExtension kind).toList) := by
  intro l
  have hclean : l.Clean := clean_ofName (renderAll_of_generate h).1
  exact ⟨path_mem_of_generate h, fun path hpath => hclean.leads_down hpath, hclean.nodup_allPaths,
    fun kind => ⟨hclean.testPathFor_beside kind, hclean.fileName?_testPathFor kind⟩⟩

/-- A name that reads as a way out of the output root. -/
def climbing : Facts := { name := "/../../étc/.passwd", tier := .leaf }

theorem climbing_leads_down : ∃ files, ({} : Synthesizer).generate climbing = .ok files ∧
    ∀ file ∈ files, ∀ root, root <+: follow root (ofPath file.path.toList) := by
  have hgenerate : ({} : Synthesizer).generate climbing =
      .ok (Template.contextOf {} climbing).artifacts :=
    generate_eq_ok_iff.2 ⟨by decide, rfl⟩
  obtain ⟨hfiles, hdown, -⟩ := paths_of_generate hgenerate
  exact ⟨_, hgenerate, fun file hfile => (hdown _ (hfiles file hfile)).2⟩

end Synthesizer

end Recast
