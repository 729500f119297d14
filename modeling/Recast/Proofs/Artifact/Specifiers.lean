import Recast.Proofs.Artifact.Paths
import Recast.Proofs.Text.Occurrence

/-!
# Import specifiers

A specifier climbs to the common start of two directories, goes down to the module and names it by its file
without the extension. Followed from the directory of the importing file it leads there, and it climbs no
more than it must: a path that climbs less keeps a longer part of the directory it starts from
(`take_prefix_follow`), and no part longer than the common start is kept on the way to a file of the other
directory (`le_commonLength`).

A specifier that ends in a dot names a directory. If the module is called as the directory that the
importing file is in, such a specifier may climb less (`ownDirectory_climbs_less`).
-/

namespace Recast

namespace Text

/-- No piece holds a character at which the text is split. -/
theorem not_of_mem_splitWhen {p : Char → Bool} {text piece : List Char} (h : piece ∈ splitWhen p text) :
    ∀ c ∈ piece, p c = false := by
  induction text generalizing piece with
  | nil => simp_all [splitWhen]
  | cons c r ih =>
    rw [splitWhen] at h
    split at h
    · rcases List.mem_cons.1 h with rfl | h
      · simp
      · exact ih h
    · rename_i hc
      obtain ⟨first, rest, hr⟩ := List.exists_cons_of_ne_nil (splitWhen_ne_nil p r)
      rw [hr] at h ih
      rcases List.mem_cons.1 h with rfl | h
      · exact List.forall_mem_cons.2 ⟨Bool.eq_false_iff.2 hc, ih List.mem_cons_self⟩
      · exact ih (List.mem_cons_of_mem _ h)

theorem flatten_splitWhen (p : Char → Bool) (text : List Char) : (splitWhen p text).flatten = text.filter (!p ·) := by
  induction text with
  | nil => rfl
  | cons c r ih =>
    rw [splitWhen]
    split
    · rename_i hc
      rw [List.flatten_cons, List.nil_append, ih, List.filter_cons_of_neg (by simp [hc])]
    · rename_i hc
      obtain ⟨piece, pieces, hr⟩ := List.exists_cons_of_ne_nil (splitWhen_ne_nil p r)
      rw [hr, List.flatten_cons] at ih
      rw [hr, List.filter_cons_of_pos (by simp [hc]), ← ih]
      rfl

theorem splitWhen_eq_splitOnP (p : Char → Bool) (text : List Char) : splitWhen p text = text.splitOnP p := by
  induction text with
  | nil => rfl
  | cons c r ih =>
    rw [splitWhen, List.splitOnP_cons_eq_if_modifyHead, ih]
    cases hr : r.splitOnP p with
    | nil => exact absurd hr (List.splitOnP_ne_nil p r)
    | cons piece rest => rfl

theorem not_mem_of_mem_splitOn {sep : Char} {text piece : List Char} (h : piece ∈ splitOn sep text) :
    sep ∉ piece :=
  fun hmem => absurd (beq_self_eq_true sep) (Bool.eq_false_iff.1 (not_of_mem_splitWhen h sep hmem))

end Text

namespace Segment

open Text

/-! ### Names in paths -/

theorem plain_of_inner? {piece n : List Char} (h : inner? piece = some (name n)) (hslash : '/' ∉ piece) :
    Plain n := by
  unfold inner? at h
  split at h
  · cases h
  · rename_i hpiece
    simp only [Bool.or_eq_true, List.isEmpty_iff, beq_iff_eq, not_or] at hpiece
    split at h
    · cases h
    · rename_i hup
      cases h
      exact ⟨hpiece.1, hpiece.2, by simpa using hup, hslash⟩

/-- What a path has for a name is one. -/
theorem plain_of_mem_ofPath {path n : List Char} (h : name n ∈ ofPath path) : Plain n := by
  have hinner {pieces : List (List Char)} (hpieces : ∀ p ∈ pieces, '/' ∉ p)
      (h : name n ∈ pieces.filterMap inner?) : Plain n := by
    obtain ⟨piece, hp, hn⟩ := List.mem_filterMap.1 h
    exact plain_of_inner? hn (hpieces piece hp)
  unfold ofPath at h
  split at h
  · rcases List.mem_cons.1 h with h | h
    · cases h
    · exact hinner (fun p hp => not_mem_of_mem_splitOn hp) h
  · have hslash : ∀ p ∈ splitOn '/' path, '/' ∉ p := fun p hp => not_mem_of_mem_splitOn hp
    cases hsplit : splitOn '/' path with
    | nil =>
      rw [hsplit] at h
      cases h
    | cons first rest =>
      rw [hsplit] at h hslash
      obtain ⟨hfirst, hrest⟩ := List.forall_mem_cons.1 hslash
      rcases List.mem_append.1 h with h | h
      · split at h
        · rw [Option.mem_toList, Option.some.injEq] at h
          cases h
        · exact plain_of_inner? (Option.mem_toList.1 h) hfirst
      · exact hinner hrest h

/-- The stem is the file name without its final extension. A dot at the start begins none. -/
def WithoutExtension (file stem : List Char) : Prop :=
  (∃ extension, '.' ∉ extension ∧ file = stem ++ '.' :: extension ∧ stem ≠ []) ∨
    stem = file ∧ '.' ∉ file.drop 1

theorem exists_of_indexOf?_dot {text : List Char} {i : Nat} (h : indexOf? text ['.'] = some i) :
    ∃ u v, text = u ++ '.' :: v ∧ '.' ∉ u ∧ u.length = i := by
  induction text generalizing i with
  | nil => cases h
  | cons c r ih =>
    rw [indexOf?] at h
    split at h
    · rename_i hstart
      obtain ⟨rfl, -⟩ := List.cons_prefix_cons.1 (startsWith_iff.1 hstart)
      cases h
      exact ⟨[], r, rfl, by simp, rfl⟩
    · rename_i hstart
      obtain ⟨j, hj, rfl⟩ := Option.map_eq_some_iff.1 h
      obtain ⟨u, v, rfl, hu, rfl⟩ := ih hj
      refine ⟨c :: u, v, rfl, ?_, rfl⟩
      rw [List.mem_cons, not_or]
      refine ⟨?_, hu⟩
      rintro rfl
      exact hstart (startsWith_iff.2 (List.cons_prefix_cons.2 ⟨rfl, List.nil_prefix⟩))

theorem withoutExtension_stemOf (file : List Char) : WithoutExtension file (stemOf file) := by
  unfold stemOf
  cases hindex : indexOf? file.reverse ['.'] with
  | none =>
    have hdot : '.' ∉ file := by
      intro hmem
      have hcontains : contains file.reverse ['.'] = true :=
        contains_iff.2 ((List.singleton_infix_iff _ _).2 (List.mem_reverse.2 hmem))
      rw [contains, hindex] at hcontains
      cases hcontains
    exact .inr ⟨rfl, fun hmem => hdot (List.mem_of_mem_drop hmem)⟩
  | some i =>
    obtain ⟨u, v, hfile, hu, rfl⟩ := exists_of_indexOf?_dot hindex
    have hfile : file = v.reverse ++ '.' :: u.reverse := by
      rw [← List.reverse_reverse file, hfile]
      simp
    have htake : file.take (file.length - 1 - u.length) = v.reverse := by
      rw [hfile]
      simp
    have hextension : '.' ∉ u.reverse := fun hmem => hu (List.mem_reverse.1 hmem)
    simp only [htake]
    split
    · rename_i hempty
      rw [List.isEmpty_iff] at hempty
      refine .inr ⟨rfl, ?_⟩
      rwa [hfile, hempty]
    · rename_i hne
      exact .inl ⟨u.reverse, hextension, hfile, by simpa using hne⟩

/-! ### Climbing -/

/-- A path keeps the directory it starts from but for one step for each that it climbs. -/
theorem take_prefix_follow {a : List (List Char)} {path : List Segment} (hroot : root ∉ path) :
    (a.take (a.length - path.count up)).map name <+: follow (a.map name) path := by
  induction path generalizing a with
  | nil => simp [follow]
  | cons s path ih =>
    rw [List.mem_cons, not_or] at hroot
    have hfollow : follow (a.map name) (s :: path) = follow (step (a.map name) s) path := rfl
    rw [hfollow]
    cases s with
    | root => exact absurd rfl hroot.1
    | here => simpa [step] using ih (a := a) hroot.2
    | up =>
      have hkept := ih (a := a.dropLast) hroot.2
      rw [← parent_names, List.length_dropLast, List.dropLast_eq_take, List.take_take] at hkept
      rw [List.count_cons_self]
      rwa [Nat.min_eq_left (by omega), Nat.sub_sub, Nat.add_comm 1] at hkept
    | name n =>
      have hkept := ih (a := a ++ [n]) hroot.2
      rw [List.map_append, List.length_append] at hkept
      have hcount : (name n :: path).count up = path.count up := List.count_cons_of_ne (by simp)
      rw [hcount]
      refine List.IsPrefix.trans (List.IsPrefix.map name ?_) hkept
      rw [← List.take_append_of_le_length (Nat.sub_le a.length _)]
      exact List.take_prefix_take_left (by rw [List.length_singleton]; omega)

/-- The common start is the longest part that two directories share. -/
theorem le_commonLength {a b : List (List Char)} {j : Nat} (hj : j ≤ a.length) (h : a.take j <+: b) :
    j ≤ commonLength (a.map name) (b.map name) := by
  induction a generalizing b j with
  | nil => exact hj.trans (Nat.zero_le _)
  | cons x xs ih =>
    cases j with
    | zero => exact Nat.zero_le _
    | succ j =>
      rw [List.take_succ_cons] at h
      obtain ⟨rest, rfl⟩ := h
      have hrest := ih (Nat.le_of_succ_le_succ hj) (List.prefix_append (xs.take j) rest)
      simpa [commonLength] using hrest

theorem prefix_of_map_name {a b : List (List Char)} (h : a.map name <+: b.map name) : a <+: b := by
  obtain ⟨l, hl, ha⟩ := List.prefix_map_iff.1 h
  have hinj : Function.Injective name := fun _ _ heq => by injection heq
  rwa [hinj.list_map ha]

/-- A path to a file of the other directory climbs to the common start, unless it ends in a directory above
the one it starts from. -/
theorem climb_le_count {a b : List (List Char)} {file : List Char} {path : List Segment} (hroot : root ∉ path)
    (hleads : follow (a.map name) path = (b ++ [file]).map name)
    (hend : (fileName? path).isSome ∨ ¬ b ++ [file] <+: a) :
    a.length - commonLength (a.map name) (b.map name) ≤ path.count up := by
  have hle (j : Nat) (h : a.take (a.length - j) <+: b) :
      a.length - commonLength (a.map name) (b.map name) ≤ j := by
    have hj := le_commonLength (Nat.sub_le a.length j) h
    omega
  rcases hend with hname | habove
  · obtain ⟨n, hn⟩ := Option.isSome_iff_exists.1 hname
    obtain ⟨init, rfl⟩ : ∃ init, path = init ++ [name n] := by
      unfold fileName? at hn
      split at hn
      · rename_i last hlast
        cases hn
        exact List.getLast?_eq_some_iff.1 hlast
      · cases hn
    have hinit : follow (a.map name) init = b.map name := by
      rw [follow_append, List.map_append] at hleads
      exact (List.append_inj' hleads rfl).1
    have hkept := take_prefix_follow (a := a) fun hmem => hroot (List.mem_append_left _ hmem)
    rw [hinit] at hkept
    rw [List.count_append]
    exact (hle _ (prefix_of_map_name hkept)).trans (Nat.le_add_right _ _)
  · have hkept := take_prefix_follow (a := a) hroot
    rw [hleads] at hkept
    rcases List.prefix_concat_iff.1 (prefix_of_map_name hkept) with heq | hkept
    · exact absurd (heq ▸ List.take_prefix _ a) habove
    · exact hle _ hkept

/-! ### Specifiers -/

/-- The specifier begins with a step from the directory of the importing file. -/
def IsRelative (specifier : List Char) : Prop :=
  "./".toList <+: specifier ∨ "../".toList <+: specifier

theorem root_notMem_ofPath {path : List Char} (h : path.head? ≠ some '/') : root ∉ ofPath path := by
  have hinner (piece : List Char) : inner? piece ≠ some root := by
    unfold inner?
    split
    · simp
    · split <;> simp
  have hrest (pieces : List (List Char)) : root ∉ pieces.filterMap inner? := by
    intro hmem
    obtain ⟨piece, -, hp⟩ := List.mem_filterMap.1 hmem
    exact hinner piece hp
  unfold ofPath
  split
  · exact absurd rfl h
  · split
    · simp
    · rw [List.mem_append, not_or]
      refine ⟨?_, hrest _⟩
      split
      · simp
      · rw [Option.mem_toList]
        exact hinner _

theorem IsRelative.root_notMem {specifier : List Char} (h : IsRelative specifier) : root ∉ ofPath specifier := by
  refine root_notMem_ofPath ?_
  rcases h with ⟨rest, rfl⟩ | ⟨rest, rfl⟩
  · simp
  · simp

section

variable {source target : List Segment} {a b : List (List Char)} (ha : parent source = a.map name)
  (hb : parent target = b.map name)

include ha hb

theorem between_append_stem : between (parent source) (parent target) ++ [stem target] =
    List.replicate (a.length - commonLength (a.map name) (b.map name)) ['.', '.'] ++
      (b.drop (commonLength (a.map name) (b.map name)) ++ [stem target]) := by
  have hdrop : ((b.map name).drop (commonLength (a.map name) (b.map name))).map text =
      b.drop (commonLength (a.map name) (b.map name)) := by
    rw [← List.map_drop, List.map_map]
    exact List.map_id _
  unfold between
  simp only [ha, hb, List.length_map, hdrop, List.append_assoc]
  rfl

/-- A specifier is made of pieces, of which the first is one dot or two and no other is one dot. -/
theorem importPath_shape (hplain : ∀ n ∈ b ++ [stem target], Plain n)
    (hdots : ∀ n ∈ b ++ [stem target], ¬ ['.', '.'] <+: n) :
    ∃ first rest, (first = ['.'] ∨ first = ['.', '.']) ∧ rest ≠ [] ∧
      importPath source target = joinWith ['/'] (first :: rest) ∧
      (∀ p ∈ rest, p ≠ [] ∧ p ≠ ['.'] ∧ '/' ∉ p) ∧
      ((first :: rest).map ofPiece).count up = a.length - commonLength (a.map name) (b.map name) := by
  have hpieces := between_append_stem ha hb
  generalize commonLength (a.map name) (b.map name) = k at hpieces ⊢
  have hdown : ∀ n ∈ b.drop k ++ [stem target], n ∈ b ++ [stem target] := by
    intro n hn
    rcases List.mem_append.1 hn with hn | hn
    · exact List.mem_append_left _ (List.mem_of_mem_drop hn)
    · exact List.mem_append_right _ hn
  have hshape : ∀ n ∈ b.drop k ++ [stem target], n ≠ [] ∧ n ≠ ['.'] ∧ '/' ∉ n := fun n hn =>
    ⟨(hplain n (hdown n hn)).ne_nil, (hplain n (hdown n hn)).ne_here, (hplain n (hdown n hn)).no_slash⟩
  have hcount : ((b.drop k ++ [stem target]).map ofPiece).count up = 0 := by
    rw [List.count_eq_zero]
    intro hmem
    obtain ⟨n, hn, hup⟩ := List.mem_map.1 hmem
    rw [(hplain n (hdown n hn)).ofPiece_eq] at hup
    cases hup
  have hdots : ∀ n ∈ b.drop k ++ [stem target], ¬ ['.', '.'] <+: n := fun n hn => hdots n (hdown n hn)
  unfold importPath
  rw [hpieces]
  have hne : b.drop k ++ [stem target] ≠ [] := by simp
  generalize b.drop k ++ [stem target] = down at *
  obtain ⟨first, rest, rfl⟩ := List.exists_cons_of_ne_nil hne
  cases hclimb : a.length - k with
  | zero =>
    have hstart : startsWith (joinWith ['/'] (first :: rest)) up.text = false := by
      have hfirst := hdots first List.mem_cons_self
      rw [Bool.eq_false_iff, Ne, startsWith_iff]
      cases rest with
      | nil => exact hfirst
      | cons second rest =>
        rw [joinWith_cons_cons, List.append_assoc, List.singleton_append]
        exact fun h => hfirst ((prefix_append_cons_iff (by decide) _ _).1 h)
    refine ⟨['.'], first :: rest, .inl rfl, List.cons_ne_nil _ _, ?_, hshape, ?_⟩
    · rw [List.replicate_zero, List.nil_append]
      dsimp only
      rw [hstart]
      rfl
    · rw [List.map_cons, List.count_cons_of_ne (by decide), hcount]
  | succ n =>
    have hstart (u : List (List Char)) (hu : u ≠ []) :
        startsWith (joinWith ['/'] (['.', '.'] :: u)) up.text = true := by
      obtain ⟨second, u, rfl⟩ := List.exists_cons_of_ne_nil hu
      rw [joinWith_cons_cons, List.append_assoc, startsWith_iff]
      exact List.prefix_append _ _
    refine ⟨['.', '.'], List.replicate n ['.', '.'] ++ first :: rest, .inr rfl, by simp, ?_, ?_, ?_⟩
    · rw [List.replicate_succ, List.cons_append]
      dsimp only
      rw [hstart _ (by simp)]
      rfl
    · intro p hp
      rcases List.mem_append.1 hp with hp | hp
      · rw [List.eq_of_mem_replicate hp]
        decide
      · exact hshape p hp
    · have hup : ofPiece ['.', '.'] = up := rfl
      rw [List.map_cons, List.map_append, List.map_replicate, hup, List.count_cons_self, List.count_append,
        hcount, List.count_replicate_self]

end

theorem WithoutExtension.prefix_file {file stem : List Char} (h : WithoutExtension file stem) : stem <+: file := by
  rcases h with ⟨extension, -, rfl, -⟩ | ⟨rfl, -⟩
  · exact List.prefix_append _ _
  · exact List.prefix_refl _

theorem WithoutExtension.plain {file stem : List Char} (h : WithoutExtension file stem) (hfile : Plain file)
    (hdots : ¬ ['.', '.'] <+: file) : Plain stem where
  ne_nil := by
    rcases h with ⟨-, -, -, hne⟩ | ⟨rfl, -⟩
    · exact hne
    · exact hfile.ne_nil
  ne_here := by
    rintro rfl
    rcases h with ⟨extension, -, rfl, -⟩ | ⟨rfl, -⟩
    · exact hdots (List.prefix_append _ extension)
    · exact hfile.ne_here rfl
  ne_up := by
    rintro rfl
    exact hdots h.prefix_file
  no_slash := fun hmem => hfile.no_slash (h.prefix_file.subset hmem)

/-- A specifier made for two files begins with a step, leads from the directory of the one to the other without
its extension, and climbs least among all that end in a name. Among those that end in a dot it climbs least too,
unless the module is called as a directory above the importing file. -/
theorem importPath_resolves {source target : List Char} {a b : List (List Char)} {sourceFile file : List Char}
    (hsource : ofPath source = (a ++ [sourceFile]).map name)
    (htarget : ofPath target = (b ++ [file]).map name)
    (hdots : ∀ n ∈ b ++ [file], ¬ ['.', '.'] <+: n) :
    ∃ stem, WithoutExtension file stem ∧
      IsRelative (importPath (ofPath source) (ofPath target)) ∧
      follow (a.map name) (ofPath (importPath (ofPath source) (ofPath target))) = (b ++ [stem]).map name ∧
      ∀ other, IsRelative other → follow (a.map name) (ofPath other) = (b ++ [stem]).map name →
        ((fileName? (ofPath other)).isSome ∨ ¬ b ++ [stem] <+: a) →
          (ofPath (importPath (ofPath source) (ofPath target))).count up ≤ (ofPath other).count up := by
  have hparent (dir : List (List Char)) (last : List Char) :
      parent ((dir ++ [last]).map name) = dir.map name := by
    rw [parent_names, List.dropLast_concat]
  have hplain : ∀ n ∈ b ++ [file], Plain n := fun n hn =>
    plain_of_mem_ofPath (htarget ▸ List.mem_map_of_mem hn)
  have hfile : file ∈ b ++ [file] := List.mem_append_right _ (List.mem_singleton_self file)
  have hstem : stem (ofPath target) = stemOf file := by
    rw [htarget]
    simp [stem, fileName?]
  have hwithout := withoutExtension_stemOf file
  have hstemPlain : Plain (stem (ofPath target)) :=
    hstem ▸ hwithout.plain (hplain file hfile) (hdots file hfile)
  have ha : parent (ofPath source) = a.map name := by rw [hsource, hparent]
  have hb : parent (ofPath target) = b.map name := by rw [htarget, hparent]
  have hdir : ∀ n ∈ b, Plain n := fun n hn => hplain n (List.mem_append_left _ hn)
  have hstemDots : ∀ n ∈ b ++ [stem (ofPath target)], ¬ ['.', '.'] <+: n := by
    intro n hn
    rcases List.mem_append.1 hn with hn | hn
    · exact hdots n (List.mem_append_left _ hn)
    · rw [List.mem_singleton.1 hn, hstem]
      exact fun h => hdots file hfile (h.trans hwithout.prefix_file)
  have hstemPlains : ∀ n ∈ b ++ [stem (ofPath target)], Plain n :=
    List.forall_mem_append.2 ⟨hdir, List.forall_mem_singleton.2 hstemPlain⟩
  obtain ⟨first, rest, hfirst, hne, hspec, hrest, hcount⟩ := importPath_shape ha hb hstemPlains hstemDots
  have hresolves := follow_importPath ha hb hdir hstemPlain
  refine ⟨stem (ofPath target), hstem ▸ hwithout, ?_, ?_, ?_⟩
  · obtain ⟨second, rest, rfl⟩ := List.exists_cons_of_ne_nil hne
    rw [hspec, joinWith_cons_cons, List.append_assoc]
    rcases hfirst with rfl | rfl
    · exact .inl (List.prefix_append ['.', '/'] _)
    · exact .inr (List.prefix_append ['.', '.', '/'] _)
  · rw [ha, hb] at hresolves
    rw [hresolves, List.map_append]
    rfl
  · intro other hrelative hleads hend
    have hfirstShape : first ≠ [] ∧ '/' ∉ first := by
      rcases hfirst with rfl | rfl <;> decide
    rw [hspec, ofPath_joinWith hfirstShape.1 hfirstShape.2 hrest, hcount]
    exact climb_le_count hrelative.root_notMem hleads hend

/-- The type module of a component, as its hook imports it. -/
theorem hook_resolves_types :
    ofPath "hooks/useCardData.ts".toList = (["hooks".toList] ++ ["useCardData.ts".toList]).map name ∧
      ofPath "components/Card.types.ts".toList = (["components".toList] ++ ["Card.types.ts".toList]).map name ∧
      (∀ n ∈ ["components".toList] ++ ["Card.types.ts".toList], ¬ ['.', '.'] <+: n) ∧
      ∃ stem, WithoutExtension "Card.types.ts".toList stem ∧
        follow (["hooks".toList].map name) (ofPath (importPath (ofPath "hooks/useCardData.ts".toList)
          (ofPath "components/Card.types.ts".toList))) = (["components".toList] ++ [stem]).map name := by
  have hsource : ofPath "hooks/useCardData.ts".toList =
      (["hooks".toList] ++ ["useCardData.ts".toList]).map name := by decide
  have htarget : ofPath "components/Card.types.ts".toList =
      (["components".toList] ++ ["Card.types.ts".toList]).map name := by decide
  have hdots : ∀ n ∈ ["components".toList] ++ ["Card.types.ts".toList], ¬ ['.', '.'] <+: n := by decide
  obtain ⟨stem, hstem, -, hleads, -⟩ := importPath_resolves hsource htarget hdots
  exact ⟨hsource, htarget, hdots, stem, hstem, hleads⟩

/-- The directory of the importing file is reached without climbing, the module of its name is not. -/
theorem ownDirectory_climbs_less :
    ofPath "a/b/c.ts".toList = (["a".toList, "b".toList] ++ ["c.ts".toList]).map name ∧
      ofPath "a/b.ts".toList = (["a".toList] ++ ["b.ts".toList]).map name ∧
      importPath (ofPath "a/b/c.ts".toList) (ofPath "a/b.ts".toList) = "../b".toList ∧
      IsRelative "./.".toList ∧
      follow (["a".toList, "b".toList].map name) (ofPath "./.".toList) =
        (["a".toList] ++ ["b".toList]).map name ∧
      (ofPath "./.".toList).count up < (ofPath "../b".toList).count up :=
  ⟨by decide, by decide, by decide, .inl (List.prefix_append ['.', '/'] ['.']), by decide, by decide⟩

end Segment

end Recast
