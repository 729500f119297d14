import Mathlib.Data.List.Basic
import Recast.Artifact.Layout
import Recast.Proofs.Text.Pieces

/-!
# Paths of the artifacts

A path written from its pieces is read back as them, and a specifier followed from the
directory of its file leads to the module it was made for. The paths of the artifacts and
of their tests are written from pieces of letters and digits, and no two of them are equal.
-/

namespace Recast

namespace Text

theorem splitWhen_of_not {p : Char → Bool} {piece : List Char} (h : ∀ c ∈ piece, p c = false) :
    splitWhen p piece = [piece] := by
  induction piece with
  | nil => rfl
  | cons c r ih =>
    obtain ⟨hc, hr⟩ := List.forall_mem_cons.1 h
    simp [splitWhen, hc, ih hr]

theorem splitWhen_ne_nil (p : Char → Bool) (text : List Char) : splitWhen p text ≠ [] := by
  cases text with
  | nil => simp [splitWhen]
  | cons c r =>
    rw [splitWhen]
    split
    · exact List.cons_ne_nil _ _
    · cases splitWhen p r <;> exact List.cons_ne_nil _ _

theorem splitWhen_append {p : Char → Bool} {sep : Char} (hsep : p sep = true) (text rest : List Char) :
    splitWhen p (text ++ sep :: rest) = splitWhen p text ++ splitWhen p rest := by
  induction text with
  | nil => simp [splitWhen, hsep]
  | cons c r ih =>
    rw [List.cons_append, splitWhen, splitWhen, ih]
    by_cases hc : p c = true
    · simp [hc]
    · obtain ⟨piece, pieces, hr⟩ := List.exists_cons_of_ne_nil (splitWhen_ne_nil p r)
      simp [hc, hr]

theorem splitOn_of_not_mem {sep : Char} {piece : List Char} (h : sep ∉ piece) :
    splitOn sep piece = [piece] :=
  splitWhen_of_not fun _ hc => beq_eq_false_iff_ne.2 fun heq => h (heq ▸ hc)

theorem splitOn_ne_nil (sep : Char) (text : List Char) : splitOn sep text ≠ [] := splitWhen_ne_nil _ text

theorem splitOn_append (sep : Char) (text rest : List Char) :
    splitOn sep (text ++ sep :: rest) = splitOn sep text ++ splitOn sep rest :=
  @splitWhen_append (· == sep) sep (beq_self_eq_true sep) text rest

/-- Pieces without the separator are read back from their join. -/
theorem splitOn_joinWith {sep : Char} {pieces : List (List Char)} (hne : pieces ≠ [])
    (h : ∀ p ∈ pieces, sep ∉ p) : splitOn sep (joinWith [sep] pieces) = pieces := by
  induction pieces with
  | nil => exact absurd rfl hne
  | cons l ls ih =>
    obtain ⟨hl, hrest⟩ := List.forall_mem_cons.1 h
    cases ls with
    | nil => exact splitOn_of_not_mem hl
    | cons m ms =>
      rw [joinWith_cons_cons, List.append_assoc, List.singleton_append, splitOn_append,
        splitOn_of_not_mem hl, ih (List.cons_ne_nil m ms) hrest]
      rfl

theorem isAlphanum_toUpper {c : Char} (h : c.isAlphanum = true) : c.toUpper.isAlphanum = true := by
  unfold Char.toUpper
  split
  · rename_i hl
    have hlow : 97 ≤ c.val.toNat := UInt32.le_iff_toNat_le.1 hl.1
    have hhigh : c.val.toNat ≤ 122 := UInt32.le_iff_toNat_le.1 hl.2
    have hval : (c.val + ('A'.val - 'a'.val)).toNat = c.val.toNat - 32 := by
      rw [UInt32.toNat_add]
      show (c.val.toNat + 4294967264) % 2 ^ 32 = _
      omega
    have hupper : 'A'.val ≤ c.val + ('A'.val - 'a'.val) ∧ c.val + ('A'.val - 'a'.val) ≤ 'Z'.val := by
      rw [UInt32.le_iff_toNat_le, UInt32.le_iff_toNat_le, hval]
      show 65 ≤ _ ∧ _ ≤ 90
      omega
    exact Bool.or_eq_true_iff.2 (.inl (Bool.or_eq_true_iff.2 (.inl (decide_eq_true hupper))))
  · exact h

theorem isAlphanum_toLower {c : Char} (h : c.isAlphanum = true) : c.toLower.isAlphanum = true := by
  unfold Char.toLower
  split
  · rename_i hu
    have hlow : 65 ≤ c.val.toNat := UInt32.le_iff_toNat_le.1 hu.1
    have hhigh : c.val.toNat ≤ 90 := UInt32.le_iff_toNat_le.1 hu.2
    have hval : (c.val + ('a'.val - 'A'.val)).toNat = c.val.toNat + 32 := by
      rw [UInt32.toNat_add]
      show (c.val.toNat + 32) % 2 ^ 32 = _
      omega
    have hlower : 'a'.val ≤ c.val + ('a'.val - 'A'.val) ∧ c.val + ('a'.val - 'A'.val) ≤ 'z'.val := by
      rw [UInt32.le_iff_toNat_le, UInt32.le_iff_toNat_le, hval]
      show 97 ≤ _ ∧ _ ≤ 122
      omega
    have hdecided := Bool.and_eq_true_iff.2 ⟨decide_eq_true hlower.1, decide_eq_true hlower.2⟩
    exact Bool.or_eq_true_iff.2 (.inl (Bool.or_eq_true_iff.2 (.inr hdecided)))
  · exact h

theorem isAlphanum_of_mem_wordsFrom {cur text : List Char} (hcur : ∀ c ∈ cur, c.isAlphanum = true)
    {w : List Char} (hw : w ∈ wordsFrom cur text) : ∀ c ∈ w, c.isAlphanum = true := by
  have hrev : ∀ c ∈ cur.reverse, c.isAlphanum = true := fun c hc => hcur c (List.mem_reverse.1 hc)
  induction text generalizing cur with
  | nil =>
    simp only [wordsFrom] at hw
    split at hw
    · cases hw
    · exact List.mem_singleton.1 hw ▸ hrev
  | cons d r ih =>
    have hnil : ∀ c ∈ ([] : List Char), c.isAlphanum = true := fun c hc => nomatch hc
    simp only [wordsFrom] at hw
    split at hw
    · split at hw
      · exact ih hnil hw (by simp)
      · rcases List.mem_cons.1 hw with rfl | hw
        · exact hrev
        · exact ih hnil hw (by simp)
    · rename_i hd
      have hd : d.isAlphanum = true := by simpa using hd
      split at hw
      · rcases List.mem_cons.1 hw with rfl | hw
        · exact hrev
        · exact ih (by simpa using hd) hw (by simpa using hd)
      · have hcons : ∀ c ∈ d :: cur, c.isAlphanum = true := List.forall_mem_cons.2 ⟨hd, hcur⟩
        exact ih hcons hw fun c hc => hcons c (List.mem_reverse.1 hc)

theorem isAlphanum_capitalize {w : List Char} (h : ∀ c ∈ w, c.isAlphanum = true) :
    ∀ c ∈ capitalize w, c.isAlphanum = true := by
  cases w with
  | nil => exact h
  | cons d r =>
    obtain ⟨hd, hr⟩ := List.forall_mem_cons.1 h
    exact List.forall_mem_cons.2 ⟨isAlphanum_toUpper hd, hr⟩

theorem isAlphanum_pascalCase (text : List Char) : ∀ c ∈ pascalCase text, c.isAlphanum = true := by
  intro c hc
  obtain ⟨w, hw, hc⟩ := List.mem_flatMap.1 hc
  exact isAlphanum_capitalize (isAlphanum_of_mem_wordsFrom (by simp) hw) c hc

theorem isAlphanum_camelCase (text : List Char) : ∀ c ∈ camelCase text, c.isAlphanum = true := by
  have hwords {w : List Char} (hw : w ∈ words text) : ∀ c ∈ w, c.isAlphanum = true :=
    isAlphanum_of_mem_wordsFrom (by simp) hw
  intro c hc
  unfold camelCase at hc
  split at hc
  · cases hc
  · rename_i w ws hws
    rcases List.mem_append.1 hc with hc | hc
    · obtain ⟨d, hd, rfl⟩ := List.mem_map.1 hc
      exact isAlphanum_toLower (hwords (hws ▸ List.mem_cons_self) d hd)
    · obtain ⟨v, hv, hc⟩ := List.mem_flatMap.1 hc
      exact isAlphanum_capitalize (hwords (hws ▸ List.mem_cons_of_mem _ hv)) c hc

end Text

namespace Segment

open Text

/-- What a piece between separators stands for at the start of a path. -/
def ofPiece (piece : List Char) : Segment :=
  if piece = ['.'] then here else if piece = ['.', '.'] then up else name piece

/-- A piece that names a directory or a file. -/
structure Plain (piece : List Char) : Prop where
  ne_nil : piece ≠ []
  ne_here : piece ≠ ['.']
  ne_up : piece ≠ ['.', '.']
  no_slash : '/' ∉ piece

theorem Plain.ofPiece_eq {piece : List Char} (h : Plain piece) : ofPiece piece = name piece := by
  rw [ofPiece, if_neg h.ne_here, if_neg h.ne_up]

theorem inner?_eq {piece : List Char} (hne : piece ≠ []) (hhere : piece ≠ ['.']) :
    inner? piece = some (ofPiece piece) := by
  unfold inner? ofPiece
  have hguard : (piece.isEmpty || piece == ['.']) = false := by simp [hne, hhere]
  rw [if_neg (by simp [hguard]), if_neg hhere]
  by_cases hup : piece = ['.', '.']
  · simp [hup]
  · simp [hup]

/-- Pieces that are not empty are read back as segments. A dot stands only at the start. -/
theorem ofPath_joinWith {first : List Char} {rest : List (List Char)} (hne : first ≠ [])
    (hslash : '/' ∉ first) (hrest : ∀ p ∈ rest, p ≠ [] ∧ p ≠ ['.'] ∧ '/' ∉ p) :
    ofPath (joinWith ['/'] (first :: rest)) = (first :: rest).map ofPiece := by
  have hsplit : splitOn '/' (joinWith ['/'] (first :: rest)) = first :: rest :=
    splitOn_joinWith (List.cons_ne_nil _ _)
      (List.forall_mem_cons.2 ⟨hslash, fun p hp => (hrest p hp).2.2⟩)
  have hinner : rest.filterMap inner? = rest.map ofPiece := by
    rw [← List.filterMap_eq_map]
    refine List.filterMap_congr fun p hp => ?_
    exact inner?_eq (hrest p hp).1 (hrest p hp).2.1
  have hhead : (if first == ['.'] then some here else inner? first).toList = [ofPiece first] := by
    by_cases hhere : first = ['.']
    · simp [hhere, ofPiece]
    · simp [hhere, inner?_eq hne hhere]
  unfold ofPath
  split
  · rename_i r hr
    cases first with
    | nil => exact absurd rfl hne
    | cons c first =>
      cases rest <;> simp only [joinWith, List.cons_append, List.cons.injEq] at hr <;>
        simp [hr.1] at hslash
  · rw [hsplit]
    dsimp only
    rw [hhead, hinner]
    rfl

/-- A path of names is read back as them. -/
theorem ofPath_joinWith_plain {pieces : List (List Char)} (hne : pieces ≠ [])
    (h : ∀ p ∈ pieces, Plain p) : ofPath (joinWith ['/'] pieces) = pieces.map name := by
  cases pieces with
  | nil => exact absurd rfl hne
  | cons first rest =>
    obtain ⟨hf, hr⟩ := List.forall_mem_cons.1 h
    rw [ofPath_joinWith hf.ne_nil hf.no_slash
      fun p hp => ⟨(hr p hp).ne_nil, (hr p hp).ne_here, (hr p hp).no_slash⟩]
    exact List.map_congr_left fun p hp => (h p hp).ofPiece_eq

/-- The directory after a step. -/
def step (dir : List Segment) : Segment → List Segment
  | root => [root]
  | here => dir
  | up => parent dir
  | name n => dir ++ [name n]

/-- The place that a path leads to from a directory. -/
def follow (dir path : List Segment) : List Segment := path.foldl step dir

theorem follow_append (dir path path' : List Segment) :
    follow dir (path ++ path') = follow (follow dir path) path' :=
  List.foldl_append

theorem follow_names (dir : List Segment) (names : List (List Char)) :
    follow dir (names.map name) = dir ++ names.map name := by
  induction names generalizing dir with
  | nil => simp [follow]
  | cons n ns ih =>
    have hstep : follow dir ((n :: ns).map name) = follow (dir ++ [name n]) (ns.map name) := rfl
    rw [hstep, ih]
    simp

theorem parent_names (names : List (List Char)) :
    parent (names.map name) = names.dropLast.map name := by
  have hroot : ((names.map name).getLast? == some root) = false := by
    rw [beq_eq_false_iff_ne, ne_eq, List.getLast?_eq_some_iff]
    rintro ⟨ys, hys⟩
    have hmem : root ∈ names.map name := by
      rw [hys]
      exact List.mem_append_right _ (List.mem_singleton_self _)
    obtain ⟨n, -, hn⟩ := List.mem_map.1 hmem
    cases hn
  unfold parent
  rw [hroot]
  simp

theorem follow_ups {names : List (List Char)} {k : Nat} (h : k ≤ names.length) :
    follow (names.map name) (List.replicate (names.length - k) up) = (names.take k).map name := by
  induction hn : names.length - k generalizing names with
  | zero =>
    have hk : names.length ≤ k := by omega
    rw [List.take_of_length_le hk]
    rfl
  | succ n ih =>
    have hstep : follow (names.map name) (List.replicate (n + 1) up) =
        follow (parent (names.map name)) (List.replicate n up) := rfl
    have hlen : names.dropLast.length = names.length - 1 := List.length_dropLast
    rw [hstep, parent_names, ih (by omega) (by omega), List.dropLast_eq_take, List.take_take]
    congr 2
    omega

theorem commonLength_spec (a b : List (List Char)) :
    commonLength (a.map name) (b.map name) ≤ a.length ∧
      a.take (commonLength (a.map name) (b.map name)) =
        b.take (commonLength (a.map name) (b.map name)) := by
  induction a generalizing b with
  | nil => cases b <;> simp [commonLength]
  | cons x xs ih =>
    cases b with
    | nil => simp [commonLength]
    | cons y ys =>
      by_cases hxy : x = y
      · obtain ⟨hle, htake⟩ := ih ys
        simp [commonLength, hxy, hle, htake]
      · simp [commonLength, hxy]

/-- A specifier followed from the directory of the importing file leads to the module. -/
theorem follow_importPath {source target : List Segment} {a b : List (List Char)}
    (ha : parent source = a.map name) (hb : parent target = b.map name)
    (hplain : ∀ p ∈ b, Plain p) (hstem : Plain (stem target)) :
    follow (parent source) (ofPath (importPath source target)) =
      parent target ++ [name (stem target)] := by
  obtain ⟨hle, htake⟩ := commonLength_spec a b
  generalize hk : commonLength (a.map name) (b.map name) = k at hle htake
  let pieces := List.replicate (a.length - k) ['.', '.'] ++ b.drop k ++ [stem target]
  have hbetween : between (parent source) (parent target) ++ [stem target] = pieces := by
    simp only [between, ha, hb, hk, pieces, List.length_map, ← List.map_drop, List.map_map]
    congr 2
    exact List.map_id _
  have hpieces : ∀ p ∈ pieces, p ≠ [] ∧ p ≠ ['.'] ∧ '/' ∉ p := by
    intro p hp
    simp only [pieces, List.mem_append, List.mem_replicate, List.mem_singleton] at hp
    rcases hp with (⟨-, rfl⟩ | hp) | rfl
    · decide
    · have hp := hplain p (List.mem_of_mem_drop hp)
      exact ⟨hp.ne_nil, hp.ne_here, hp.no_slash⟩
    · exact ⟨hstem.ne_nil, hstem.ne_here, hstem.no_slash⟩
  have hmap : pieces.map ofPiece =
      List.replicate (a.length - k) up ++ ((b.drop k).map name ++ [name (stem target)]) := by
    have hdrop : (b.drop k).map ofPiece = (b.drop k).map name :=
      List.map_congr_left fun p hp => (hplain p (List.mem_of_mem_drop hp)).ofPiece_eq
    simp only [pieces, List.map_append, List.map_replicate, hdrop, List.map_cons, List.map_nil,
      hstem.ofPiece_eq, List.append_assoc]
    rfl
  have hfollow : follow (parent source) (pieces.map ofPiece) =
      parent target ++ [name (stem target)] := by
    have hnames : (b.drop k).map name ++ [name (stem target)] =
        (b.drop k ++ [stem target]).map name := by simp
    rw [hmap, follow_append, ha, follow_ups hle, hnames, follow_names, htake, hb, List.map_append,
      ← List.append_assoc, ← List.map_append, List.take_append_drop]
    rfl
  -- A dot in front of the first piece leads nowhere else.
  unfold importPath
  rw [hbetween]
  obtain ⟨first, rest, hcons⟩ : ∃ first rest, pieces = first :: rest :=
    List.exists_cons_of_ne_nil (by simp [pieces])
  rw [hcons] at hpieces hfollow ⊢
  obtain ⟨hfirst, hrest⟩ := List.forall_mem_cons.1 hpieces
  dsimp only
  split
  · rw [ofPath_joinWith hfirst.1 hfirst.2.2 hrest, hfollow]
  · have hdot : "./".toList ++ joinWith ['/'] (first :: rest) =
        joinWith ['/'] (['.'] :: first :: rest) := rfl
    rw [hdot, ofPath_joinWith (by decide) (by decide) hpieces]
    exact hfollow

theorem Plain.of_mem {piece : List Char} {c : Char} (hc : c ∈ piece) (hdot : c ≠ '.')
    (hslash : '/' ∉ piece) : Plain piece where
  ne_nil := List.ne_nil_of_mem hc
  ne_here := by
    rintro rfl
    simp [hdot] at hc
  ne_up := by
    rintro rfl
    simp [hdot] at hc
  no_slash := hslash

theorem Plain.append {piece suffix : List Char} (h : Plain piece) (hs : '/' ∉ suffix) :
    Plain (piece ++ suffix) := by
  obtain ⟨c, r, rfl⟩ := List.exists_cons_of_ne_nil h.ne_nil
  refine ⟨by simp, ?_, ?_, fun hmem => (List.mem_append.1 hmem).elim h.no_slash hs⟩
  · intro heq
    simp only [List.cons_append, List.cons.injEq, List.append_eq_nil_iff] at heq
    obtain ⟨rfl, rfl, -⟩ := heq
    exact h.ne_here rfl
  · intro heq
    simp only [List.cons_append, List.cons.injEq] at heq
    obtain ⟨rfl, heq⟩ := heq
    cases r with
    | nil => exact h.ne_here rfl
    | cons d r =>
      simp only [List.cons_append, List.cons.injEq, List.append_eq_nil_iff] at heq
      obtain ⟨rfl, rfl, -⟩ := heq
      exact h.ne_up rfl

theorem stemOf_append {base extension : List Char} (hne : base ≠ []) (hdot : '.' ∉ extension) :
    stemOf (base ++ '.' :: extension) = base := by
  have hindex {u v : List Char} (hu : '.' ∉ u) : indexOf? (u ++ '.' :: v) ['.'] = some u.length := by
    induction u with
    | nil => rfl
    | cons c u ih =>
      simp only [List.mem_cons, not_or] at hu
      have hc : ('.' == c) = false := by simpa using hu.1
      simp [indexOf?, startsWith, dropPrefix?, hc, ih hu.2]
  have hrev : (base ++ '.' :: extension).reverse = extension.reverse ++ '.' :: base.reverse := by
    simp
  unfold stemOf
  rw [hrev, hindex (by simpa using hdot)]
  have hlen : (base ++ '.' :: extension).length - 1 - extension.reverse.length = base.length := by
    simp
  simp only [hlen, List.take_left]
  rw [if_neg (by simpa using hne)]

end Segment

namespace ArtifactLayout

open Text Segment

/-- The names that the paths are made from hold letters and digits only. -/
structure Clean (l : ArtifactLayout) : Prop where
  name_ne : l.name.toList ≠ []
  name : ∀ c ∈ l.name.toList, c.isAlphanum = true
  camel : ∀ c ∈ l.camel.toList, c.isAlphanum = true

theorem clean_ofName {componentName : String} {tier : Tier}
    (h : isIdentifier (ofName componentName tier).name.toList = true) :
    (ofName componentName tier).Clean where
  name_ne := by
    intro hnil
    rw [hnil] at h
    cases h
  name := by
    simpa [ofName] using isAlphanum_pascalCase componentName.toList
  camel := by
    simpa [ofName] using isAlphanum_camelCase (pascalCase componentName.toList)

/-- The directories above an artifact. -/
def dirs (l : ArtifactLayout) : ArtifactKind → List (List Char)
  | .component | .types => ["components".toList, l.tier.label.toList, l.name.toList]
  | .hook => ["hooks".toList]
  | .service => ["services".toList]
  | .store => ["stores".toList]
  | .test => ["components".toList, l.tier.label.toList, l.name.toList, "__tests__".toList]

/-- The name of the module of an artifact: its file name up to the final extension. -/
def base (l : ArtifactLayout) : ArtifactKind → List Char
  | .component => l.name.toList
  | .types => l.name.toList ++ ".types".toList
  | .hook => l.hookName.toList
  | .service => l.serviceInstance.toList
  | .store => l.camel.toList ++ "Store".toList
  | .test => l.name.toList ++ ".test".toList

def extension : ArtifactKind → List Char
  | .component | .test => "tsx".toList
  | .types | .hook | .service | .store => "ts".toList

variable {l : ArtifactLayout}

theorem no_slash_of_isAlphanum {piece : List Char} (h : ∀ c ∈ piece, c.isAlphanum = true) :
    '/' ∉ piece := fun hc => absurd (h _ hc) (by decide)

theorem Clean.plain_name (h : l.Clean) : Plain l.name.toList := by
  obtain ⟨c, r, hc⟩ := List.exists_cons_of_ne_nil h.name_ne
  have hmem : c ∈ l.name.toList := hc ▸ List.mem_cons_self
  refine .of_mem hmem ?_ (no_slash_of_isAlphanum h.name)
  rintro rfl
  exact absurd (h.name _ hmem) (by decide)

theorem Clean.plain_dirs (h : l.Clean) (kind : ArtifactKind) : ∀ p ∈ l.dirs kind, Plain p := by
  have htier : Plain l.tier.label.toList := by
    cases l.tier
    · exact .of_mem (c := 'l') (by decide) (by decide) (by decide)
    · exact .of_mem (c := 'c') (by decide) (by decide) (by decide)
    · exact .of_mem (c := 'a') (by decide) (by decide) (by decide)
  have hcomponents : Plain "components".toList := .of_mem (c := 'c') (by decide) (by decide) (by decide)
  have htests : Plain "__tests__".toList := .of_mem (c := 't') (by decide) (by decide) (by decide)
  have hname := h.plain_name
  intro p hp
  cases kind <;> simp only [dirs, List.mem_cons, List.not_mem_nil, or_false] at hp
  case component | types => rcases hp with rfl | rfl | rfl <;> assumption
  case test => rcases hp with rfl | rfl | rfl | rfl <;> assumption
  case hook | service | store => exact hp ▸ .of_mem (c := 's') (by decide) (by decide) (by decide)

theorem Clean.plain_base (h : l.Clean) (kind : ArtifactKind) : Plain (l.base kind) := by
  have hcamel := no_slash_of_isAlphanum h.camel
  have hname := no_slash_of_isAlphanum h.name
  cases kind with
  | component => exact h.plain_name
  | types => exact h.plain_name.append (by decide)
  | test => exact h.plain_name.append (by decide)
  | hook =>
    refine .of_mem (c := 'u') ?_ (by decide) ?_
    · simp [base, hookName]
    · simpa [base, hookName] using hname
  | service =>
    refine .of_mem (c := 'S') ?_ (by decide) ?_
    · simp [base, serviceInstance]
    · simpa [base, serviceInstance] using hcamel
  | store =>
    refine .of_mem (c := 'S') ?_ (by decide) ?_
    · simp [base]
    · simpa [base] using hcamel

theorem joinWith_append_singleton {sep piece : List Char} {pieces : List (List Char)}
    (h : pieces ≠ []) : joinWith sep (pieces ++ [piece]) = joinWith sep pieces ++ sep ++ piece := by
  induction pieces with
  | nil => exact absurd rfl h
  | cons l ls ih =>
    cases ls with
    | nil => rfl
    | cons m ms =>
      have hr := ih (List.cons_ne_nil m ms)
      rw [List.cons_append] at hr
      rw [List.cons_append, List.cons_append, joinWith_cons_cons, joinWith_cons_cons, hr]
      simp only [List.append_assoc]

theorem dirs_ne_nil (l : ArtifactLayout) (kind : ArtifactKind) : l.dirs kind ≠ [] := by
  cases kind <;> exact List.cons_ne_nil _ _

/-- The pieces of the path of an artifact. -/
def pieces (l : ArtifactLayout) (kind : ArtifactKind) : List (List Char) :=
  l.dirs kind ++ [l.base kind ++ '.' :: extension kind]

/-- The pieces of the path of its test. -/
def testPieces (l : ArtifactLayout) (kind : ArtifactKind) : List (List Char) :=
  l.dirs kind ++ ["__tests__".toList, l.base kind ++ ".test".toList ++ (testExtension kind).toList]

theorem Clean.plain_pieces (h : l.Clean) (kind : ArtifactKind) : ∀ p ∈ l.pieces kind, Plain p := by
  have hfile : Plain (l.base kind ++ '.' :: extension kind) :=
    (h.plain_base kind).append (by cases kind <;> decide)
  intro p hp
  rcases List.mem_append.1 hp with hp | hp
  · exact h.plain_dirs kind p hp
  · exact List.mem_singleton.1 hp ▸ hfile

theorem Clean.segments_eq (h : l.Clean) {path : String} {kind : ArtifactKind}
    (hpath : path.toList = joinWith ['/'] (l.pieces kind)) :
    ofPath path.toList = (l.pieces kind).map .name ∧
      parent (ofPath path.toList) = (l.dirs kind).map .name ∧
      stem (ofPath path.toList) = l.base kind := by
  have hsegments : ofPath path.toList = (l.pieces kind).map .name := by
    rw [hpath, ofPath_joinWith_plain (by simp [pieces]) (h.plain_pieces kind)]
  refine ⟨hsegments, ?_, ?_⟩
  · rw [hsegments, parent_names]
    simp [pieces]
  · rw [hsegments]
    simp only [stem, fileName?, pieces, List.map_append, List.map_cons, List.map_nil,
      List.getLast?_append_cons, List.getLast?_singleton, Option.map_some, Option.getD_some]
    exact stemOf_append (h.plain_base kind).ne_nil (by cases kind <;> decide)

theorem Clean.toList_inComponentDir (h : l.Clean) (file : String) :
    (l.inComponentDir file).toList = joinWith ['/'] (l.dirs .component ++ [file.toList]) := by
  have hname : ¬ l.name.isEmpty = true := by
    intro hempty
    exact h.name_ne (by rw [String.isEmpty_iff.1 hempty]; rfl)
  have hcomponents : "components/".toList = "components".toList ++ ['/'] := rfl
  have hslash : "/".toList = ['/'] := rfl
  simp [inComponentDir, componentDir, hname, dirs, joinWith, String.toList_append, hcomponents, hslash]

/-- A test stands in a directory beside the file, under the name of its module. -/
theorem Clean.toList_testBeside (h : l.Clean) {path : String} {kind : ArtifactKind}
    (hpath : path.toList = joinWith ['/'] (l.pieces kind)) (extension : String) :
    (testBeside path extension).toList = joinWith ['/'] (l.dirs kind ++
      ["__tests__".toList, l.base kind ++ ".test".toList ++ extension.toList]) := by
  obtain ⟨-, hparent, hstem⟩ := h.segments_eq hpath
  have htests : "/__tests__/".toList = ['/'] ++ "__tests__".toList ++ ['/'] := rfl
  have hjoin : joinAll ((l.dirs kind).map .name) = joinWith ['/'] (l.dirs kind) := by
    unfold joinAll
    rw [List.map_map]
    exact congrArg _ (List.map_id _)
  have hpieces : l.dirs kind ++ ["__tests__".toList, l.base kind ++ ".test".toList ++ extension.toList] =
      (l.dirs kind ++ ["__tests__".toList]) ++ [l.base kind ++ ".test".toList ++ extension.toList] := by
    simp
  rw [hpieces, joinWith_append_singleton (by simp), joinWith_append_singleton (l.dirs_ne_nil kind)]
  simp only [testBeside, String.toList_append, String.toList_ofList, hparent, hstem, hjoin, htests,
    List.append_assoc]

theorem Clean.toList_pathFor (h : l.Clean) (kind : ArtifactKind) :
    (l.pathFor kind).toList = joinWith ['/'] (l.pieces kind) := by
  have hcomponent : l.componentPath.toList = joinWith ['/'] (l.pieces .component) := by
    rw [componentPath, h.toList_inComponentDir, String.toList_append]
    rfl
  cases kind with
  | component => exact hcomponent
  | types =>
    rw [pathFor, h.toList_inComponentDir, String.toList_append]
    simp [pieces, base, extension, dirs]
  | hook => simp [pathFor, pieces, base, extension, dirs, joinWith, String.toList_append]
  | service => simp [pathFor, pieces, base, extension, dirs, joinWith, String.toList_append]
  | store => simp [pathFor, pieces, base, extension, dirs, joinWith, String.toList_append]
  | test =>
    rw [pathFor, h.toList_testBeside hcomponent]
    simp [pieces, base, extension, dirs, joinWith]

theorem Clean.toList_testPathFor (h : l.Clean) (kind : ArtifactKind) :
    (l.testPathFor kind).toList = joinWith ['/'] (l.testPieces kind) :=
  h.toList_testBeside (h.toList_pathFor kind) _

theorem Clean.plain_testPieces (h : l.Clean) (kind : ArtifactKind) :
    ∀ p ∈ l.testPieces kind, Plain p := by
  have htests : Plain "__tests__".toList := .of_mem (c := 't') (by decide) (by decide) (by decide)
  have hfile : Plain (l.base kind ++ ".test".toList ++ (testExtension kind).toList) :=
    ((h.plain_base kind).append (by decide)).append (by cases kind <;> decide)
  intro p hp
  simp only [testPieces, List.mem_append, List.mem_cons, List.not_mem_nil, or_false] at hp
  rcases hp with hp | rfl | rfl
  · exact h.plain_dirs kind p hp
  · exact htests
  · exact hfile

theorem Clean.ofPath_testPathFor (h : l.Clean) (kind : ArtifactKind) :
    ofPath (l.testPathFor kind).toList = (l.testPieces kind).map .name := by
  rw [h.toList_testPathFor, ofPath_joinWith_plain (by simp [testPieces]) (h.plain_testPieces kind)]

theorem Clean.parent_testPathFor (h : l.Clean) (kind : ArtifactKind) :
    parent (ofPath (l.testPathFor kind).toList) =
      (l.dirs kind ++ ["__tests__".toList]).map .name := by
  rw [h.ofPath_testPathFor, parent_names]
  simp [testPieces]

theorem pieces_inj {kind kind' : ArtifactKind} (h : l.pieces kind = l.pieces kind') : kind = kind' := by
  cases kind <;> cases kind' <;> first | rfl | simp [pieces, dirs, base, extension] at h

theorem testPieces_inj {kind kind' : ArtifactKind} (h : l.testPieces kind = l.testPieces kind') :
    kind = kind' := by
  cases kind <;> cases kind' <;> first | rfl | simp [testPieces, dirs, base, testExtension] at h

theorem pieces_ne_testPieces (l l' : ArtifactLayout) {kind kind' : ArtifactKind} (hkind : kind ≠ .test)
    (hkind' : kind' ≠ .test) : l.pieces kind ≠ l'.testPieces kind' := by
  intro h
  have hlen := congrArg List.length h
  cases kind <;> cases kind' <;> simp [pieces, testPieces, dirs] at hlen hkind hkind'

/-- No two artifacts and tests of distinct kinds share a path. -/
theorem Clean.nodup_paths (h : l.Clean) {kinds : List ArtifactKind} (hnodup : kinds.Nodup)
    (htest : .test ∉ kinds) : (kinds.map l.pathFor ++ kinds.map l.testPathFor).Nodup := by
  have hname {a b : List (List Char)} (hab : a.map Segment.name = b.map Segment.name) : a = b :=
    List.map_injective_iff.2 (fun x y hxy => by injection hxy) hab
  have hpath {kind kind' : ArtifactKind} (heq : l.pathFor kind = l.pathFor kind') : kind = kind' := by
    have hsegments := (h.segments_eq (h.toList_pathFor kind)).1
    rw [heq, (h.segments_eq (h.toList_pathFor kind')).1] at hsegments
    exact (pieces_inj (hname hsegments)).symm
  have htestPath {kind kind' : ArtifactKind} (heq : l.testPathFor kind = l.testPathFor kind') :
      kind = kind' := by
    have hsegments := h.ofPath_testPathFor kind
    rw [heq, h.ofPath_testPathFor kind'] at hsegments
    exact (testPieces_inj (hname hsegments)).symm
  rw [List.nodup_append]
  refine ⟨List.Pairwise.map _ (fun _ _ hne heq => hne (hpath heq)) hnodup,
    List.Pairwise.map _ (fun _ _ hne heq => hne (htestPath heq)) hnodup, ?_⟩
  intro path hp path' hp' heq
  obtain ⟨kind, hk, rfl⟩ := List.mem_map.1 hp
  obtain ⟨kind', hk', hpath'⟩ := List.mem_map.1 hp'
  have hsegments := (h.segments_eq (h.toList_pathFor kind)).1
  rw [heq, ← hpath', h.ofPath_testPathFor kind'] at hsegments
  exact pieces_ne_testPieces l l (by rintro rfl; exact htest hk) (by rintro rfl; exact htest hk')
    (hname hsegments).symm

end ArtifactLayout

end Recast
