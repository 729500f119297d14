import Recast.Proofs.Artifact.ImportGrammar
import Recast.Proofs.Text.Once

/-!
# What additions to an import set come to

The entries stand in the order in which their origins were first added to. An entry has the first
default name and the first module name of its origin, and every name in braces once.
-/

namespace Recast

theorem addOnce_eraseDups (xs : List String) (x : String) :
    ImportSet.addOnce xs.eraseDups x = (xs ++ [x]).eraseDups := by
  rw [eraseDups_append_singleton]
  unfold ImportSet.addOnce
  simp only [List.contains_iff_mem, List.mem_eraseDups]

inductive Addition
  | default (origin name : String)
  | wholeModule (origin name : String)
  | named (origin name : String)
  | type (origin name : String)
  | sideEffect (origin : String)
  | asset (name origin : String)
  deriving DecidableEq, Repr

namespace Addition

def add (s : ImportSet) : Addition → ImportSet
  | default o n => s.addDefault o n
  | wholeModule o n => s.addModule o n
  | named o n => s.addNamed o n
  | type o n => s.addType o n
  | sideEffect o => s.addSideEffect o
  | asset n o => s.addAsset n o

/-- The origin of the entry that is added to, and whether the entry is for types only. -/
def key? : Addition → Option (String × Bool)
  | default o _ | wholeModule o _ | named o _ => some (o, false)
  | type o _ => some (o, true)
  | sideEffect _ | asset _ _ => none

/-- What is added to the entry of the key. -/
def put : Addition → ImportEntry → ImportEntry
  | default _ n, e => { e with default? := e.default?.or (some n) }
  | wholeModule _ n, e => { e with module? := e.module?.or (some n) }
  | named _ n, e | type _ n, e => { e with named := ImportSet.addOnce e.named n }
  | sideEffect _, e | asset _ _, e => e

variable (key : String × Bool)

def default? : Addition → Option String
  | default o n => if key = (o, false) then some n else none
  | _ => none

def module? : Addition → Option String
  | wholeModule o n => if key = (o, false) then some n else none
  | _ => none

def named? : Addition → Option String
  | named o n => if key = (o, false) then some n else none
  | type o n => if key = (o, true) then some n else none
  | _ => none

def sideEffect? : Addition → Option String
  | sideEffect o => some o
  | _ => none

def asset? : Addition → Option Asset
  | asset n o => some ⟨n, ImportSet.assetPath o⟩
  | _ => none

/-- The entry of the key after the additions. -/
def gathered (adds : List Addition) : ImportEntry where
  origin := key.1
  typeOnly := key.2
  default? := adds.findSome? (default? key)
  module? := adds.findSome? (module? key)
  named := (adds.filterMap (named? key)).eraseDups

variable {key} {a : Addition} {n : String} {adds : List Addition}

theorem add_eq_update (h : a.key? = some key) (s : ImportSet) : add s a = s.update key.1 key.2 a.put := by
  cases a <;> cases h <;> rfl

theorem eq_none_of_key?_ne (h : a.key? ≠ some key) :
    a.default? key = none ∧ a.module? key = none ∧ a.named? key = none := by
  cases a <;> simp_all [key?, default?, module?, named?, eq_comm]

theorem default?_eq_some : a.default? key = some n ↔ key.2 = false ∧ a = default key.1 n := by
  obtain ⟨o, t⟩ := key
  cases a <;> grind [default?]

theorem module?_eq_some : a.module? key = some n ↔ key.2 = false ∧ a = wholeModule key.1 n := by
  obtain ⟨o, t⟩ := key
  cases a <;> grind [module?]

theorem named?_eq_some : a.named? key = some n ↔ a = if key.2 then type key.1 n else named key.1 n := by
  obtain ⟨o, t⟩ := key
  cases a <;> cases t <;> grind [named?]

theorem mem_of_default? (h : (gathered key adds).default? = some n) : key.2 = false ∧ default key.1 n ∈ adds := by
  obtain ⟨a, ha, hn⟩ := List.exists_of_findSome?_eq_some h
  obtain ⟨hvalues, rfl⟩ := default?_eq_some.1 hn
  exact ⟨hvalues, ha⟩

theorem mem_of_module? (h : (gathered key adds).module? = some n) : key.2 = false ∧ wholeModule key.1 n ∈ adds := by
  obtain ⟨a, ha, hn⟩ := List.exists_of_findSome?_eq_some h
  obtain ⟨hvalues, rfl⟩ := module?_eq_some.1 hn
  exact ⟨hvalues, ha⟩

theorem mem_named : n ∈ (gathered key adds).named ↔ (if key.2 then type key.1 n else named key.1 n) ∈ adds := by
  simp only [gathered, List.mem_eraseDups, List.mem_filterMap, named?_eq_some, exists_eq_right]

theorem default?_gathered_ne_none {o : String} (h : default o n ∈ adds) :
    (gathered (o, false) adds).default? ≠ none := by
  intro hnone
  have hn := List.findSome?_eq_none_iff.1 hnone _ h
  simp [default?] at hn

theorem module?_gathered_ne_none {o : String} (h : wholeModule o n ∈ adds) :
    (gathered (o, false) adds).module? ≠ none := by
  intro hnone
  have hn := List.findSome?_eq_none_iff.1 hnone _ h
  simp [module?] at hn

theorem gathered_of_notMem (h : key ∉ adds.filterMap key?) :
    gathered key adds = { origin := key.1, typeOnly := key.2 } := by
  have hnone : ∀ a ∈ adds, a.default? key = none ∧ a.module? key = none ∧ a.named? key = none :=
    fun a ha => eq_none_of_key?_ne fun hkey => h (List.mem_filterMap.2 ⟨a, ha, hkey⟩)
  have hdefault : adds.findSome? (default? key) = none := List.findSome?_eq_none_iff.2 fun a ha => (hnone a ha).1
  have hmodule : adds.findSome? (module? key) = none := List.findSome?_eq_none_iff.2 fun a ha => (hnone a ha).2.1
  have hnamed : adds.filterMap (named? key) = [] := List.filterMap_eq_nil_iff.2 fun a ha => (hnone a ha).2.2
  simp [gathered, hdefault, hmodule, hnamed]

/-- An addition changes the entry of its key, and no other. -/
theorem gathered_append (a : Addition) : gathered key (adds ++ [a]) =
    if a.key? = some key then a.put (gathered key adds) else gathered key adds := by
  unfold gathered
  rw [List.findSome?_append, List.findSome?_append, List.filterMap_append]
  split
  · rename_i hkey
    cases a <;> cases hkey <;>
      simp [put, default?, module?, named?, addOnce_eraseDups, List.filterMap_cons]
  · rename_i hkey
    obtain ⟨hdefault, hmodule, hnamed⟩ := eq_none_of_key?_ne hkey
    simp [hdefault, hmodule, hnamed]

end Addition

namespace ImportSet

open Addition

/-- The set that the additions make, one after the other. -/
def ofAdditions (adds : List Addition) : ImportSet := adds.foldl add {}

/-- An update of a set whose entries are told by their keys: it changes what is told of one key. -/
theorem updateEntry_map {key : String × Bool} {f : ImportEntry → ImportEntry} {g g' : String × Bool → ImportEntry}
    (hkey : ∀ k, (g k).origin = k.1 ∧ (g k).typeOnly = k.2) (hother : ∀ k, k ≠ key → g' k = g k)
    (hsame : g' key = f (g key)) {keys : List (String × Bool)}
    (hfresh : key ∉ keys → g key = { origin := key.1, typeOnly := key.2 }) (hnodup : keys.Nodup) :
    updateEntry key.1 key.2 f (keys.map g) = (if key ∈ keys then keys else keys ++ [key]).map g' := by
  induction keys with
  | nil =>
    rw [List.map_nil, updateEntry, ← hfresh List.not_mem_nil, ← hsame]
    rfl
  | cons k ks ih =>
    obtain ⟨hk, hks⟩ := List.nodup_cons.1 hnodup
    rw [List.map_cons, updateEntry, (hkey k).1, (hkey k).2]
    by_cases heq : k = key
    · subst heq
      have hrest : ks.map g' = ks.map g :=
        List.map_congr_left fun l hl => hother l fun heq => hk (heq ▸ hl)
      simp [hsame, hrest]
    · have hne : (k.1 == key.1 && k.2 == key.2) = false := by
        simpa [Prod.ext_iff] using heq
      have hmem : key ∈ k :: ks ↔ key ∈ ks := by simp [Ne.symm heq]
      have hrest := ih (fun hnot => hfresh (mt hmem.1 hnot)) hks
      simp only [hne, Bool.false_eq_true, if_false, hrest, hmem]
      split <;> simp [hother k heq]

theorem updateEntry_gathered {a : Addition} {key : String × Bool} (hkey : a.key? = some key) (adds : List Addition) :
    updateEntry key.1 key.2 a.put ((adds.filterMap key?).eraseDups.map fun k => gathered k adds) =
      ((adds ++ [a]).filterMap key?).eraseDups.map fun k => gathered k (adds ++ [a]) := by
  have hother (k : String × Bool) (hne : k ≠ key) : gathered k (adds ++ [a]) = gathered k adds := by
    rw [gathered_append, hkey, if_neg (by simpa using Ne.symm hne)]
  have hsame : gathered key (adds ++ [a]) = a.put (gathered key adds) := by
    rw [gathered_append, if_pos hkey]
  have hfresh (hnot : key ∉ (adds.filterMap key?).eraseDups) := gathered_of_notMem (mt List.mem_eraseDups.2 hnot)
  have hupdate := updateEntry_map (fun _ => ⟨rfl, rfl⟩) hother hsame hfresh (nodup_eraseDups _)
  simp only [List.mem_eraseDups] at hupdate
  rw [hupdate, List.filterMap_append, List.filterMap_cons_some hkey, List.filterMap_nil, eraseDups_append_singleton]

/-- What a sequence of additions comes to. -/
theorem ofAdditions_eq (adds : List Addition) : ofAdditions adds =
    { entries := (adds.filterMap key?).eraseDups.map fun key => gathered key adds
      sideEffects := (adds.filterMap sideEffect?).eraseDups
      assets := adds.filterMap asset? } := by
  induction adds using List.reverseRecOn with
  | nil => rfl
  | append_singleton adds a ih =>
    have hadd : ofAdditions (adds ++ [a]) = add (ofAdditions adds) a := by
      rw [ofAdditions, List.foldl_append]
      rfl
    rw [hadd, ih]
    cases hkey : a.key? with
    | none =>
      have hentries (k : String × Bool) : gathered k (adds ++ [a]) = gathered k adds := by
        rw [gathered_append, hkey, if_neg (by simp)]
      simp only [hentries, List.filterMap_append, List.filterMap_cons_none hkey, List.filterMap_nil, List.append_nil]
      cases a with
      | sideEffect o => simp [add, addSideEffect, sideEffect?, asset?, addOnce_eraseDups, List.filterMap_cons]
      | asset n o => simp [add, addAsset, sideEffect?, asset?, List.filterMap_cons]
      | _ => cases hkey
    | some key =>
      have hothers : a.sideEffect? = none ∧ a.asset? = none := by cases a <;> cases hkey <;> exact ⟨rfl, rfl⟩
      rw [add_eq_update hkey, update, updateEntry_gathered hkey]
      simp only [List.filterMap_append, List.filterMap_cons_none hothers.1, List.filterMap_cons_none hothers.2,
        List.filterMap_nil, List.append_nil]

end ImportSet

end Recast
