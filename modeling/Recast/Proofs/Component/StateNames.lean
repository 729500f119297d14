import Recast.Proofs.Artifact.Paths
import Recast.Proofs.Component.Identifiers
import Recast.Proofs.Pattern.Mentions
import Recast.Proofs.Text.Splitting

/-!
# Names of state

A group of a pattern holds characters that stand in it, so what the hook patterns find is spelled like a
name. The keys of a state object are identifiers, and a setter that is made up of one is letters and digits.
So every state and every setter among the facts is a name, and the type is guessed from the initial value
(`Facts.wellFormed_of_analyze`).
-/

namespace Recast

namespace Pattern

/-- The patterns that stand in a group. -/
def inGroup (i : Nat) : Pattern → List Pattern
  | empty | char _ | anchor _ => []
  | seq p q | either p q => p.inGroup i ++ q.inGroup i
  | many _ p => p.inGroup i
  | group j p => (if j = i then [p] else []) ++ p.inGroup i

/-- All characters that the pattern admits have the property. -/
def Spells (P : Char → Prop) : Pattern → Prop
  | empty | anchor _ => True
  | char p => ∀ x, p x = true → P x
  | seq p q | either p q => p.Spells P ∧ q.Spells P
  | many _ p | group _ p => p.Spells P

variable {P : Char → Prop}

theorem Reads.spells {p : Pattern} {c c' : Cursor} {g g' : Groups} (h : Reads p c g c' g') (hp : p.Spells P) :
    ∃ u, c.rest = u ++ c'.rest ∧ c'.pos = c.pos + u.length ∧ ∀ x ∈ u, P x := by
  induction h with
  | empty | anchor | done => exact ⟨[], rfl, rfl, by simp⟩
  | @char p n prev x r g hx => exact ⟨[x], rfl, rfl, by simpa using hp x hx⟩
  | seq _ _ ihp ihq =>
    obtain ⟨u, hu, hn, hup⟩ := ihp hp.1
    obtain ⟨v, hv, hm, hvp⟩ := ihq hp.2
    exact ⟨u ++ v, by simp [hu, hv], by simp [hn, hm, Nat.add_assoc], List.forall_mem_append.2 ⟨hup, hvp⟩⟩
  | more _ _ ihp ihq =>
    obtain ⟨u, hu, hn, hup⟩ := ihp hp
    obtain ⟨v, hv, hm, hvp⟩ := ihq hp
    exact ⟨u ++ v, by simp [hu, hv], by simp [hn, hm, Nat.add_assoc], List.forall_mem_append.2 ⟨hup, hvp⟩⟩
  | left _ ih => exact ih hp.1
  | right _ ih => exact ih hp.2
  | group _ ih => exact ih hp

/-- What a reading adds to a group holds characters that stand in it. -/
theorem Reads.spells_groups {i : Nat} {p : Pattern} {c c' : Cursor} {g g' : Groups} {text : List Char}
    (h : Reads p c g c' g') (hc : c.In text) (hp : ∀ q ∈ p.inGroup i, q.Spells P)
    (hg : ∀ s, (i, s) ∈ g → ∀ x ∈ s.text text, P x) : ∀ s, (i, s) ∈ g' → ∀ x ∈ s.text text, P x := by
  induction h with
  | empty | char | anchor | done => exact hg
  | seq h _ ihp ihq =>
    obtain ⟨hp, hq⟩ := List.forall_mem_append.1 hp
    exact ihq (h.within hc) hq (ihp hc hp hg)
  | more h _ ihp ihq => exact ihq (h.within hc) hp (ihp hc hp hg)
  | left _ ih => exact ih hc (List.forall_mem_append.1 hp).1 hg
  | right _ ih => exact ih hc (List.forall_mem_append.1 hp).2 hg
  | @group j p c g c' g' h ih =>
    obtain ⟨hown, hinner⟩ := List.forall_mem_append.1 hp
    intro s hs
    rcases List.mem_cons.1 hs with hs | hs
    · obtain ⟨rfl, rfl⟩ := Prod.mk.inj hs
      obtain ⟨u, hu, hn, hup⟩ := h.spells (hown p (by simp))
      rwa [hc.text_span hu hn]
    · exact ih hc hinner hg s hs

theorem Found.spells {i : Nat} {p : Pattern} {text t : List Char} {m : Match} (h : p.Found text m) (hi : i ≠ 0)
    (hp : ∀ q ∈ p.inGroup i, q.Spells P) (ht : m.groupText? text i = some t) : ∀ x ∈ t, P x := by
  obtain ⟨c, c', hc, hr, -⟩ := h.elim exists_reads_of_find? exists_reads_of_mem_matchesOf
  obtain ⟨s, hs, rfl⟩ := Option.map_eq_some_iff.1 ht
  rw [Match.group?, if_neg hi] at hs
  exact hr.spells_groups hc hp (by simp) s (mem_of_lookup_eq_some hs)

end Pattern

open Text

/-- What a name is spelled with. -/
def isNameChar (c : Char) : Bool := isIdentChar c || Unicode.isWordChar c

def Spelled (s : String) : Prop := ∀ c ∈ s.toList, isNameChar c = true

theorem Spelled.not_mem {s : String} (h : Spelled s) {c : Char} (hc : isNameChar c = false) : c ∉ s.toList :=
  fun hmem => by rw [h c hmem] at hc; cases hc

theorem Pattern.spells_name : Pattern.name.Spells (isNameChar · = true) := by
  refine ⟨fun x hx => ?_, fun x hx => ?_⟩
  · simp [isNameChar, isIdentChar_of_start hx]
  · rcases Bool.or_eq_true_iff.1 hx with hx | hx
    · simp [isNameChar, hx]
    · simp [isNameChar, isIdentChar, hx]

theorem isNameChar_of_isIdentifier {text : List Char} (h : isIdentifier text = true) :
    ∀ c ∈ text, isNameChar c = true := by
  intro c hc
  simp [isNameChar, isIdentChar_of_mem h hc]

theorem not_isBlank_of_isNameChar {c : Char} (h : isNameChar c = true) : isBlank c = false := by
  refine Bool.eq_false_iff.2 fun hblank => ?_
  rw [isNameChar, isIdentChar_of_isBlank hblank, Pattern.not_isWordChar_of_blank hblank] at h
  cases h

namespace StateBinding

/-- The state and its setter are names, and the type is the one that its initial value suggests. -/
structure WellFormed (s : StateBinding) : Prop where
  name : Spelled s.name
  setter : Spelled s.setter
  type : s.type = ValueType.ofLiteral s.initial.toList

theorem spelled_pascalCase (name : List Char) : Spelled ("set" ++ String.ofList (pascalCase name)) := by
  intro c hc
  have hset : ∀ c ∈ "set".toList, c.isAlphanum = true := List.all_eq_true.1 (by decide)
  have halphanum : c.isAlphanum = true := by
    rw [String.toList_append, List.mem_append] at hc
    exact hc.elim (hset c) fun hc => isAlphanum_pascalCase name c (by simpa using hc)
  simp [isNameChar, isIdentChar, halphanum]

theorem feed_not_mem_ofLiteral (e : List Char) : '\n' ∉ (ValueType.ofLiteral e).toList := by
  unfold ValueType.ofLiteral
  dsimp only
  repeat' split
  all_goals decide

theorem WellFormed.feed_not_mem_type {s : StateBinding} (h : s.WellFormed) : '\n' ∉ s.type.toList :=
  h.type ▸ feed_not_mem_ofLiteral _

theorem wellFormed_make {name : List Char} {setter? initial? : Option (List Char)}
    (hname : ∀ c ∈ name, isNameChar c = true) (hsetter : ∀ t, setter? = some t → ∀ c ∈ t, isNameChar c = true) :
    (make name setter? initial?).WellFormed where
  name := by simpa [Spelled, make] using hname
  setter := by
    cases setter? with
    | none => exact spelled_pascalCase _
    | some t => simpa [Spelled, make, StateBinding.setter] using hsetter t rfl
  type := by simp [make]

theorem wellFormed_of_ofHooks {body : List Char} : ∀ s ∈ ofHooks body, s.WellFormed := by
  have hhook {p : Pattern} (hname : p.inGroup 1 = [Pattern.name]) (hsetter : p.inGroup 2 = [Pattern.name])
      {m : Match} (hm : m ∈ p.matchesOf body) (initial? : Option (List Char)) :
      (make (m.groupText body 1) (m.groupText? body 2) initial?).WellFormed := by
    have hspells {i : Nat} (hi : i ≠ 0) (hp : p.inGroup i = [Pattern.name]) {t : List Char}
        (ht : m.groupText? body i = some t) : ∀ c ∈ t, isNameChar c = true :=
      Pattern.Found.spells (.inr hm) hi (by simpa [hp] using Pattern.spells_name) ht
    refine wellFormed_make ?_ fun t => hspells (by decide) hsetter
    unfold Match.groupText
    cases ht : m.groupText? body 1 with
    | none => simp
    | some t => exact hspells (by decide) hname ht
  intro s hs
  rcases List.mem_append.1 hs with hs | hs
  · obtain ⟨m, hm, rfl⟩ := List.mem_map.1 hs
    exact hhook rfl rfl hm _
  · obtain ⟨m, hm, rfl⟩ := List.mem_map.1 hs
    exact hhook rfl rfl hm _

/-- A state of a class comes from an entry of its state object, and has no setter of its own. -/
theorem exists_entry_of_ofClass {classBody : List Char} {state : List StateBinding} (h : ofClass classBody = .ok state)
    {s : StateBinding} (hs : s ∈ state) :
    ∃ (key : List Char) (value? : Option (List Char)), isIdentifier key = true ∧ s = make key none value? := by
  unfold ofClass at h
  split at h
  · cases h
    cases hs
  · split at h
    · cases h
      cases hs
    · obtain ⟨es, hes, h⟩ := bind_eq_ok.1 h
      cases h
      obtain ⟨e, he, rfl⟩ := List.mem_map.1 hs
      exact ⟨e.key, e.value?, Entry.isIdentifier_of_mem_all hes he, rfl⟩

theorem wellFormed_of_ofClass {classBody : List Char} {state : List StateBinding} (h : ofClass classBody = .ok state) :
    ∀ s ∈ state, s.WellFormed := by
  intro s hs
  obtain ⟨key, value?, hkey, rfl⟩ := exists_entry_of_ofClass h hs
  exact wellFormed_make (isNameChar_of_isIdentifier hkey) (fun _ ht => by cases ht)

end StateBinding

namespace Facts

theorem reported (span : List Char) (hits : List Nat) (f : Facts) :
    (Usage.report span hits f).state = f.state ∧ (Usage.report span hits f).kind = f.kind := by
  have hfold (names : List String) (message : String → String) (f : Facts) :
      let g := names.foldl (fun f n => f.withDiagnostic .analysisWarning (message n)) f
      g.state = f.state ∧ g.kind = f.kind := by
    induction names generalizing f with
    | nil => exact ⟨rfl, rfl⟩
    | cons n ns ih => exact ih (f.withDiagnostic ..)
  obtain ⟨hstate, hkind⟩ := hfold _ _ f
  obtain ⟨hstate', hkind'⟩ := hfold _ _ _
  exact ⟨hstate'.trans hstate, hkind'.trans hkind⟩

/-- State is read off the hooks of a function or off the state object of a class. -/
def HasState (f : Facts) : Prop :=
  if f.isClass then f.state = [] ∨ ∃ classBody, StateBinding.ofClass classBody = .ok f.state
  else f.state = [] ∨ ∃ body, f.state = StateBinding.ofHooks body

theorem hasState_of_ofFunction {text : List Char} {scope : Scope} {f g : Facts}
    (h : ofFunction text scope f = .ok g) : g.HasState := by
  unfold ofFunction at h
  split at h
  all_goals
    obtain ⟨⟨object?, taken⟩, -, h⟩ := bind_eq_ok.1 h
    obtain ⟨through, -, h⟩ := bind_eq_ok.1 h
    obtain ⟨⟨f', hits⟩, hp, h⟩ := bind_eq_ok.1 h
    obtain ⟨table, -, hp⟩ := bind_eq_ok.1 hp
    cases hp
    cases h
    obtain ⟨hstate, hkind⟩ := reported scope.span table.hits _
    rw [HasState, isClass, hstate, hkind]
    exact .inr ⟨_, rfl⟩

theorem hasState_of_ofClass {text : List Char} {d : Declaration} {f g : Facts} (hf : f.state = [])
    (h : ofClass text d f = .ok g) : g.HasState := by
  have hhook (classBody : List Char) (f : Facts) : (hookInClass classBody f).kind = f.kind := by
    unfold hookInClass
    split <;> rfl
  unfold ofClass at h
  split at h
  · cases h
    exact .inl hf
  · obtain ⟨found, -, h⟩ := bind_eq_ok.1 h
    obtain ⟨state, hs, h⟩ := bind_eq_ok.1 h
    obtain ⟨⟨f', hits⟩, hp, h⟩ := bind_eq_ok.1 h
    obtain ⟨table, -, hp⟩ := bind_eq_ok.1 hp
    cases hp
    cases h
    obtain ⟨hstate, hkind⟩ := reported _ table.hits _
    rw [HasState, isClass, hstate, hkind]
    simp only [withRendering, hhook]
    exact .inr ⟨_, hs⟩

theorem hasState_of_analyze {source : String} {declared? : Option String} {f : Facts}
    (h : analyze source declared? = .ok f) : f.HasState := by
  dsimp only [analyze] at h
  split at h
  · cases h
    exact .inl rfl
  · obtain ⟨g, hg, h⟩ := bind_eq_ok.1 h
    have hstate : g.HasState := by
      unfold ofDeclaration at hg
      split at hg
      · split at hg
        · exact hasState_of_ofClass (state_warnings ..) hg
        · exact hasState_of_ofFunction hg
      · exact hasState_of_ofFunction hg
    split at h <;> cases h <;> exact hstate

theorem wellFormed_of_analyze {source : String} {declared? : Option String} {f : Facts}
    (h : analyze source declared? = .ok f) : ∀ s ∈ f.state, s.WellFormed := by
  have hstate := hasState_of_analyze h
  unfold HasState at hstate
  split at hstate
  all_goals rcases hstate with hnil | ⟨body, hbody⟩
  · simp [hnil]
  · exact StateBinding.wellFormed_of_ofClass hbody
  · simp [hnil]
  · rw [hbody]
    exact StateBinding.wellFormed_of_ofHooks

/-- The facts that the analysis gives for a source with these characters. -/
theorem exists_of_analyze {source : String} {cs : List Char} {declared? : Option String} {P : Facts → Bool}
    (hs : source = String.ofList cs)
    (h : ∀ s : String, s.toList = cs → (analyze s declared?).toOption.any P = true) :
    ∃ f, analyze source declared? = .ok f ∧ P f = true := by
  have hany := h source (hs ▸ String.toList_ofList)
  cases ha : analyze source declared? with
  | error e => simp [ha, Except.toOption] at hany
  | ok f => exact ⟨f, rfl, by simpa [ha, Except.toOption] using hany⟩

end Facts

end Recast
